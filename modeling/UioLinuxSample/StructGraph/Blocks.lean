import UioLinuxSample.StructGraph.Refines

set_option autoImplicit false

/-! # Blocks inside of a structure

What a turn of the loop does with the lines of blocks in a structure. Each line has a weight
(`readWeight`), and inside of a structure the level changes by the weight of the line that is read
(`step_inside`). As long as the level stays positive, the node of the outer structure only grows, and
its label is not closed. The line `struct X {` raises the level, `struct {` and `union {` do not, and
`};` lowers it, but `} name;` does not, unless the removal of `const` makes something else of the line
(`readWeight_of_clean`).
-/

namespace UioLinuxSample.StructGraph

open Pattern

/-! ## Lines of blocks -/

def unionWord : Text := "union".toList

/-- `struct {` or `union {`. -/
def IsAnonymous (line : Text) : Prop :=
  ∃ word lead gap tail, (word = structWord ∨ word = unionWord) ∧ IsBlank lead ∧ IsBlank gap
    ∧ IsBlank tail ∧ line = lead ++ (word ++ (gap ++ '{' :: tail))

/-- `} name;`. -/
def IsClosingName (line : Text) : Prop :=
  ∃ lead gap name gap' tail, IsBlank lead ∧ IsBlank gap ∧ IsName name ∧ IsBlank gap' ∧ IsBlank tail
    ∧ line = lead ++ '}' :: (gap ++ (name ++ (gap' ++ ';' :: tail)))

theorem IsBlank.countP_isWord {t : Text} (h : IsBlank t) : t.countP isWord = 0 := by
  rw [List.countP_eq_zero]
  intro c hc
  rw [isWord_of_isSpace (h c hc)]
  exact Bool.false_ne_true

/-- A match of an opening line has a word after `struct`. -/
theorem countP_of_fits_openPattern {pieces : List Text} (h : Fits openPattern pieces) :
    7 ≤ pieces.flatten.countP isWord := by
  obtain ⟨_, rfl, h₁⟩ := (fits_literal structWord).mp h
  obtain ⟨gap, _, rfl, -, h₂⟩ := fits_star.mp h₁
  obtain ⟨x, more, rfl, hx, -⟩ := fits_one.mp h₂
  have hstruct : (structWord.map fun a => [a]).flatten.countP isWord = 6 := by decide
  rw [List.flatten_append, List.countP_append, hstruct, List.flatten_cons, List.flatten_cons,
    List.countP_append, List.countP_append, List.countP_cons_of_pos hx]
  omega

theorem IsAnonymous.countP_isWord {line : Text} (h : IsAnonymous line) : line.countP isWord ≤ 6 := by
  obtain ⟨word, lead, gap, tail, hword, hlead, hgap, htail, rfl⟩ := h
  have hcount : word.countP isWord ≤ 6 := by
    rcases hword with rfl | rfl
    · decide
    · decide
  rw [List.countP_append, List.countP_append, List.countP_append,
    List.countP_cons_of_neg (by decide), hlead.countP_isWord, hgap.countP_isWord,
    htail.countP_isWord]
  omega

/-- Apart from white space and the brace there is one of the two words. -/
theorem IsAnonymous.exists_word {line : Text} (h : IsAnonymous line) :
    ∃ word, (word = structWord ∨ word = unionWord)
      ∧ ∀ c, isSpace c = false → c ≠ '{' → c ∉ word → c ∉ line := by
  obtain ⟨word, lead, gap, tail, hword, hlead, hgap, htail, rfl⟩ := h
  refine ⟨word, hword, fun c hspace hc hnot => ?_⟩
  simp only [List.mem_append, List.mem_cons, not_or]
  exact ⟨hlead.not_mem hspace, hnot, hgap.not_mem hspace, hc, htail.not_mem hspace⟩

theorem IsAnonymous.constFree {line : Text} (h : IsAnonymous line) : ConstFree line := by
  obtain ⟨word, rfl | rfl, hline⟩ := h.exists_word
  · exact constFree_of_not_mem (c := 'o') (by decide) (hline 'o' (by decide) (by decide) (by decide))
  · exact constFree_of_not_mem (c := 's') (by decide) (hline 's' (by decide) (by decide) (by decide))

theorem IsAnonymous.semicolon_not_mem {line : Text} (h : IsAnonymous line) : ';' ∉ line := by
  obtain ⟨word, rfl | rfl, hline⟩ := h.exists_word
  · exact hline ';' (by decide) (by decide) (by decide)
  · exact hline ';' (by decide) (by decide) (by decide)

/-- There is no name after the word, and all other expressions need a semicolon. -/
theorem IsAnonymous.searches {line : Text} (h : IsAnonymous line) :
    search openPattern line = none ∧ search memberPattern line = none ∧ search wordPattern line = none
      ∧ search wordsPattern line = none ∧ search functionPattern line = none
      ∧ search closePattern line = none := by
  have hopen : search openPattern line = none := by
    rw [Option.eq_none_iff_forall_ne_some]
    intro pieces hsearch
    obtain ⟨hfits, pre, post, rfl⟩ := search_sound hsearch
    have hmany := countP_of_fits_openPattern hfits
    have hfew := h.countP_isWord
    rw [List.countP_append, List.countP_append] at hfew
    omega
  have hnone : ∀ p : List (Item Char), char ';' ∈ p → search p line = none :=
    fun p hp => search_of_not_mem hp h.semicolon_not_mem
  exact ⟨hopen, hnone memberPattern (by simp [memberPattern]), hnone wordPattern (by simp [wordPattern]),
    hnone wordsPattern (by simp [wordsPattern]), hnone functionPattern (by simp [functionPattern]),
    hnone closePattern (by simp [closePattern])⟩

/-- A match of a closing line is a brace, white space and a semicolon. -/
theorem exists_of_fits_closePattern {pieces : List Text} (h : Fits closePattern pieces) :
    ∃ blank blank', IsBlank blank' ∧ pieces.flatten = blank ++ '}' :: (blank' ++ [';']) := by
  obtain ⟨blank, _, rfl, -, h₁⟩ := fits_star.mp h
  obtain ⟨c, _, rfl, hc, h₂⟩ := fits_one.mp h₁
  obtain ⟨blank', _, rfl, hblank', h₃⟩ := fits_star.mp h₂
  obtain ⟨d, _, rfl, hd, h₄⟩ := fits_one.mp h₃
  obtain rfl := fits_nil.mp h₄
  obtain rfl := of_decide_eq_true hc
  obtain rfl := of_decide_eq_true hd
  exact ⟨blank, blank', hblank', by simp⟩

theorem IsName.not_mem {name : Text} {c : Char} (h : IsName name) (hc : isWord c = false) : c ∉ name := by
  intro hmem
  rw [h.word c hmem] at hc
  cases hc

theorem IsClosingName.open_not_mem {line : Text} (h : IsClosingName line) : '{' ∉ line := by
  obtain ⟨lead, gap, name, gap', tail, hlead, hgap, hname, hgap', htail, rfl⟩ := h
  simp only [List.mem_append, List.mem_cons, not_or]
  exact ⟨hlead.not_mem (by decide), by decide, hgap.not_mem (by decide), hname.not_mem (by decide),
    hgap'.not_mem (by decide), by decide, htail.not_mem (by decide)⟩

/-- The brace of a line `} name;` is not followed by a semicolon. -/
theorem IsClosingName.search_closePattern {line : Text} (h : IsClosingName line) :
    search closePattern line = none := by
  obtain ⟨lead, gap, name, gap', tail, hlead, hgap, hname, hgap', htail, rfl⟩ := h
  rw [Option.eq_none_iff_forall_ne_some]
  intro pieces hsearch
  obtain ⟨hfits, pre, post, hline⟩ := search_sound hsearch
  obtain ⟨blank, blank', hblank', hflatten⟩ := exists_of_fits_closePattern hfits
  -- there is one brace, and what follows it up to the semicolon is not blank
  have hsplit : lead ++ '}' :: (gap ++ (name ++ (gap' ++ ';' :: tail)))
      = (pre ++ blank) ++ '}' :: (blank' ++ ';' :: post) := by
    rw [hline, hflatten]
    simp
  have hbrace : '}' ∉ gap ++ (name ++ (gap' ++ ';' :: tail)) := by
    simp only [List.mem_append, List.mem_cons, not_or]
    exact ⟨hgap.not_mem (by decide), hname.not_mem (by decide), hgap'.not_mem (by decide), by decide,
      htail.not_mem (by decide)⟩
  obtain ⟨-, hrest⟩ := append_cons_inj_of_once (hlead.not_mem (by decide)) hbrace hsplit
  have hafter : (gap ++ (name ++ gap')) ++ ';' :: tail = blank' ++ ';' :: post := by
    rw [← hrest]
    simp
  have hsemi : ';' ∉ gap ++ (name ++ gap') := by
    simp only [List.mem_append, not_or]
    exact ⟨hgap.not_mem (by decide), hname.not_mem (by decide), hgap'.not_mem (by decide)⟩
  obtain ⟨rfl, -⟩ := append_cons_inj hsemi (hblank'.not_mem (by decide)) hafter
  obtain ⟨c, hc⟩ := List.exists_mem_of_ne_nil name hname.ne_nil
  have hspace : isSpace c = true := hblank' c (by simp [hc])
  rw [isSpace_of_isWord (hname.word c hc)] at hspace
  cases hspace

/-! ## What is found in a line -/

/-- The name of the structure that a line is taken to open. -/
def readName (line : Text) : Option Text :=
  (search openPattern (removeConst line)).map fun m => groupText openPattern m 1

/-- The type of the member that a line is taken for, and what its port shows. -/
def readPort (line : Text) : Option (Text × Text) :=
  (search memberPattern (removeConst line)).map fun m =>
    (groupText memberPattern m 1,
      groupText memberPattern m 2 ++ groupText memberPattern m 3 ++ groupText memberPattern m 4)

/-- By how much a line changes the level inside of a structure. -/
def readWeight (line : Text) : Int :=
  if (readName line).isSome then 1
  else if (readPort line).isSome || findsPort line then 0
  else if (search closePattern (removeConst line)).isSome then -1
  else 0

theorem neg_one_le_readWeight (line : Text) : -1 ≤ readWeight line := by
  unfold readWeight
  split_ifs <;> decide

theorem readName_eq_none {line : Text} (h : search openPattern (removeConst line) = none) :
    readName line = none := by
  rw [readName, h]
  rfl

theorem readPort_eq_none {line : Text} (h : search memberPattern (removeConst line) = none) :
    readPort line = none := by
  rw [readPort, h]
  rfl

/-- A line that is not found to open or to close anything. -/
theorem readWeight_eq_zero {line : Text} (hopen : search openPattern (removeConst line) = none)
    (hclose : search closePattern (removeConst line) = none) : readWeight line = 0 := by
  simp [readWeight, readName_eq_none hopen, hclose]

/-! ## What happens to the node -/

/-- The text under the key `node_str`, if there is one. -/
def nodeStr : Option Value → Text
  | some (.node (some str) _) => str
  | _ => []

/-- The port of a member that is a structure. -/
def portText (type stars gap name : Text) : Text :=
  space16 ++ "<".toList ++ type ++ "> ".toList ++ stars ++ gap ++ name ++ "\\l|\n".toList

theorem portText_eq (type stars gap name : Text) :
    portText type stars gap name
      = space16 ++ "<".toList ++ type ++ "> ".toList ++ (stars ++ gap ++ name) ++ "\\l|\n".toList := by
  simp only [portText, List.append_assoc]

/-- The end of the label, and of the node. -/
def labelEnd : Text :=
  space12 ++ "\x7d\x7d\"\n".toList
    ++ (space8 ++ "shape = \"record\"\n".toList ++ space4 ++ "];\n".toList)

/-- The node of a structure is begun, and the key `created` is there. -/
structure Begun (name : Text) (s : State) : Prop where
  nodeName : s.nodeName = some name
  node : ∃ str parents, s.db name = some (.node (some str) parents)
  created : (s.db createdKey).isSome = true

/-- What is known of a node and of the users of the names is kept. -/
structure Grows (name : Text) (s s' : State) : Prop where
  nodeStr : nodeStr (s.db name) <+: nodeStr (s'.db name)
  includedBy : ∀ t, includedBy (s.db t) <+: includedBy (s'.db t)

theorem Grows.of_db_eq {name : Text} {s s' : State} (h : s'.db = s.db) : Grows name s s' := by
  refine ⟨?_, fun t => ?_⟩ <;> rw [h]

theorem Grows.trans {name : Text} {s s' s'' : State} (h : Grows name s s') (h' : Grows name s' s'') :
    Grows name s s'' :=
  ⟨h.nodeStr.trans h'.nodeStr, fun t => (h.includedBy t).trans (h'.includedBy t)⟩

section Effects

variable {s : State} {name : Text}

theorem isCreated_ok (h : (s.db createdKey).isSome = true) (t : Text) :
    ∃ b, s.isCreated t = .ok b := by
  obtain ⟨v, hv⟩ := Option.isSome_iff_exists.mp h
  unfold State.isCreated
  rw [hv]
  cases v with
  | names xs => exact ⟨_, rfl⟩
  | node str parents => exact ⟨_, rfl⟩

theorem Begun.setValue (h : Begun name s) (key : Text) {v : Value}
    (hv : key = name → ∃ str parents, v = .node (some str) parents) : Begun name (s.setValue key v) := by
  refine ⟨h.nodeName, ?_, ?_⟩
  · by_cases hkey : name = key
    · subst hkey
      obtain ⟨str, parents, rfl⟩ := hv rfl
      exact ⟨str, parents, setValue_self _ _⟩
    · rw [setValue_of_ne v hkey]
      exact h.node
  · by_cases hkey : createdKey = key
    · rw [← hkey, setValue_self]
      rfl
    · rw [setValue_of_ne v hkey]
      exact h.created

theorem appendNodeStr_begun (h : Begun name s) (text : Text) :
    ∃ s', s.appendNodeStr text = .ok s' ∧ Begun name s' ∧ s'.level = s.level
      ∧ nodeStr (s'.db name) = nodeStr (s.db name) ++ text
      ∧ ∀ t, includedBy (s'.db t) = includedBy (s.db t) := by
  obtain ⟨str, parents, hnode⟩ := h.node
  refine ⟨s.setValue name (.node (some (str ++ text)) parents), ?_,
    h.setValue name fun _ => ⟨_, _, rfl⟩, rfl, ?_, ?_⟩
  · unfold State.appendNodeStr
    simp only [h.nodeName, hnode]
  · rw [setValue_self, hnode]
    rfl
  · intro t
    by_cases ht : t = name
    · subst ht
      rw [setValue_self, hnode]
      exact includedBy_node _ _ _
    · rw [setValue_of_ne _ ht]

/-- An edge changes neither nodes nor users. -/
theorem edgeIf_db (s : State) (created : Bool) (a b : Text) :
    (edgeIf s created a b).db = s.db ∧ (edgeIf s created a b).level = s.level
      ∧ (edgeIf s created a b).nodeName = s.nodeName := by
  obtain ⟨edges, heq⟩ := edgeIf_eq s created a b
  rw [heq]
  exact ⟨rfl, rfl, rfl⟩

theorem nodeStr_addIncludedBy (v : Option Value) (t : Text) :
    nodeStr (some (State.addIncludedBy v t)) = nodeStr v := by
  match v with
  | none => rfl
  | some (.names _) => rfl
  | some (.node none none) => rfl
  | some (.node none (some _)) => rfl
  | some (.node (some _) none) => rfl
  | some (.node (some _) (some _)) => rfl

/-- A member that is a structure: a port for it, and the outer structure among the users of its
type. -/
theorem structMember_begun (h : Begun name s) (type stars gap member : Text) :
    ∃ s', s.structMember type stars gap member = .ok s' ∧ Begun name s' ∧ s'.level = s.level
      ∧ nodeStr (s'.db name) = nodeStr (s.db name) ++ portText type stars gap member
      ∧ includedBy (s'.db type) = includedBy (s.db type) ++ [name]
      ∧ ∀ t, t ≠ type → includedBy (s'.db t) = includedBy (s.db t) := by
  obtain ⟨s₁, hs₁, h₁, hlevel, hstr, husers⟩ :=
    appendNodeStr_begun h (portText type stars gap member)
  have hset : Begun name (s₁.setValue type (State.addIncludedBy (s₁.db type) name)) := by
    apply h₁.setValue
    rintro rfl
    obtain ⟨str, parents, hnode⟩ := h₁.node
    rw [hnode]
    cases parents with
    | none => exact ⟨str, _, rfl⟩
    | some parents => exact ⟨str, _, rfl⟩
  obtain ⟨created, hcreated⟩ := isCreated_ok hset.created type
  obtain ⟨hdb, hlevel', hname'⟩ := edgeIf_db
    (s₁.setValue type (State.addIncludedBy (s₁.db type) name)) created name type
  refine ⟨edgeIf _ created name type, ?_, ?_, hlevel'.trans hlevel, ?_, ?_, ?_⟩
  · unfold State.structMember
    rw [show s.appendNodeStr (space16 ++ "<".toList ++ type ++ "> ".toList ++ stars ++ gap ++ member
      ++ "\\l|\n".toList) = .ok s₁ from hs₁]
    dsimp only [bind, Except.bind]
    rw [h₁.nodeName]
    dsimp only
    rw [hcreated]
    rfl
  · exact ⟨hname'.trans hset.nodeName, hdb ▸ hset.node, hdb ▸ hset.created⟩
  · rw [hdb, ← hstr]
    by_cases hsame : name = type
    · subst hsame
      rw [setValue_self, nodeStr_addIncludedBy]
    · rw [setValue_of_ne _ hsame]
  · rw [hdb, setValue_self, includedBy_addIncludedBy, husers]
  · intro t ht
    rw [hdb, setValue_of_ne _ ht, husers]

theorem addParents_ok (h : (s.db createdKey).isSome = true) (node : Text) (parents : List Text) :
    ∃ s', State.addParents node parents s = .ok s' ∧ s'.db = s.db ∧ s'.level = s.level := by
  induction parents generalizing s with
  | nil => exact ⟨s, rfl, rfl, rfl⟩
  | cons parent parents ih =>
      obtain ⟨created, hcreated⟩ := isCreated_ok h parent
      obtain ⟨hdb, hlevel, -⟩ := edgeIf_db s created parent node
      obtain ⟨s', hs', hdb', hlevel'⟩ := ih (s := edgeIf s created parent node) (hdb ▸ h)
      refine ⟨s', ?_, hdb'.trans hdb, hlevel'.trans hlevel⟩
      rw [State.addParents, hcreated]
      exact hs'

/-- The line `};` at the first level closes the label. -/
theorem closeStruct_last (h : Begun name s) (hlevel : s.level = 1) :
    ∃ s', s.closeStruct = .ok s' ∧ s'.level = 0
      ∧ nodeStr (s'.db name) = nodeStr (s.db name) ++ labelEnd
      ∧ ∀ t, includedBy (s'.db t) = includedBy (s.db t) := by
  have h₀ : Begun name { s with level := 0 } := ⟨h.nodeName, h.node, h.created⟩
  obtain ⟨s₁, hs₁, h₁, hlevel₁, hstr₁, husers₁⟩ :=
    appendNodeStr_begun h₀ (space12 ++ "\x7d\x7d\"\n".toList)
  obtain ⟨s₂, hs₂, h₂, hlevel₂, hstr₂, husers₂⟩ := appendNodeStr_begun h₁
    (space8 ++ "shape = \"record\"\n".toList ++ space4 ++ "];\n".toList)
  obtain ⟨str, parents, hnode⟩ := h₂.node
  obtain ⟨s₃, hs₃, hdb, hlevel₃⟩ := addParents_ok h₂.created name (parents.getD [])
  refine ⟨s₃, ?_, by rw [hlevel₃, hlevel₂, hlevel₁], ?_, ?_⟩
  · unfold State.closeStruct
    simp only [hlevel, ge_iff_le, le_refl, if_pos, Nat.sub_self, bind, Except.bind, hs₁, hs₂,
      h₂.nodeName, hnode]
    cases parents with
    | none => exact hs₃
    | some parents => exact hs₃
  · rw [hdb, hstr₂, hstr₁, List.append_assoc]
    rfl
  · intro t
    rw [hdb, husers₂, husers₁]

/-- The first text of a node. -/
def heading (name : Text) : Text :=
  space4 ++ "\"".toList ++ name ++ "\" [\n".toList ++ space8 ++ "label = \"<head> ".toList ++ name
    ++ "\\l|\n".toList ++ space12 ++ "\x7b|\x7b\n".toList

theorem brace_not_mem_heading (hname : IsName name) : '}' ∉ heading name := by
  have hnot : '}' ∉ name := hname.not_mem (by decide)
  simp only [heading, List.mem_append, not_or]
  exact ⟨⟨⟨⟨⟨⟨⟨⟨⟨by decide, by decide⟩, hnot⟩, by decide⟩, by decide⟩, by decide⟩, hnot⟩, by decide⟩,
    by decide⟩, by decide⟩

/-- The line `struct A {` outside of a structure begins its node. -/
theorem openStruct_first {xs : List Text} (hlevel : s.level = 0)
    (hcreated : s.db createdKey = some (.names xs)) (name : Text) :
    ∃ s', s.openStruct name = .ok s' ∧ Begun name s' ∧ s'.level = 1
      ∧ nodeStr (s'.db name) = heading name := by
  -- also for a structure with the name `created`, whose node replaces the list
  have hset : ∀ (s₁ : State) (parents : Option (List Text)), s₁.nodeName = some name →
      (s₁.db createdKey).isSome = true →
      Begun name (s₁.setValue name (.node (some (heading name)) parents)) := by
    intro s₁ parents hname hkey
    refine ⟨hname, ⟨_, _, setValue_self _ _⟩, ?_⟩
    by_cases hsame : createdKey = name
    · rw [← hsame, setValue_self]
      rfl
    · rw [setValue_of_ne _ hsame]
      exact hkey
  unfold State.openStruct
  simp only [hlevel, Nat.zero_add, if_pos, hcreated]
  split
  · exact ⟨_, rfl, hset _ _ rfl (by rw [setValue_self]; rfl), rfl, by rw [setValue_self]; rfl⟩
  · exact ⟨_, rfl, hset _ _ rfl (by rw [setValue_self]; rfl), rfl, by rw [setValue_self]; rfl⟩

end Effects

/-! ## Kinds of lines -/

inductive Kind where
  | plain
  | anonymous
  | named (name : Text)
  | closing
  | closingName
  deriving DecidableEq

/-- What a line of a kind looks like. -/
def Kind.Shape : Kind → Text → Prop
  | .plain, line => line ≠ [] ∧ '{' ∉ line ∧ '}' ∉ line
  | .anonymous, line => IsAnonymous line
  | .named name, line => IsName name ∧ IsOpening line name
  | .closing, line => IsClosing line
  | .closingName, line => IsClosingName line

/-- A line in a structure. -/
structure Line where
  text : Text
  kind : Kind
  shape : kind.Shape text

namespace Line

def weight (l : Line) : Int :=
  match l.kind with
  | .plain => 0
  | .anonymous => 0
  | .named _ => 1
  | .closing => -1
  | .closingName => 0

/-- A line `struct B *name;`. -/
structure IsMemberLine (l : Line) (m : MemberText) : Prop where
  kind : l.kind = .plain
  separated : m.Separated
  text : ∃ lead tail, IsBlank lead ∧ IsBlank tail ∧ l.text = lead ++ (m.text ++ tail)

/-- The weight of the line as the script reads it. -/
def readWeight (l : Line) : Int := StructGraph.readWeight l.text

/-- The removal of `const` leaves the line alone, where it could change how the line is read. -/
def Clean (l : Line) : Prop :=
  match l.kind with
  | .plain => ∀ m, l.IsMemberLine m → ConstFree l.text
  | .named _ => ConstFree l.text
  | .closingName => ConstFree l.text
  | _ => True

theorem text_ne_nil (l : Line) : l.text ≠ [] := by
  have hshape := l.shape
  cases hkind : l.kind with
  | plain =>
      rw [hkind] at hshape
      exact hshape.1
  | anonymous =>
      rw [hkind] at hshape
      obtain ⟨word, lead, gap, tail, -, -, -, -, hline⟩ := hshape
      simp [hline]
  | named name =>
      rw [hkind] at hshape
      obtain ⟨-, lead, gap, gap', tail, -, -, -, -, -, hline⟩ := hshape
      simp [hline]
  | closing =>
      rw [hkind] at hshape
      obtain ⟨lead, gap, tail, -, -, -, hline⟩ := hshape
      simp [hline]
  | closingName =>
      rw [hkind] at hshape
      obtain ⟨lead, gap, name, gap', tail, -, -, -, -, -, hline⟩ := hshape
      simp [hline]

/-- **A line that is left alone has its weight.** -/
theorem readWeight_of_clean {l : Line} (h : l.Clean) : l.readWeight = l.weight := by
  have hshape := l.shape
  unfold Clean at h
  unfold readWeight weight
  cases hkind : l.kind with
  | plain =>
      simp only [hkind] at hshape ⊢
      exact readWeight_eq_zero (search_openPattern hshape.2.1) (search_closePattern hshape.2.2)
  | anonymous =>
      simp only [hkind] at hshape ⊢
      obtain ⟨hopen, -, -, -, -, hclose⟩ := hshape.searches
      rw [← removeConst_of_constFree hshape.constFree] at hopen hclose
      exact readWeight_eq_zero hopen hclose
  | named x =>
      simp only [hkind] at hshape h ⊢
      obtain ⟨m, hm, -⟩ := search_of_isOpening hshape.1 hshape.2
      rw [← removeConst_of_constFree h] at hm
      simp [StructGraph.readWeight, readName, hm]
  | closing =>
      simp only [hkind] at hshape ⊢
      obtain ⟨m, hm⟩ := search_of_isClosing hshape
      obtain ⟨hopen, hmember, hword, hwords, hfunction⟩ := hshape.searches
      rw [← removeConst_of_constFree hshape.constFree] at hm hopen hmember hword hwords hfunction
      simp [StructGraph.readWeight, readName, readPort, findsPort, hm, hopen, hmember, hword, hwords,
        hfunction]
  | closingName =>
      simp only [hkind] at hshape h ⊢
      have hclose := hshape.search_closePattern
      rw [← removeConst_of_constFree h] at hclose
      exact readWeight_eq_zero (search_openPattern hshape.open_not_mem) hclose

end Line

/-! ## One line -/

/-- The node of the structure is begun and its label is open. -/
structure LabelOpen (name : Text) (s : State) : Prop where
  begun : Begun name s
  brace : '}' ∉ nodeStr (s.db name)

section Step

variable {s : State} {name : Text} {l : Line}

theorem brace_not_mem_portText {type stars gap member : Text} (htype : '}' ∉ type)
    (hstars : '}' ∉ stars) (hgap : '}' ∉ gap) (hmember : '}' ∉ member) :
    '}' ∉ portText type stars gap member := by
  simp only [portText, List.mem_append, not_or]
  exact ⟨⟨⟨⟨⟨⟨⟨by decide, by decide⟩, htype⟩, by decide⟩, hstars⟩, hgap⟩, hmember⟩, by decide⟩

/-- A change of the level alone. -/
theorem LabelOpen.withLevel (h : LabelOpen name s) (level : Nat) :
    LabelOpen name { s with level := level } :=
  ⟨⟨h.begun.nodeName, h.begun.node, h.begun.created⟩, h.brace⟩

/-- A member that is a structure keeps the label open. -/
theorem step_member (h : LabelOpen name s) {line : Text} {m : List Text}
    (hm : search memberPattern line = some m) :
    ∃ s', s.structMember (groupText memberPattern m 1) (groupText memberPattern m 2)
          (groupText memberPattern m 3) (groupText memberPattern m 4) = .ok s'
      ∧ LabelOpen name s' ∧ s'.level = s.level ∧ Grows name s s' := by
  obtain ⟨s', hs', hbegun, hlevel, hstr, htype, hother⟩ := structMember_begun h.begun
    (groupText memberPattern m 1) (groupText memberPattern m 2) (groupText memberPattern m 3)
    (groupText memberPattern m 4)
  have hport := brace_not_mem_portText (not_mem_group (g := 1) (c := '}') hm (by decide))
    (not_mem_group (g := 2) (c := '}') hm (by decide))
    (not_mem_group (g := 3) (c := '}') hm (by decide))
    (not_mem_group (g := 4) (c := '}') hm (by decide))
  refine ⟨s', hs', ⟨hbegun, ?_⟩, hlevel, ?_, ?_⟩
  · rw [hstr, List.mem_append, not_or]
    exact ⟨h.brace, hport⟩
  · rw [hstr]
    exact List.prefix_append _ _
  · intro t
    by_cases ht : t = groupText memberPattern m 1
    · rw [ht, htype]
      exact List.prefix_append _ _
    · rw [hother t ht]

/-- So does any other port. -/
theorem step_port (h : LabelOpen name s) {text : Text} (htext : '}' ∉ text) :
    ∃ s', s.appendNodeStr text = .ok s' ∧ LabelOpen name s' ∧ s'.level = s.level ∧ Grows name s s' := by
  obtain ⟨s', hs', hbegun, hlevel, hstr, husers⟩ := appendNodeStr_begun h.begun text
  refine ⟨s', hs', ⟨hbegun, ?_⟩, hlevel, ?_, ?_⟩
  · rw [hstr, List.mem_append, not_or]
    exact ⟨h.brace, htext⟩
  · rw [hstr]
    exact List.prefix_append _ _
  · intro t
    rw [husers]

theorem readLine_of_readName (s : State) {line x : Text} (h : readName line = some x) :
    s.readLine line = s.openStruct x := by
  obtain ⟨m, hm, rfl⟩ := Option.map_eq_some_iff.mp h
  unfold State.readLine
  simp only [hm]

/-- Outside of a structure, a line that opens none is passed over. -/
theorem readLine_outside {line : Text} (hlevel : s.level = 0) (h : readName line = none) :
    s.readLine line = .ok s := by
  have hopen : search openPattern (removeConst line) = none := Option.map_eq_none_iff.mp h
  have hclosed : s.closeStruct = .ok s := if_neg (by omega)
  unfold State.readLine State.searchInside
  simp only [hopen, hlevel, gt_iff_lt, lt_self_iff_false, if_false, hclosed]
  split <;> rfl

/-- **A line changes the level by its weight.** As long as the level stays positive, the label stays
open and the node grows. -/
theorem step_inside (h : LabelOpen name s) (hlevel : 0 < s.level) {line : Text}
    (hpos : 0 < (s.level : Int) + readWeight line) :
    ∃ s', s.readLine line = .ok s' ∧ LabelOpen name s' ∧ (s'.level : Int) = s.level + readWeight line
      ∧ Grows name s s' := by
  unfold readWeight at hpos ⊢
  cases hname : readName line with
  | some x =>
      refine ⟨{ s with level := s.level + 1 }, ?_, h.withLevel _, by simp, Grows.of_db_eq rfl⟩
      rw [readLine_of_readName s hname, State.openStruct]
      exact if_neg (by dsimp only; omega)
  | none =>
      have hopen : search openPattern (removeConst line) = none := Option.map_eq_none_iff.mp hname
      simp only [hname, Option.isSome_none, Bool.false_eq_true, if_false] at hpos ⊢
      rcases readLine_inside hlevel hopen with
        ⟨m, hm, hline⟩ | ⟨hm, ⟨hport, text, htext, hline⟩ | ⟨hport, hline⟩⟩
      · have hread : (readPort line).isSome = true := by simp [readPort, hm]
        obtain ⟨s', hs', hopen', hlevel', hgrows⟩ := step_member h hm
        exact ⟨s', hline.trans hs', hopen', by simp [hread, hlevel'], hgrows⟩
      · obtain ⟨s', hs', hopen', hlevel', hgrows⟩ := step_port h htext
        exact ⟨s', hline.trans hs', hopen', by simp [hport, hlevel'], hgrows⟩
      · simp only [readPort_eq_none hm, hport, Option.isSome_none, Bool.or_self, Bool.false_eq_true,
          if_false] at hpos ⊢
        cases hclose : (search closePattern (removeConst line)).isSome with
        | false =>
            rw [hclose] at hline
            exact ⟨s, hline, h, by simp, Grows.of_db_eq rfl⟩
        | true =>
            rw [hclose] at hline
            simp only [hclose, if_true] at hpos ⊢
            refine ⟨{ s with level := s.level - 1 }, ?_, h.withLevel _, by dsimp only; omega,
              Grows.of_db_eq rfl⟩
            rw [hline, if_pos rfl, State.closeStruct, if_pos (by omega : s.level ≥ 1)]
            exact if_neg (by dsimp only; omega)

/-- A line that lowers the level is read as `};`. -/
theorem readLine_of_readWeight {line : Text} (hlevel : 0 < s.level) (h : readWeight line = -1) :
    s.readLine line = s.closeStruct := by
  unfold readWeight at h
  split_ifs at h with hname hport hclose
  have hopen : search openPattern (removeConst line) = none :=
    Option.map_eq_none_iff.mp (Option.not_isSome_iff_eq_none.mp hname)
  rw [Bool.or_eq_true, not_or] at hport
  rcases readLine_inside hlevel hopen with ⟨m, hm, -⟩ | ⟨-, ⟨hfinds, -⟩ | ⟨-, hline⟩⟩
  · exact absurd (by simp [readPort, hm]) hport.1
  · exact absurd hfinds hport.2
  · rw [hline, if_pos hclose]

end Step

end UioLinuxSample.StructGraph
