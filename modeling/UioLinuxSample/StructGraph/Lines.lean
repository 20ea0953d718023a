import UioLinuxSample.StructGraph.Model

set_option autoImplicit false

/-! # The lines of a structure

What a turn of the loop does with the lines of a flat structure: the line `struct A {` that opens it,
the lines of its members and the line `};` that closes it. A name is a text of word characters, and
white space may stand wherever C allows it.

A member `struct B *name;` is read as one of type `B` (`readType_of_isMember`) unless the removal of
`const` changes it. The expression for it also finds text of other kinds, since it does not ask for
white space between `struct` and the type or between the type and the name; `Mentions` says what it
can find.
-/

namespace UioLinuxSample.StructGraph

open Pattern

/-! ## Characters -/

theorem isSpace_of_isWord {c : Char} (h : isWord c = true) : isSpace c = false := by
  simp only [isWord, isAlnum, Bool.or_eq_true, Bool.and_eq_true, decide_eq_true_eq, Char.le_def,
    UInt32.le_iff_toNat_le] at h
  have hcases : (97 ≤ c.toNat ∧ c.toNat ≤ 122 ∨ 65 ≤ c.toNat ∧ c.toNat ≤ 90
      ∨ 48 ≤ c.toNat ∧ c.toNat ≤ 57) ∨ c = '_' ∨ c = '-' := by
    rcases h with (((h | h) | h) | h) | h
    · exact .inl (.inl h)
    · exact .inl (.inr (.inl h))
    · exact .inl (.inr (.inr h))
    · exact .inr (.inl h)
    · exact .inr (.inr h)
  rcases hcases with h | rfl | rfl
  · simp only [isSpace, List.mem_cons, List.not_mem_nil, or_false, Bool.or_eq_false_iff,
      Bool.and_eq_false_iff, decide_eq_false_iff_not]
    omega
  · decide
  · decide

theorem isWord_of_isSpace {c : Char} (h : isSpace c = true) : isWord c = false := by
  cases hword : isWord c with
  | false => rfl
  | true =>
      rw [isSpace_of_isWord hword] at h
      cases h

def IsBlank (t : Text) : Prop := ∀ c ∈ t, isSpace c = true

structure IsName (t : Text) : Prop where
  ne_nil : t ≠ []
  word : ∀ c ∈ t, isWord c = true

def IsStars (t : Text) : Prop := ∀ c ∈ t, c = '*'

-- by going through the text; there also is an instance that goes through all characters
instance (t : Text) : Decidable (IsBlank t) := List.decidableBAll (fun c => isSpace c = true) t

instance (t : Text) : Decidable (IsStars t) := List.decidableBAll (fun c => c = '*') t

instance (t : Text) : Decidable (IsName t) :=
  have : Decidable (∀ c ∈ t, isWord c = true) := List.decidableBAll (fun c => isWord c = true) t
  decidable_of_iff (t ≠ [] ∧ ∀ c ∈ t, isWord c = true) ⟨fun h => ⟨h.1, h.2⟩, fun h => ⟨h.1, h.2⟩⟩

/-- A character that is not in a blank text. -/
theorem IsBlank.not_mem {t : Text} {c : Char} (h : IsBlank t) (hc : isSpace c = false) : c ∉ t := by
  intro hmem
  rw [h c hmem] at hc
  cases hc

theorem IsBlank.append {t u : Text} (ht : IsBlank t) (hu : IsBlank u) : IsBlank (t ++ u) := by
  intro c hc
  rcases List.mem_append.mp hc with hc | hc
  · exact ht c hc
  · exact hu c hc

theorem IsName.colon_not_mem {t : Text} (h : IsName t) : ':' ∉ t :=
  fun hmem => absurd (h.word _ hmem) (by decide)

/-- The first character of a text is one of its first part, unless that is empty. -/
theorem head_append {p : Char → Prop} {t s : Text} (ht : ∀ c ∈ t, p c)
    (hs : t = [] → ∀ c ∈ s.head?, p c) : ∀ c ∈ (t ++ s).head?, p c := by
  cases t with
  | nil => exact hs rfl
  | cons a t =>
      rintro c ⟨⟩
      exact ht a List.mem_cons_self

/-! ## The removal of `const` -/

/-- Nowhere in the line does `const ` come after a character that is no letter or digit. -/
def ConstFree (line : Text) : Prop :=
  ∀ pre c post, line = pre ++ c :: (constWord ++ post) → isAlnum c = true

theorem removeConst_of_constFree {line : Text} (h : ConstFree line) : removeConst line = line := by
  apply substitute_eq_self
  intro pre post hsplit _
  rw [Option.eq_none_iff_forall_ne_some]
  -- a match would be a character that is no letter or digit, and then `const `
  intro pieces hmatch
  obtain ⟨hfits, tail, rfl⟩ := matchAt_sound hmatch
  obtain ⟨c, more, rfl, hc, hfits⟩ := fits_one.mp hfits
  rw [← List.append_nil (literal constWord), fits_literal] at hfits
  obtain ⟨more, rfl, hmore⟩ := hfits
  rw [fits_nil.mp hmore] at hsplit
  have hc' : isAlnum c = true := h pre c tail (by rw [hsplit]; rfl)
  rw [hc'] at hc
  cases hc

/-- A line without one of the letters of `const`. -/
theorem constFree_of_not_mem {line : Text} {c : Char} (hc : c ∈ constWord) (h : c ∉ line) :
    ConstFree line := by
  rintro pre d post rfl
  exact absurd (by simp [hc]) h

/-- Only blanks are added. -/
theorem not_mem_removeConst {line : Text} {c : Char} (hc : c ≠ ' ') (h : c ∉ line) :
    c ∉ removeConst line := by
  intro hmem
  rcases mem_substitute hmem with hmem | hmem
  · exact hc (List.mem_singleton.mp hmem)
  · exact h hmem

/-- A pattern with a character that the line does not have. -/
theorem search_of_not_mem {p : List (Item Char)} {line : Text} {c : Char} (hp : char c ∈ p)
    (hc : c ∉ line) : search p line = none := by
  apply search_eq_none hp rfl
  intro d hd
  apply decide_eq_false
  rintro rfl
  exact hc hd

/-! ## Opening lines -/

/-- `struct A {`. -/
def IsOpening (line name : Text) : Prop :=
  ∃ lead gap gap' tail, IsBlank lead ∧ IsBlank gap ∧ gap ≠ [] ∧ IsBlank gap' ∧ IsBlank tail
    ∧ line = lead ++ (structWord ++ (gap ++ (name ++ (gap' ++ '{' :: tail))))

/-- White space before `struct` is passed over. -/
theorem search_struct {p : List (Item Char)} {lead s : Text} (hlead : IsBlank lead) :
    search (literal structWord ++ p) (lead ++ s) = search (literal structWord ++ p) s := by
  apply search_skip
  intro c hc
  apply decide_eq_false
  rintro rfl
  exact hlead.not_mem (by decide) hc

theorem matchAt_name {p : List (Item Char)} {name s : Text} {g : Nat} {pieces : List Text}
    (hname : IsName name) (hs : ∀ c ∈ s.head?, isWord c = false) (hp : matchAt p s = some pieces) :
    ∃ x xs, name = x :: xs
      ∧ matchAt (plus isWord g ++ p) (name ++ s) = some ([x] :: xs :: pieces) := by
  cases name with
  | nil => exact absurd rfl hname.ne_nil
  | cons x xs =>
      obtain ⟨hx, hxs⟩ := List.forall_mem_cons.mp hname.word
      exact ⟨x, xs, rfl, matchAt_plus hx hxs hs hp⟩

theorem matchAt_stars {p : List (Item Char)} {stars s : Text} {g : Nat} {pieces : List Text}
    (hstars : IsStars stars) (hs : ∀ c ∈ s.head?, c ≠ '*') (hp : matchAt p s = some pieces) :
    matchAt (Pattern.star (fun c => c = '*') g :: p) (stars ++ s) = some (stars :: pieces) :=
  matchAt_star (fun c hc => decide_eq_true (hstars c hc)) (fun c hc => decide_eq_false (hs c hc)) hp

theorem matchAt_blank {p : List (Item Char)} {gap s : Text} {g : Nat} {pieces : List Text}
    (hgap : IsBlank gap) (hs : ∀ c ∈ s.head?, isSpace c = false) (hp : matchAt p s = some pieces) :
    matchAt (Pattern.star isSpace g :: p) (gap ++ s) = some (gap :: pieces) :=
  matchAt_star hgap hs hp

theorem IsBlank.ne_star {t : Text} (h : IsBlank t) : ∀ c ∈ t, c ≠ '*' := by
  rintro c hc rfl
  exact h.not_mem (by decide) hc

theorem IsName.ne_star {t : Text} (h : IsName t) : ∀ c ∈ t, c ≠ '*' := by
  rintro c hc rfl
  exact absurd (h.word _ hc) (by decide)

theorem IsStars.head_not {p : Char → Bool} {t s : Text} (h : IsStars t) (hp : p '*' = false)
    (hs : t = [] → ∀ c ∈ s.head?, p c = false) : ∀ c ∈ (t ++ s).head?, p c = false :=
  head_append (fun c hc => by rw [h c hc, hp]) hs

theorem IsName.head_not_space {name s : Text} (h : IsName name) :
    ∀ c ∈ (name ++ s).head?, isSpace c = false :=
  head_append (fun c hc => isSpace_of_isWord (h.word c hc)) fun hnil => absurd hnil h.ne_nil

theorem IsBlank.head_not_word {gap s : Text} (h : IsBlank gap)
    (hs : gap = [] → ∀ c ∈ s.head?, isWord c = false) : ∀ c ∈ (gap ++ s).head?, isWord c = false :=
  head_append (fun c hc => isWord_of_isSpace (h c hc)) hs

theorem matchAt_char {p : List (Item Char)} {s : Text} {pieces : List Text} (c : Char)
    (hp : matchAt p s = some pieces) : matchAt (char c :: p) (c :: s) = some ([c] :: pieces) :=
  matchAt_one (by simp) hp

/-- The fixed character at the end of a pattern. -/
theorem matchAt_last (c : Char) (s : Text) : matchAt [char c] (c :: s) = some [[c]] :=
  matchAt_char c rfl

theorem head_char {p : Char → Bool} {c : Char} {s : Text} (hc : p c = false) :
    ∀ d ∈ (c :: s).head?, p d = false := by
  rintro d ⟨⟩
  exact hc

theorem search_of_isOpening {line name : Text} (hname : IsName name) (h : IsOpening line name) :
    ∃ m, search openPattern line = some m ∧ groupText openPattern m 1 = name := by
  obtain ⟨lead, gap, gap', tail, hlead, hgap, -, hgap', -, rfl⟩ := h
  have hend := matchAt_blank (g := 0) hgap' (head_char (by decide)) (matchAt_last '{' tail)
  obtain ⟨x, xs, hxs, hmatch⟩ := matchAt_name (g := 1) hname
    (hgap'.head_not_word fun _ => head_char (by decide)) hend
  have hfull := matchAt_literal structWord (matchAt_blank (g := 0) hgap hname.head_not_space hmatch)
  refine ⟨_, (search_struct hlead).trans (search_of_matchAt hfull), ?_⟩
  rw [openPattern, groupText_literal _ (by decide), groupText_cons, groupText_plus, hxs]
  simp [spaces, char]

theorem readLine_opening (s : State) {line name : Text} (hname : IsName name)
    (h : IsOpening line name) (hconst : ConstFree line) :
    s.readLine line = s.openStruct name := by
  obtain ⟨m, hm, hgroup⟩ := search_of_isOpening hname h
  unfold State.readLine
  rw [removeConst_of_constFree hconst]
  simp only [hm, hgroup]

/-! ## Members that are structures -/

/-- The text `struct B *name;`, for what the expression finds; white space may be missing. -/
structure MemberText where
  gap₁ : Text
  type : Text
  gap₂ : Text
  stars : Text
  gap₃ : Text
  name : Text
  gap₄ : Text
  blank₁ : IsBlank gap₁
  isName_type : IsName type
  blank₂ : IsBlank gap₂
  isStars : IsStars stars
  blank₃ : IsBlank gap₃
  isName_name : IsName name
  blank₄ : IsBlank gap₄

namespace MemberText

def text (m : MemberText) : Text :=
  structWord ++ (m.gap₁ ++ (m.type ++ (m.gap₂ ++ (m.stars ++ (m.gap₃ ++ (m.name
    ++ (m.gap₄ ++ [';'])))))))

/-- The words are told apart by white space or stars. -/
structure Separated (m : MemberText) : Prop where
  struct : m.gap₁ ≠ []
  name : m.gap₂ ++ m.stars ++ m.gap₃ ≠ []

/-- White space after the type counts as one gap if there are no stars. -/
def normal (m : MemberText) : MemberText :=
  if m.stars = [] then
    { m with gap₂ := m.gap₂ ++ m.gap₃, gap₃ := [], blank₂ := m.blank₂.append m.blank₃,
             blank₃ := fun _ h => nomatch h }
  else m

variable (m : MemberText)

theorem normal_text : m.normal.text = m.text := by
  unfold normal
  split
  · rename_i hstars
    simp [text, hstars]
  · rfl

theorem normal_type : m.normal.type = m.type := by
  unfold normal
  split <;> rfl

theorem normal_gap₃ (h : m.normal.stars = []) : m.normal.gap₃ = [] := by
  unfold normal at h ⊢
  split
  · rfl
  · rename_i hstars
    rw [if_neg hstars] at h
    exact absurd h hstars

theorem normal_separated (h : m.Separated) : m.normal.Separated := by
  unfold normal
  split
  · rename_i hstars
    have hname := h.name
    rw [hstars, List.append_nil] at hname
    exact ⟨h.struct, by simpa [hstars] using hname⟩
  · exact h

variable {m}

/-- The expression takes the parts of the text, each as a whole. -/
theorem matchAt_text (h : m.Separated) (hgap : m.stars = [] → m.gap₃ = []) (tail : Text) :
    ∃ pieces, matchAt memberPattern (m.text ++ tail) = some pieces
      ∧ groupText memberPattern pieces 1 = m.type ∧ groupText memberPattern pieces 2 = m.stars
      ∧ groupText memberPattern pieces 3 = m.gap₃ ∧ groupText memberPattern pieces 4 = m.name := by
  -- from the end of the text to its start, each part up to where the next one begins
  have hend := matchAt_blank (g := 0) m.blank₄ (head_char (by decide)) (matchAt_last ';' tail)
  obtain ⟨y, ys, hys, hname⟩ := matchAt_name (g := 4) m.isName_name
    (m.blank₄.head_not_word fun _ => head_char (by decide)) hend
  have hgap₃ := matchAt_blank (g := 3) m.blank₃ m.isName_name.head_not_space hname
  have hstars := matchAt_stars (g := 2) m.isStars
    (head_append m.blank₃.ne_star fun _ =>
      head_append m.isName_name.ne_star fun hnil => absurd hnil m.isName_name.ne_nil) hgap₃
  -- after the type there is a blank or a star
  have hgap₂ := matchAt_blank (g := 0) m.blank₂
    (m.isStars.head_not (by decide) fun hnil => by
      rw [hgap hnil]
      exact m.isName_name.head_not_space) hstars
  obtain ⟨x, xs, hxs, htype⟩ := matchAt_name (g := 1) m.isName_type
    (m.blank₂.head_not_word fun hnil₂ => m.isStars.head_not (by decide) fun hnil =>
      absurd (by rw [hnil₂, hnil, hgap hnil]; rfl) h.name) hgap₂
  have hfull := matchAt_literal structWord
    (matchAt_blank (g := 0) m.blank₁ m.isName_type.head_not_space htype)
  refine ⟨_, Eq.trans (congrArg _ ?_) hfull, ?_, ?_, ?_, ?_⟩
  · simp only [text, List.append_assoc, List.singleton_append]
  all_goals
    rw [memberPattern, groupText_literal _ (by decide), groupText_cons, groupText_plus]
    simp [spaces, char, groupText_plus, hxs, hys]

/-- What the expression finds is such a text. -/
theorem exists_of_fits {pieces : List Text} (h : Fits memberPattern pieces) :
    ∃ m : MemberText, pieces.flatten = m.text ∧ groupText memberPattern pieces 1 = m.type := by
  -- the parts in the order of the expression
  obtain ⟨_, rfl, h₁⟩ := (fits_literal structWord).mp h
  obtain ⟨gap₁, _, rfl, hgap₁, h₂⟩ := fits_star.mp h₁
  obtain ⟨x, _, rfl, hx, h₃⟩ := fits_one.mp h₂
  obtain ⟨xs, _, rfl, hxs, h₄⟩ := fits_star.mp h₃
  obtain ⟨gap₂, _, rfl, hgap₂, h₅⟩ := fits_star.mp h₄
  obtain ⟨stars, _, rfl, hstars, h₆⟩ := fits_star.mp h₅
  obtain ⟨gap₃, _, rfl, hgap₃, h₇⟩ := fits_star.mp h₆
  obtain ⟨y, _, rfl, hy, h₈⟩ := fits_one.mp h₇
  obtain ⟨ys, _, rfl, hys, h₉⟩ := fits_star.mp h₈
  obtain ⟨gap₄, _, rfl, hgap₄, h₁₀⟩ := fits_star.mp h₉
  obtain ⟨c, _, rfl, hc, h₁₁⟩ := fits_one.mp h₁₀
  obtain rfl := fits_nil.mp h₁₁
  refine ⟨⟨gap₁, x :: xs, gap₂, stars, gap₃, y :: ys, gap₄, hgap₁,
    ⟨List.cons_ne_nil _ _, List.forall_mem_cons.mpr ⟨hx, hxs⟩⟩, hgap₂,
    fun c hc => of_decide_eq_true (hstars c hc), hgap₃,
    ⟨List.cons_ne_nil _ _, List.forall_mem_cons.mpr ⟨hy, hys⟩⟩, hgap₄⟩, ?_, ?_⟩
  · rw [of_decide_eq_true hc]
    simp [text, ← List.flatMap_def]
  · rw [memberPattern, groupText_literal _ (by decide), groupText_cons, groupText_plus]
    simp [spaces, char, groupText_plus]

end MemberText

/-- A line of the form `struct B *name;`. -/
def IsMember (line type : Text) : Prop :=
  ∃ m : MemberText, m.Separated ∧ m.type = type
    ∧ ∃ lead tail, IsBlank lead ∧ IsBlank tail ∧ line = lead ++ (m.text ++ tail)

/-- The text `struct B *name;` is somewhere in the line, perhaps without white space. -/
def Mentions (line type : Text) : Prop :=
  ∃ m : MemberText, m.type = type ∧ ∃ pre post, line = pre ++ (m.text ++ post)

theorem IsMember.mentions {line type : Text} (h : IsMember line type) : Mentions line type := by
  obtain ⟨m, -, htype, lead, tail, -, -, hline⟩ := h
  exact ⟨m, htype, lead, tail, hline⟩

/-- A line without one of the letters of `struct`. -/
theorem not_mentions {line : Text} {c : Char} (hc : c ∈ structWord) (h : c ∉ line) (type : Text) :
    ¬ Mentions line type := by
  rintro ⟨m, -, pre, post, rfl⟩
  exact h (by simp [MemberText.text, hc])

/-- The type of the member that the script finds in a line. -/
def readType (line : Text) : Option Text :=
  (search memberPattern (removeConst line)).map fun m => groupText memberPattern m 1

/-- The parts of a member that the script finds. -/
theorem MemberText.search_line {m : MemberText} {lead : Text} (hsep : m.Separated)
    (hlead : IsBlank lead) (tail : Text) :
    ∃ pieces, search memberPattern (lead ++ (m.text ++ tail)) = some pieces
      ∧ groupText memberPattern pieces 1 = m.type
      ∧ groupText memberPattern pieces 2 = m.normal.stars
      ∧ groupText memberPattern pieces 3 = m.normal.gap₃
      ∧ groupText memberPattern pieces 4 = m.normal.name := by
  obtain ⟨pieces, hmatch, htype, hgroups⟩ :=
    m.normal.matchAt_text (m.normal_separated hsep) m.normal_gap₃ tail
  rw [m.normal_text] at hmatch
  rw [m.normal_type] at htype
  exact ⟨pieces, (search_struct hlead).trans (search_of_matchAt hmatch), htype, hgroups⟩

/-- **A member is read with its type.** -/
theorem readType_of_isMember {line type : Text} (h : IsMember line type) (hconst : ConstFree line) :
    readType line = some type := by
  obtain ⟨m, hsep, rfl, lead, tail, hlead, -, rfl⟩ := h
  obtain ⟨pieces, hsearch, htype, -⟩ := m.search_line hsep hlead tail
  rw [readType, removeConst_of_constFree hconst, hsearch, Option.map_some, htype]

/-- A type that is read is mentioned. -/
theorem mentions_of_readType {line type : Text} (h : readType line = some type) :
    Mentions (removeConst line) type := by
  obtain ⟨pieces, hsearch, rfl⟩ := Option.map_eq_some_iff.mp h
  obtain ⟨hfits, pre, post, hline⟩ := search_sound hsearch
  obtain ⟨m, htext, htype⟩ := MemberText.exists_of_fits hfits
  exact ⟨m, htype.symm, pre, post, by rw [hline, htext, List.append_assoc]⟩

/-! ## The lines of a body -/

/-- A group of a match has only characters that its items accept. -/
theorem not_mem_group {p : List (Item Char)} {line : Text} {m : List Text} {g : Nat} {c : Char}
    (h : search p line = some m) (hp : ∀ i ∈ p, i.group = g → i.accepts c = false) :
    c ∉ groupText p m g :=
  not_mem_groupText (search_sound h).1 hp

/-- One of the expressions for other ports is found. -/
def findsPort (line : Text) : Bool :=
  (search wordPattern (removeConst line)).isSome || (search wordsPattern (removeConst line)).isSome
    || (search functionPattern (removeConst line)).isSome

/-- What a line does inside of a structure if it is no opening line: it is a member that is a
structure, or another port is added to the node, or it may close something. No text that is added has
a closing brace, not even for a line that has one. -/
theorem readLine_inside {s : State} {line : Text} (hlevel : 0 < s.level)
    (hopen : search openPattern (removeConst line) = none) :
    (∃ m, search memberPattern (removeConst line) = some m
        ∧ s.readLine line = s.structMember (groupText memberPattern m 1)
          (groupText memberPattern m 2) (groupText memberPattern m 3) (groupText memberPattern m 4))
      ∨ search memberPattern (removeConst line) = none
        ∧ (findsPort line = true ∧ (∃ text, '}' ∉ text ∧ s.readLine line = s.appendNodeStr text)
          ∨ findsPort line = false ∧ s.readLine line =
              if (search closePattern (removeConst line)).isSome then s.closeStruct else .ok s) := by
  unfold State.readLine State.searchInside findsPort
  simp only [hopen, if_pos hlevel]
  cases search memberPattern (removeConst line) with
  | some m => exact .inl ⟨m, rfl, rfl⟩
  | none =>
      refine .inr ⟨rfl, ?_⟩
      cases hword : search wordPattern (removeConst line) with
      | some m =>
          have hname := not_mem_group (g := 1) (c := '}') hword (by decide)
          refine .inl ⟨rfl, _, ?_, rfl⟩
          simp only [List.mem_append, not_or]
          exact ⟨⟨⟨⟨⟨by decide, by decide⟩, hname⟩, by decide⟩, hname⟩, by decide⟩
      | none =>
          cases hwords : search wordsPattern (removeConst line) with
          | some m =>
              have hstars := not_mem_group (g := 2) (c := '}') hwords (by decide)
              have hgap := not_mem_group (g := 3) (c := '}') hwords (by decide)
              have hname := not_mem_group (g := 4) (c := '}') hwords (by decide)
              refine .inl ⟨rfl, _, ?_, rfl⟩
              simp only [List.mem_append, not_or]
              exact ⟨⟨⟨⟨⟨⟨⟨by decide, by decide⟩, hstars⟩, by decide⟩, hstars⟩, hgap⟩, hname⟩,
                by decide⟩
          | none =>
              cases hfunction : search functionPattern (removeConst line) with
              | some m =>
                  have hname := not_mem_group (g := 1) (c := '}') hfunction (by decide)
                  refine .inl ⟨rfl, _, ?_, rfl⟩
                  simp only [List.mem_append, not_or]
                  exact ⟨⟨⟨⟨⟨by decide, by decide⟩, hname⟩, by decide⟩, hname⟩, by decide⟩
              | none =>
                  refine .inr ⟨rfl, ?_⟩
                  cases search closePattern (removeConst line) <;> rfl

/-- An opening line needs an opening brace. -/
theorem search_openPattern {line : Text} (h : '{' ∉ line) :
    search openPattern (removeConst line) = none :=
  search_of_not_mem (c := '{') (by simp [openPattern, char]) (not_mem_removeConst (by decide) h)

/-- A closing line needs a closing brace. -/
theorem search_closePattern {line : Text} (h : '}' ∉ line) :
    search closePattern (removeConst line) = none :=
  search_of_not_mem (c := '}') (by simp [closePattern, char]) (not_mem_removeConst (by decide) h)

/-- A line without braces. -/
theorem readLine_body {s : State} {line : Text} (hlevel : 0 < s.level) (hopen : '{' ∉ line)
    (hclose : '}' ∉ line) :
    (∃ type stars gap name, readType line = some type
        ∧ s.readLine line = s.structMember type stars gap name)
      ∨ readType line = none
        ∧ (s.readLine line = .ok s ∨ ∃ text, s.readLine line = s.appendNodeStr text) := by
  unfold readType
  rcases readLine_inside hlevel (search_openPattern hopen) with
    ⟨m, hsearch, hline⟩ | ⟨hsearch, ⟨-, text, -, hline⟩ | ⟨-, hline⟩⟩
  · exact .inl ⟨_, _, _, _, by rw [hsearch]; rfl, hline⟩
  · exact .inr ⟨by rw [hsearch]; rfl, .inr ⟨text, hline⟩⟩
  · rw [search_closePattern hclose] at hline
    exact .inr ⟨by rw [hsearch]; rfl, .inl hline⟩

/-! ## Closing lines -/

/-- `};`. -/
def IsClosing (line : Text) : Prop :=
  ∃ lead gap tail, IsBlank lead ∧ IsBlank gap ∧ IsBlank tail
    ∧ line = lead ++ '}' :: (gap ++ ';' :: tail)

theorem IsClosing.mem {line : Text} (h : IsClosing line) {c : Char} (hc : c ∈ line) :
    isSpace c = true ∨ c = '}' ∨ c = ';' := by
  obtain ⟨lead, gap, tail, hlead, hgap, htail, rfl⟩ := h
  simp only [List.mem_append, List.mem_cons] at hc
  rcases hc with hc | rfl | hc | rfl | hc
  · exact .inl (hlead c hc)
  · exact .inr (.inl rfl)
  · exact .inl (hgap c hc)
  · exact .inr (.inr rfl)
  · exact .inl (htail c hc)

theorem IsClosing.not_word {line : Text} (h : IsClosing line) : ∀ c ∈ line, isWord c = false := by
  intro c hc
  rcases h.mem hc with hc | rfl | rfl
  · exact isWord_of_isSpace hc
  · decide
  · decide

theorem IsClosing.constFree {line : Text} (h : IsClosing line) : ConstFree line := by
  apply constFree_of_not_mem (c := 'c') (by decide)
  intro hmem
  exact absurd (h.not_word _ hmem) (by decide)

theorem search_of_isClosing {line : Text} (h : IsClosing line) :
    ∃ m, search closePattern line = some m := by
  obtain ⟨lead, gap, tail, hlead, hgap, -, rfl⟩ := h
  have hend := matchAt_blank (g := 0) hgap (head_char (by decide)) (matchAt_last ';' tail)
  have hfull := matchAt_blank (g := 0) hlead (head_char (by decide)) (matchAt_char '}' hend)
  exact ⟨_, search_of_matchAt hfull⟩

/-- All the expressions before the last one need a word. -/
theorem IsClosing.search_eq_none {line : Text} (h : IsClosing line) {p : List (Item Char)} {g : Nat}
    (hp : one isWord g ∈ p) : search p line = none :=
  Pattern.search_eq_none hp rfl h.not_word

theorem IsClosing.searches {line : Text} (h : IsClosing line) :
    search openPattern line = none ∧ search memberPattern line = none ∧ search wordPattern line = none
      ∧ search wordsPattern line = none ∧ search functionPattern line = none :=
  ⟨h.search_eq_none (g := 1) (by simp [openPattern, plus]),
    h.search_eq_none (g := 1) (by simp [memberPattern, plus]),
    h.search_eq_none (g := 0) (by simp [wordPattern, plus]),
    h.search_eq_none (g := 4) (by simp [wordsPattern, plus]),
    h.search_eq_none (g := 0) (by simp [functionPattern, plus])⟩

theorem readLine_closing (s : State) {line : Text} (h : IsClosing line) :
    s.readLine line = s.closeStruct := by
  obtain ⟨m, hm⟩ := search_of_isClosing h
  obtain ⟨hopen, hmember, hword, hwords, hfunction⟩ := h.searches
  unfold State.readLine State.searchInside
  simp only [removeConst_of_constFree h.constFree, hopen, hmember, hword, hwords, hfunction, hm,
    ite_self]

end UioLinuxSample.StructGraph
