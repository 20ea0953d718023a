import UioLinuxSample.Lib.Nesting
import UioLinuxSample.StructGraph.Blocks

set_option autoImplicit false

/-! # Definitions with nested blocks

A structure may have blocks in its body, to any depth. The script counts only the lines in which it
finds `struct X {` or `};`, so it takes the structure for closed where the first count of them comes out
even. The members of the structure all get to its node exactly if that is at its own closing brace, and
the opening line and the members are read as what they are (`nested_kept_iff`). So it is, if `const` is
not in the way, when every named block is closed by `};` and every anonymous one by `} name;`. A `union {`
that is closed by `};` ends the node too early, and the members after it are lost (`nested_lost`).
-/

namespace UioLinuxSample.StructGraph

open Nesting Pattern

/-! ## Definitions -/

namespace Line

def IsPlain (l : Line) : Prop := l.kind = .plain

def IsNamed (l : Line) : Prop := ∃ name, l.kind = .named name

def Opens (l : Line) : Prop := l.kind = .anonymous ∨ l.IsNamed

def Closes (l : Line) : Prop := l.kind = .closing ∨ l.kind = .closingName

/-- The two ends of a block that the script counts both, or neither. -/
def Fit (o c : Line) : Prop :=
  (o.IsNamed ∧ c.kind = .closing) ∨ (o.kind = .anonymous ∧ c.kind = .closingName)

theorem weight_of_isPlain {l : Line} (h : l.IsPlain) : l.weight = 0 := by
  rw [weight, h]

theorem IsPlain.braces {l : Line} (h : l.IsPlain) : '{' ∉ l.text ∧ '}' ∉ l.text := by
  have hshape := l.shape
  rw [h] at hshape
  exact hshape.2

theorem readWeight_of_isPlain {l : Line} (h : l.IsPlain) : l.readWeight = 0 :=
  readWeight_eq_zero (search_openPattern h.braces.1) (search_closePattern h.braces.2)

theorem weight_of_isNamed {l : Line} (h : l.IsNamed) : l.weight = 1 := by
  obtain ⟨name, hkind⟩ := h
  rw [weight, hkind]

theorem weight_of_fit {o c : Line} (h : Fit o c) : 0 ≤ o.weight ∧ o.weight + c.weight = 0 := by
  rcases h with ⟨ho, hc⟩ | ⟨ho, hc⟩
  · rw [weight_of_isNamed ho, weight, hc]
    decide
  · rw [weight, weight, ho, hc]
    decide

end Line

/-- The definition of a structure with blocks in its body. -/
structure NestedDefinition where
  name : Text
  opening : Line
  body : List Line
  closing : Line
  named : opening.kind = .named name
  nested : Nested Line.IsPlain (fun o c => o.Opens ∧ c.Closes) body
  closes : closing.Closes

def NestedDefinition.lines (d : NestedDefinition) : List Line := d.opening :: (d.body ++ [d.closing])

/-! ## Runs -/

def runLines (ls : List Line) (s : State) : Except PyError State :=
  State.readLines (ls.map Line.text) s

section Run

variable {s s' : State} {name : Text} {l : Line} {ls ms : List Line}

theorem runLines_cons (h : s.readLine l.text = .ok s') (ls : List Line) :
    runLines (l :: ls) s = runLines ls s' :=
  readLines_cons l.text_ne_nil h _

theorem runLines_append (h : runLines ls s = .ok s') (ms : List Line) :
    runLines (ls ++ ms) s = runLines ms s' := by
  induction ls generalizing s with
  | nil =>
      cases h
      rfl
  | cons l ls ih =>
      cases hline : s.readLine l.text with
      | error e =>
          rw [runLines, List.map_cons, State.readLines, if_neg l.text_ne_nil, hline] at h
          cases h
      | ok s₁ =>
          rw [runLines_cons hline] at h
          rw [List.cons_append, runLines_cons hline, ih h]

/-- The lines up to a point and the line after it. -/
theorem runLines_concat {s'' : State} (h : runLines ls s = .ok s') (hline : s'.readLine l.text = .ok s'') :
    runLines (ls ++ [l]) s = .ok s'' := by
  rw [runLines_append h, runLines_cons hline]
  rfl

/-- **A run inside of a structure.** As long as the level stays positive, the label stays open and
the node grows. -/
theorem run_inside (h : LabelOpen name s)
    (hpos : ∀ p q, ls = p ++ q → 0 < (s.level : Int) + depth Line.readWeight p) :
    ∃ s', runLines ls s = .ok s' ∧ LabelOpen name s'
      ∧ (s'.level : Int) = s.level + depth Line.readWeight ls ∧ Grows name s s' := by
  induction ls generalizing s with
  | nil => exact ⟨s, rfl, h, by simp, Grows.of_db_eq rfl⟩
  | cons l ls ih =>
      have hlevel := hpos [] (l :: ls) rfl
      have hnext := hpos [l] ls rfl
      rw [depth_nil, Int.add_zero] at hlevel
      rw [depth_cons, depth_nil, Int.add_zero] at hnext
      obtain ⟨s₁, hs₁, hopen₁, hlevel₁, hgrows₁⟩ := step_inside h (by omega) hnext
      change (s₁.level : Int) = s.level + l.readWeight at hlevel₁
      have hpos₁ : ∀ p q, ls = p ++ q → 0 < (s₁.level : Int) + depth Line.readWeight p := by
        intro p q hsplit
        have hp := hpos (l :: p) q (by rw [hsplit, List.cons_append])
        rw [depth_cons] at hp
        omega
      obtain ⟨s', hs', hopen', hlevel', hgrows'⟩ := ih hopen₁ hpos₁
      refine ⟨s', (runLines_cons hs₁ ls).trans hs', hopen', ?_, hgrows₁.trans hgrows'⟩
      rw [depth_cons]
      omega

end Run

namespace NestedDefinition

variable {d : NestedDefinition} {s : State} {xs : List Text}

theorem readWeight_opening (hname : readName d.opening.text = some d.name) : d.opening.readWeight = 1 := by
  simp [Line.readWeight, readWeight, hname]

/-- The run up to a line of the body, if the level stays positive. -/
theorem run_part (hlevel : s.level = 0) (hcreated : s.db createdKey = some (.names xs))
    (hname : readName d.opening.text = some d.name) (part : List Line)
    (hpos : ∀ p q, part = p ++ q → 0 < depth Line.readWeight (d.opening :: p)) :
    ∃ s', runLines (d.opening :: part) s = .ok s' ∧ LabelOpen d.name s'
      ∧ (s'.level : Int) = depth Line.readWeight (d.opening :: part) := by
  have hshape := d.opening.shape
  simp only [d.named] at hshape
  have hweight := readWeight_opening hname
  obtain ⟨s₀, hs₀, hbegun, hlevel₀, hstr⟩ := openStruct_first hlevel hcreated d.name
  have hopen₀ : LabelOpen d.name s₀ := ⟨hbegun, hstr ▸ brace_not_mem_heading hshape.1⟩
  have hpos₀ : ∀ p q, part = p ++ q → 0 < (s₀.level : Int) + depth Line.readWeight p := by
    intro p q hsplit
    have hp := hpos p q hsplit
    rw [depth_cons, hweight] at hp
    omega
  obtain ⟨s', hs', hopen', hlevel', -⟩ := run_inside hopen₀ hpos₀
  refine ⟨s', ?_, hopen', ?_⟩
  · rw [runLines_cons ((readLine_of_readName s hname).trans hs₀), hs']
  · rw [hlevel', hlevel₀, depth_cons, hweight]
    rfl

end NestedDefinition

/-! ## What is asked for -/

/-- The node is begun with the opening line, every member of the structure gets a port in it and the
structure as a user of its type, the label is closed at the closing brace and not before, and the level
is 0 afterwards. -/
structure Kept (d : NestedDefinition) (s final : State) : Prop where
  run : runLines d.lines s = .ok final
  begun : ∃ s', s.readLine d.opening.text = .ok s' ∧ s'.level = 1 ∧ s'.nodeName = some d.name
  level : final.level = 0
  member : ∀ pre l post m, d.lines = pre ++ l :: post → l.IsMemberLine m →
    ∃ s₁ s₂, runLines pre s = .ok s₁ ∧ s₁.readLine l.text = .ok s₂
      ∧ nodeStr (s₂.db d.name) = nodeStr (s₁.db d.name)
        ++ portText m.type m.normal.stars m.normal.gap₃ m.normal.name
      ∧ includedBy (s₂.db m.type) = includedBy (s₁.db m.type) ++ [d.name]
      ∧ Grows d.name s₂ final
  label : ∀ pre post, d.lines = pre ++ post → pre ≠ [] → post ≠ [] →
    ∃ s', runLines pre s = .ok s' ∧ '}' ∉ nodeStr (s'.db d.name)
  closed : ∃ s', runLines (d.opening :: d.body) s = .ok s'
    ∧ nodeStr (final.db d.name) = nodeStr (s'.db d.name) ++ labelEnd

/-! ## When it is so -/

/-- A line that is read as `};` at the first level. -/
theorem readLine_last {s : State} {name line : Text} (h : LabelOpen name s) (hlevel : s.level = 1)
    (hline : readWeight line = -1) :
    ∃ s', s.readLine line = .ok s' ∧ s'.level = 0
      ∧ nodeStr (s'.db name) = nodeStr (s.db name) ++ labelEnd ∧ Grows name s s' := by
  obtain ⟨s', hs', hlevel', hstr, husers⟩ := closeStruct_last h.begun hlevel
  refine ⟨s', (readLine_of_readWeight (by omega) hline).trans hs', hlevel', hstr, ?_, fun t => ?_⟩
  · rw [hstr]
    exact List.prefix_append _ _
  · rw [husers]

/-- A line without braces that is read as a member. -/
theorem readLine_of_readPort {s : State} {name line type stars gap member : Text}
    (h : LabelOpen name s) (hlevel : 0 < s.level) (hbrace : '{' ∉ line)
    (hport : readPort line = some (type, stars ++ gap ++ member)) :
    ∃ s', s.readLine line = .ok s' ∧ LabelOpen name s' ∧ s'.level = s.level
      ∧ nodeStr (s'.db name) = nodeStr (s.db name) ++ portText type stars gap member
      ∧ includedBy (s'.db type) = includedBy (s.db type) ++ [name] := by
  obtain ⟨m, hm, hgroups⟩ := Option.map_eq_some_iff.mp hport
  obtain ⟨rfl, hshown⟩ := Prod.mk.inj hgroups
  rcases readLine_inside hlevel (search_openPattern hbrace) with ⟨m', hm', hline⟩ | ⟨hm', -⟩
  · cases hm.symm.trans hm'
    obtain ⟨s', hs', hopen', hlevel', -⟩ := step_member h hm
    obtain ⟨s'', hs'', -, -, hstr, husers, -⟩ := structMember_begun h.begun
      (groupText memberPattern m 1) (groupText memberPattern m 2) (groupText memberPattern m 3)
      (groupText memberPattern m 4)
    cases hs'.symm.trans hs''
    refine ⟨s', hline.trans hs', hopen', hlevel', ?_, husers⟩
    rw [hstr, portText_eq, portText_eq, hshown]
  · cases hm.symm.trans hm'

/-- And the other way round: nothing else adds a user. -/
theorem readPort_of_readLine {s s' : State} {name line type stars gap member : Text}
    (h : LabelOpen name s) (hlevel : 0 < s.level) (hbrace : '{' ∉ line) (hbrace' : '}' ∉ line)
    (hline : s.readLine line = .ok s')
    (hstr : nodeStr (s'.db name) = nodeStr (s.db name) ++ portText type stars gap member)
    (husers : includedBy (s'.db type) = includedBy (s.db type) ++ [name]) :
    readPort line = some (type, stars ++ gap ++ member) := by
  have hnew : includedBy (s'.db type) ≠ includedBy (s.db type) := by
    rw [husers]
    simp
  rcases readLine_inside hlevel (search_openPattern hbrace) with
    ⟨m, hm, hread⟩ | ⟨-, ⟨-, text, -, hread⟩ | ⟨-, hread⟩⟩
  · obtain ⟨s₁, hs₁, -, -, hstr₁, -, hother⟩ := structMember_begun h.begun
      (groupText memberPattern m 1) (groupText memberPattern m 2) (groupText memberPattern m 3)
      (groupText memberPattern m 4)
    cases hline.symm.trans (hread.trans hs₁)
    have htype : type = groupText memberPattern m 1 := by
      by_contra hne
      exact hnew (hother type hne)
    rw [hstr, portText_eq, portText_eq, htype] at hstr₁
    have hshown := List.append_cancel_left (List.append_cancel_right (List.append_cancel_left hstr₁))
    rw [readPort, hm, htype, hshown]
    rfl
  · obtain ⟨s₁, hs₁, -, -, -, husers₁⟩ := appendNodeStr_begun h.begun text
    cases hline.symm.trans (hread.trans hs₁)
    exact absurd (husers₁ type) hnew
  · rw [search_closePattern hbrace'] at hread
    cases hline.symm.trans hread
    exact absurd rfl hnew

namespace NestedDefinition

variable {d : NestedDefinition} {s : State} {xs : List Text}

theorem opening_weight (d : NestedDefinition) : d.opening.weight = 1 :=
  Line.weight_of_isNamed ⟨d.name, d.named⟩

/-- The part of the lines before another one begins with the opening line. -/
theorem exists_part {pre post : List Line} (h : d.lines = pre ++ post) (hpre : pre ≠ []) :
    ∃ part, pre = d.opening :: part ∧ d.body ++ [d.closing] = part ++ post := by
  rcases List.cons_eq_append_iff.mp h with ⟨hnil, -⟩ | ⟨part, rfl, hrest⟩
  · exact absurd hnil hpre
  · exact ⟨part, rfl, hrest⟩

/-- A plain line is neither the first nor the last one. -/
theorem exists_split {pre post : List Line} {l : Line} (h : d.lines = pre ++ l :: post)
    (hl : l.IsPlain) :
    ∃ part after, pre = d.opening :: part ∧ post = after ++ [d.closing]
      ∧ d.body = part ++ l :: after := by
  have hpre : pre ≠ [] := by
    rintro rfl
    have hkind : l.kind = .named d.name := (List.cons.inj h).1 ▸ d.named
    rw [hl] at hkind
    cases hkind
  obtain ⟨part, rfl, hrest⟩ := exists_part h hpre
  rcases List.eq_nil_or_concat' post with rfl | ⟨after, c, rfl⟩
  · obtain ⟨-, hlast⟩ := List.append_inj' hrest rfl
    have hcloses := d.closes
    rw [(List.cons.inj hlast).1] at hcloses
    unfold Line.Closes at hcloses
    rw [hl] at hcloses
    rcases hcloses with hkind | hkind <;> cases hkind
  · have hsplit : d.body ++ [d.closing] = (part ++ l :: after) ++ [c] := by
      rw [hrest]
      simp
    obtain ⟨hbody, hlast⟩ := List.append_inj' hsplit rfl
    exact ⟨part, after, rfl, by rw [(List.cons.inj hlast).1], hbody⟩

/-- The lines before and after one of the body. -/
theorem lines_of_mem {l : Line} (h : l ∈ d.body) :
    ∃ part after, d.body = part ++ l :: after
      ∧ d.lines = (d.opening :: part) ++ l :: (after ++ [d.closing]) := by
  obtain ⟨part, after, hbody⟩ := List.append_of_mem h
  exact ⟨part, after, hbody, by rw [lines, hbody]; simp⟩

/-- The script finds in the lines what they are: the name of the structure, and the type and the text of
each member; and the lines in which it finds a structure opened or closed come out even at the end and
not before. -/
structure Found (d : NestedDefinition) : Prop where
  opening : readName d.opening.text = some d.name
  member : ∀ l ∈ d.body, ∀ m, l.IsMemberLine m →
    readPort l.text = some (m.type, m.normal.stars ++ m.normal.gap₃ ++ m.normal.name)
  balanced : Balanced Line.readWeight d.lines

section

variable (hlevel : s.level = 0) (hcreated : s.db createdKey = some (.names xs))
include hlevel hcreated

theorem readName_of_kept {final : State} (h : Kept d s final) :
    readName d.opening.text = some d.name := by
  obtain ⟨s', hs', hlevel', hname'⟩ := h.begun
  cases hname : readName d.opening.text with
  | none =>
      cases hs'.symm.trans (readLine_outside hlevel hname)
      omega
  | some x =>
      obtain ⟨s₀, hs₀, hbegun, -⟩ := openStruct_first hlevel hcreated x
      cases hs'.symm.trans ((readLine_of_readName s hname).trans hs₀)
      rw [← hname', hbegun.nodeName]

/-- If the first return to 0 is before the end, the label is closed too early. -/
theorem positive_of_kept {final : State} (h : Kept d s final) {pre post : List Line}
    (hsplit : d.lines = pre ++ post) (hpre : pre ≠ []) (hpost : post ≠ []) :
    0 < depth Line.readWeight pre := by
  have hname := readName_of_kept hlevel hcreated h
  by_contra hle
  obtain ⟨before, a, after, rfl, hfirst, hpos⟩ := exists_first hpre (not_lt.mp hle)
  have hbefore : before ≠ [] := by
    rintro rfl
    have hhead : d.opening = a := (List.cons.inj hsplit).1
    rw [List.nil_append, depth_cons, depth_nil, ← hhead, readWeight_opening hname] at hfirst
    omega
  have hsplit' : d.lines = before ++ a :: (after ++ post) := by
    rw [hsplit]
    simp
  obtain ⟨part, rfl, -⟩ := exists_part hsplit' hbefore
  obtain ⟨s₁, hs₁, hopen₁, hlevel₁⟩ := run_part hlevel hcreated hname part fun p q hpq =>
    hpos (d.opening :: p) q (by rw [hpq, List.cons_append]) (List.cons_ne_nil _ _)
  have hpositive := hpos (d.opening :: part) [] (List.append_nil _).symm (List.cons_ne_nil _ _)
  have hweight : -1 ≤ a.readWeight := neg_one_le_readWeight a.text
  rw [depth_concat] at hfirst
  -- so the level is 1, and the line is read as `};`
  have hlast : a.readWeight = -1 := by omega
  obtain ⟨s₂, hs₂, -, hstr, -⟩ := readLine_last hopen₁ (by omega) hlast
  obtain ⟨s', hs', hbrace⟩ := h.label (d.opening :: part ++ [a]) (after ++ post)
    (by rw [hsplit']; simp) (by simp) (by simp [hpost])
  rw [runLines_concat hs₁ hs₂] at hs'
  cases hs'
  rw [hstr, List.mem_append, not_or] at hbrace
  exact hbrace.2 (by decide)

/-- The level inside of the body is positive. -/
theorem body_of_kept {final : State} (h : Kept d s final) {p q : List Line} (hpq : d.body = p ++ q) :
    0 < depth Line.readWeight (d.opening :: p) := by
  have hsplit : d.lines = (d.opening :: p) ++ (q ++ [d.closing]) := by simp [lines, hpq]
  exact positive_of_kept hlevel hcreated h hsplit (List.cons_ne_nil _ _) (by simp)

theorem balanced_of_kept {final : State} (h : Kept d s final) : Balanced Line.readWeight d.lines := by
  refine ⟨fun pre post hsplit hpre hpost => positive_of_kept hlevel hcreated h hsplit hpre hpost, ?_⟩
  obtain ⟨s₁, hs₁, hopen₁, hlevel₁⟩ := run_part hlevel hcreated (readName_of_kept hlevel hcreated h)
    d.body fun p q hpq => body_of_kept hlevel hcreated h hpq
  have hbody := body_of_kept hlevel hcreated h (List.append_nil d.body).symm
  have hweight : -1 ≤ d.closing.readWeight := neg_one_le_readWeight d.closing.text
  have hlines : d.lines = (d.opening :: d.body) ++ [d.closing] := rfl
  rw [hlines, depth_concat]
  by_contra hne
  -- the level would still be positive at the end
  have hpos : 0 < (s₁.level : Int) + d.closing.readWeight := by omega
  obtain ⟨s₂, hs₂, -, hlevel₂, -⟩ := step_inside hopen₁ (by omega) hpos
  change (s₂.level : Int) = s₁.level + d.closing.readWeight at hlevel₂
  have hrun := h.run
  rw [hlines, runLines_concat hs₁ hs₂] at hrun
  cases hrun
  have hfinal := h.level
  omega

theorem readPort_of_kept {final : State} (h : Kept d s final) {l : Line} (hl : l ∈ d.body)
    {m : MemberText} (hm : l.IsMemberLine m) :
    readPort l.text = some (m.type, m.normal.stars ++ m.normal.gap₃ ++ m.normal.name) := by
  obtain ⟨part, after, hbody, hlines⟩ := lines_of_mem hl
  obtain ⟨s₁, s₂, hs₁, hs₂, hstr, husers, -⟩ := h.member _ l _ m hlines hm
  obtain ⟨s', hs', hopen', hlevel'⟩ := run_part hlevel hcreated (readName_of_kept hlevel hcreated h)
    part fun p q hpq => body_of_kept hlevel hcreated h (q := q ++ l :: after) (by rw [hbody, hpq]; simp)
  cases hs₁.symm.trans hs'
  have hpos := body_of_kept hlevel hcreated h hbody
  exact readPort_of_readLine hopen' (by omega) (Line.IsPlain.braces hm.kind).1
    (Line.IsPlain.braces hm.kind).2 hs₂ hstr husers

/-- A member gets its port and its user, and the lines after it keep them. -/
theorem member_kept (h : d.Found)
    (hbody : ∀ p q, d.body = p ++ q → 0 < depth Line.readWeight (d.opening :: p))
    {s₁ : State} (hs₁ : runLines (d.opening :: d.body) s = .ok s₁) {pre post : List Line} {l : Line}
    {m : MemberText} (hsplit : d.lines = pre ++ l :: post) (hm : l.IsMemberLine m) :
    ∃ s₂ s₃, runLines pre s = .ok s₂ ∧ s₂.readLine l.text = .ok s₃
      ∧ nodeStr (s₃.db d.name) = nodeStr (s₂.db d.name)
        ++ portText m.type m.normal.stars m.normal.gap₃ m.normal.name
      ∧ includedBy (s₃.db m.type) = includedBy (s₂.db m.type) ++ [d.name]
      ∧ Grows d.name s₃ s₁ := by
  obtain ⟨part, after, rfl, rfl, hsplit'⟩ := exists_split hsplit hm.kind
  obtain ⟨s₂, hs₂, hopen₂, hlevel₂⟩ := run_part hlevel hcreated h.opening part fun p q hpq =>
    hbody p (q ++ l :: after) (by rw [hsplit', hpq, List.append_assoc])
  have hpos₂ := hbody part (l :: after) hsplit'
  obtain ⟨s₃, hs₃, hopen₃, hlevel₃, hport, huser⟩ := readLine_of_readPort hopen₂ (by omega)
    (Line.IsPlain.braces hm.kind).1 (h.member l (by rw [hsplit']; simp) m hm)
  have hafter : ∀ p q, after = p ++ q → 0 < (s₃.level : Int) + depth Line.readWeight p := by
    intro p q hpq
    have hp := hbody (part ++ l :: p) q (by rw [hsplit', hpq]; simp)
    rw [← List.cons_append, depth_append, depth_cons (a := l), Line.readWeight_of_isPlain hm.kind] at hp
    omega
  obtain ⟨s₄, hs₄, -, -, hgrows⟩ := run_inside hopen₃ hafter
  -- this is the state before the last line
  have hsame : runLines (d.opening :: d.body) s = .ok s₄ := by
    rw [hsplit', ← hs₄, ← runLines_append (runLines_concat hs₂ hs₃) after]
    simp
  rw [hs₁] at hsame
  cases hsame
  exact ⟨s₂, s₃, hs₂, hs₃, hport, huser, hgrows⟩

theorem kept_of_found (h : d.Found) : ∃ final, Kept d s final := by
  have hbody : ∀ p q, d.body = p ++ q → 0 < depth Line.readWeight (d.opening :: p) := by
    intro p q hpq
    exact h.balanced.positive (d.opening :: p) (q ++ [d.closing]) (by simp [lines, hpq])
      (List.cons_ne_nil _ _) (by simp)
  obtain ⟨s₀, hs₀, hbegun, hlevel₀, -⟩ := openStruct_first hlevel hcreated d.name
  obtain ⟨s₁, hs₁, hopen₁, hlevel₁⟩ := run_part hlevel hcreated h.opening d.body hbody
  have hpositive := hbody d.body [] (List.append_nil _).symm
  have hweight : -1 ≤ d.closing.readWeight := neg_one_le_readWeight d.closing.text
  have hzero := h.balanced.zero
  rw [lines, ← List.cons_append, depth_concat] at hzero
  -- so the last line is read as `};`, and the level before it is 1
  have hlast : d.closing.readWeight = -1 := by omega
  obtain ⟨final, hfinal, hlevel', hstr, hgrows⟩ := readLine_last hopen₁ (by omega) hlast
  refine ⟨final, runLines_concat hs₁ hfinal, ?_, hlevel', ?_, ?_, ⟨s₁, hs₁, hstr⟩⟩
  · exact ⟨s₀, (readLine_of_readName s h.opening).trans hs₀, hlevel₀, hbegun.nodeName⟩
  · intro pre l post m hsplit hm
    obtain ⟨s₂, s₃, hs₂, hs₃, hport, huser, hkept⟩ :=
      member_kept hlevel hcreated h hbody hs₁ hsplit hm
    exact ⟨s₂, s₃, hs₂, hs₃, hport, huser, hkept.trans hgrows⟩
  · intro pre post hsplit hpre hpost
    obtain ⟨part, rfl, -⟩ := exists_part hsplit hpre
    obtain ⟨s', hs', hopen', -⟩ := run_part hlevel hcreated h.opening part fun p q hpq =>
      h.balanced.positive (d.opening :: p) (q ++ post) (by simp [hsplit, hpq]) (List.cons_ne_nil _ _)
        (by simp [hpost])
    exact ⟨s', hs', hopen'.brace⟩

end

/-- Where `const` is not in the way, what is found are the lines themselves. -/
theorem found_iff_of_clean (hclean : ∀ l ∈ d.lines, l.Clean) :
    d.Found ↔ Balanced Line.weight d.lines := by
  have hweights : Balanced Line.readWeight d.lines ↔ Balanced Line.weight d.lines :=
    balanced_congr fun l hl => Line.readWeight_of_clean (hclean l hl)
  refine ⟨fun h => hweights.mp h.balanced, fun h => ⟨?_, fun l hl m hm => ?_, hweights.mpr h⟩⟩
  · have hshape := d.opening.shape
    have hopening := hclean d.opening List.mem_cons_self
    unfold Line.Clean at hopening
    simp only [d.named] at hshape hopening
    obtain ⟨m, hm, hgroup⟩ := search_of_isOpening hshape.1 hshape.2
    rw [readName, removeConst_of_constFree hopening, hm, Option.map_some, hgroup]
  · have hmember := hclean l (by simp [lines, hl])
    unfold Line.Clean at hmember
    simp only [hm.kind] at hmember
    obtain ⟨lead, tail, hlead, -, htext⟩ := hm.text
    obtain ⟨pieces, hsearch, htype, hstars, hgap, hname⟩ := m.search_line hm.separated hlead tail
    rw [readPort, removeConst_of_constFree (hmember m hm), htext, hsearch, Option.map_some, htype,
      hstars, hgap, hname]

end NestedDefinition

/-- Blocks whose two ends are counted both, or neither, are balanced. -/
theorem balanced_of_fit (d : NestedDefinition) (hbody : Nested Line.IsPlain Line.Fit d.body)
    (hclosing : d.closing.kind = .closing) : Balanced Line.weight d.lines :=
  balanced_of_nested hbody (fun _ h => Line.weight_of_isPlain h) (fun _ _ h => Line.weight_of_fit h)
    d.opening_weight (by rw [Line.weight, hclosing])

/-- **When the members of nested blocks are kept.** Read from any point between two definitions, a
definition is kept exactly if the script finds in its lines what they are (`Found`). If no line is
changed by the removal of `const`, this says that the number of lines `struct X {` is larger than that
of lines `};` in each beginning of the definition, and the same in the whole. So it is if every named
block is closed by `};` and every anonymous one by `} name;`. -/
theorem nested_kept_iff (d : NestedDefinition) (s : State) (xs : List Text) (hlevel : s.level = 0)
    (hcreated : s.db createdKey = some (.names xs)) :
    ((∃ final, Kept d s final) ↔ d.Found)
      ∧ ((∀ l ∈ d.lines, l.Clean) → (d.Found ↔ Balanced Line.weight d.lines))
      ∧ (Nested Line.IsPlain Line.Fit d.body → d.closing.kind = .closing →
        Balanced Line.weight d.lines) := by
  refine ⟨⟨?_, ?_⟩, NestedDefinition.found_iff_of_clean, balanced_of_fit d⟩
  · rintro ⟨final, h⟩
    exact ⟨NestedDefinition.readName_of_kept hlevel hcreated h,
      fun l hl m hm => NestedDefinition.readPort_of_kept hlevel hcreated h hl hm,
      NestedDefinition.balanced_of_kept hlevel hcreated h⟩
  · intro h
    exact NestedDefinition.kept_of_found hlevel hcreated h

/-! ### Two definitions -/

namespace Line

/-- `struct X {` after white space. -/
def opener (lead name : Text) (hlead : IsBlank lead) (hname : IsName name) : Line where
  text := lead ++ (structWord ++ (" ".toList ++ (name ++ (" ".toList ++ '{' :: "\n".toList))))
  kind := .named name
  shape := ⟨hname, lead, " ".toList, " ".toList, "\n".toList, hlead, by decide, by decide, by decide,
    by decide, rfl⟩

/-- `union {` after white space. -/
def union (lead : Text) (hlead : IsBlank lead) : Line where
  text := lead ++ (unionWord ++ (" ".toList ++ '{' :: "\n".toList))
  kind := .anonymous
  shape := ⟨unionWord, lead, " ".toList, "\n".toList, .inr rfl, hlead, by decide, by decide, rfl⟩

/-- `};` after white space. -/
def closer (lead : Text) (hlead : IsBlank lead) : Line where
  text := lead ++ '}' :: ([] ++ ';' :: "\n".toList)
  kind := .closing
  shape := ⟨lead, [], "\n".toList, hlead, by decide, by decide, rfl⟩

/-- `} name;` after white space. -/
def closerName (lead name : Text) (hlead : IsBlank lead) (hname : IsName name) : Line where
  text := lead ++ '}' :: (" ".toList ++ (name ++ ([] ++ ';' :: "\n".toList)))
  kind := .closingName
  shape := ⟨lead, " ".toList, name, [], "\n".toList, hlead, by decide, hname, by decide, by decide,
    rfl⟩

/-- Any other line. -/
def other (text : Text) (h : text ≠ [] ∧ '{' ∉ text ∧ '}' ∉ text) : Line := ⟨text, .plain, h⟩

theorem clean_of_not_mem {l : Line} (h : l.kind = .anonymous ∨ 'n' ∉ l.text) : l.Clean := by
  unfold Clean
  rcases h with hkind | hnot
  · rw [hkind]
    trivial
  · have hconst : ConstFree l.text := constFree_of_not_mem (by decide) hnot
    split
    · exact fun _ _ => hconst
    · exact hconst
    · exact hconst
    · trivial

end Line

/-- The line of a member that the descriptor has for platform devices. -/
def platformLine : Line :=
  .other "\t\tstruct platform_msi_desc platform;\n".toList (by decide)

theorem isMemberLine_platformLine :
    ∃ m : MemberText, m.type = "platform_msi_desc".toList ∧ platformLine.IsMemberLine m := by
  let m : MemberText := ⟨" ".toList, "platform_msi_desc".toList, " ".toList, [], [],
    "platform".toList, [], by decide, by decide, by decide, by decide, by decide, by decide,
    by decide⟩
  have hblank : " ".toList ≠ [] ∧ " ".toList ++ [] ++ [] ≠ [] := by decide
  exact ⟨m, rfl, rfl, ⟨hblank.1, hblank.2⟩, "\t\t".toList, "\n".toList, by decide, by decide,
    by decide⟩

/-- A named block that is closed by `};` and a union that is closed by `} name;`. -/
def keptDefinition : NestedDefinition where
  name := "msi_desc".toList
  opening := .opener [] "msi_desc".toList (by decide) (by decide)
  body := [.opener "\t".toList "msi_attrib".toList (by decide) (by decide),
    .other "\t\tu8 is_msix;\n".toList (by decide), .closer "\t".toList (by decide),
    .union "\t".toList (by decide), platformLine,
    .closerName "\t".toList "data".toList (by decide) (by decide),
    .other "\tstruct device *dev;\n".toList (by decide)]
  closing := .closer [] (by decide)
  named := rfl
  nested := @Nested.block _ _ _ _ _ [_] _ ⟨.inr ⟨_, rfl⟩, .inl rfl⟩ (.line rfl .nil)
    (@Nested.block _ _ _ _ _ [_] _ ⟨.inl rfl, .inr rfl⟩ (.line rfl .nil) (.line rfl .nil))
  closes := .inl rfl

theorem clean_keptDefinition : ∀ l ∈ keptDefinition.lines, l.Clean := by
  have hlines : ∀ l ∈ keptDefinition.lines, l.kind = .anonymous ∨ 'n' ∉ l.text := by decide +kernel
  exact fun l hl => Line.clean_of_not_mem (hlines l hl)

theorem nested_kept_msi_desc : ∃ final, Kept keptDefinition State.init final := by
  obtain ⟨hiff, hclean, hfit⟩ := nested_kept_iff keptDefinition State.init [] rfl rfl
  refine hiff.mpr ((hclean clean_keptDefinition).mpr (hfit ?_ rfl))
  exact @Nested.block _ _ _ _ _ [_] _ (.inl ⟨⟨_, rfl⟩, rfl⟩) (.line rfl .nil)
    (@Nested.block _ _ _ _ _ [_] _ (.inr ⟨rfl, rfl⟩) (.line rfl .nil) (.line rfl .nil))

/-- The end of the descriptor in `gic.log`, where a union in a union is closed by `};`. -/
def lostDefinition : NestedDefinition where
  name := "msi_desc".toList
  opening := .opener [] "msi_desc".toList (by decide) (by decide)
  body := [.union "\t".toList (by decide), .union "\t\t".toList (by decide),
    .other "\t\t\tu8\tmask_pos;\n".toList (by decide), .closer "\t\t".toList (by decide), platformLine,
    .closer "\t".toList (by decide)]
  closing := .closer [] (by decide)
  named := rfl
  nested := @Nested.block _ _ _ _ _ [_, _, _, _] _ ⟨.inl rfl, .inl rfl⟩
    (@Nested.block _ _ _ _ _ [_] _ ⟨.inl rfl, .inl rfl⟩ (.line rfl .nil) (.line rfl .nil)) .nil
  closes := .inl rfl

/-- The label is closed with the inner union, and the structure does not become a user of
`platform_msi_desc`. -/
theorem nested_lost :
    (∀ l ∈ lostDefinition.lines, l.Clean)
      ∧ ((runLines lostDefinition.lines State.init).toOption.map fun s =>
        includedBy (s.db "platform_msi_desc".toList)) = some []
      ∧ ¬ ∃ final, Kept lostDefinition State.init final := by
  have hlines : ∀ l ∈ lostDefinition.lines, l.kind = .anonymous ∨ 'n' ∉ l.text := by decide +kernel
  have husers : ((runLines lostDefinition.lines State.init).toOption.map fun s =>
      includedBy (s.db "platform_msi_desc".toList)) = some [] := by decide +kernel
  refine ⟨fun l hl => Line.clean_of_not_mem (hlines l hl), husers, ?_⟩
  rintro ⟨final, h⟩
  obtain ⟨m, htype, hm⟩ := isMemberLine_platformLine
  obtain ⟨s₁, s₂, -, -, -, huser, hgrows⟩ := h.member
    (lostDefinition.opening :: lostDefinition.body.take 4) platformLine
    (lostDefinition.body.drop 5 ++ [lostDefinition.closing]) m rfl hm
  have hkept := hgrows.includedBy m.type
  have hnone : includedBy (final.db "platform_msi_desc".toList) = [] := by
    rw [h.run] at husers
    exact Option.some.inj husers
  rw [huser, htype, hnone, List.prefix_nil] at hkept
  exact List.append_ne_nil_of_right_ne_nil _ (List.cons_ne_nil _ _) hkept

end UioLinuxSample.StructGraph
