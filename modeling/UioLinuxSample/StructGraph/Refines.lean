import UioLinuxSample.Lib.Resolve
import UioLinuxSample.StructGraph.Lines

set_option autoImplicit false

/-! # The script resolves references

The script resolves references in one pass: `created` are the names defined so far, `included_by` are
the users of a name, and the edges are the links. `Refines` relates a state of the script to one of
the abstract reader, and each line keeps them in step: an opening line is a definition, a member that
is a structure is a use and a closing line completes the definition. The text of the nodes has no part
in it.
-/

namespace UioLinuxSample.StructGraph

/-! ## The text of an edge -/

/-- Two texts are the same up to the first place of a character and after it. -/
theorem append_cons_inj {c : Char} {a p x y : Text} (ha : c ∉ a) (hp : c ∉ p)
    (h : a ++ c :: x = p ++ c :: y) : a = p ∧ x = y := by
  have htake : ∀ t u : Text, c ∉ t → (t ++ c :: u).takeWhile (fun d => d ≠ c) = t := by
    intro t u ht
    rw [List.takeWhile_append_of_pos]
    · simp
    · intro d hd
      apply decide_eq_true
      rintro rfl
      exact ht hd
  have hap : a = p := by
    rw [← htake a x ha, h, htake p y hp]
  subst hap
  exact ⟨rfl, (List.cons.inj (List.append_cancel_left h)).2⟩

/-- The same for a character that is there once. -/
theorem append_cons_inj_of_once {c : Char} {a p x y : Text} (ha : c ∉ a) (hx : c ∉ x)
    (h : a ++ c :: x = p ++ c :: y) : a = p ∧ x = y := by
  have hcount := congrArg (List.count c) h
  simp only [List.count_append, List.count_cons_self, List.count_eq_zero.mpr ha,
    List.count_eq_zero.mpr hx] at hcount
  exact append_cons_inj ha (List.count_eq_zero.mp (by omega)) h

/-- A name has no colon, so that the two names can be told from the text. -/
theorem edgeText_inj {a b p q : Text} (hp : ':' ∉ p) (hq : ':' ∉ q)
    (h : edgeText a b = edgeText p q) : a = p ∧ b = q := by
  have hcount := congrArg (List.count ':') h
  simp only [edgeText, List.count_append, List.count_eq_zero.mpr hp,
    List.count_eq_zero.mpr hq] at hcount
  -- the text of an edge has two colons, so there is none in `a`
  have ha : ':' ∉ a := List.count_eq_zero.mp (by omega)
  simp only [edgeText, List.append_assoc, List.append_cancel_left_eq] at h
  obtain ⟨rfl, hrest⟩ := append_cons_inj ha hp h
  have hrest' : b ++ (" -> ".toList ++ (b ++ ":head".toList))
      = q ++ (" -> ".toList ++ (q ++ ":head".toList)) := hrest
  have hlength := congrArg List.length hrest'
  simp only [List.length_append] at hlength
  exact ⟨rfl, (List.append_inj hrest' (by omega)).1⟩

/-! ## The abstract reader -/

/-- The list under the key `included_by`, if there is one. -/
def includedBy : Option Value → List Text
  | some (.node _ (some parents)) => parents
  | _ => []

/-- The text of a node does not matter. -/
theorem includedBy_node (str str' : Option Text) (parents : Option (List Text)) :
    includedBy (some (.node str parents)) = includedBy (some (.node str' parents)) := by
  cases parents <;> rfl

theorem includedBy_eq_nil {v : Option Value}
    (h : ∀ str parents, v = some (.node str parents) → False) : includedBy v = [] := by
  match v with
  | none => rfl
  | some (.names _) => rfl
  | some (.node str parents) => exact (h str parents rfl).elim

theorem includedBy_addIncludedBy (v : Option Value) (name : Text) :
    includedBy (some (State.addIncludedBy v name)) = includedBy v ++ [name] := by
  match v with
  | none => rfl
  | some (.names _) => rfl
  | some (.node _ none) => rfl
  | some (.node _ (some _)) => rfl

/-- The state of the script stands for one of the abstract reader. -/
structure Refines (r : Resolve.State Text) (s : State) : Prop where
  created : s.db createdKey = some (.names r.defined)
  users : ∀ name, name ≠ createdKey → includedBy (s.db name) = r.users name
  edges : s.edgeList = r.links.map fun x => edgeText x.1 x.2
  named : ∀ a ∈ r.defined, ':' ∉ a
  linked : ∀ x ∈ r.links, x.1 ∈ r.defined ∧ x.2 ∈ r.defined

/-- The script is inside the definition of a structure, with its node begun. -/
structure InNode (level : Nat) (name : Text) (s : State) : Prop where
  level : s.level = level
  nodeName : s.nodeName = some name
  node : ∃ str parents, s.db name = some (.node (some str) parents)

theorem refines_init : Refines Resolve.State.init State.init where
  created := rfl
  users name hname := by
    have hnone : State.init.db name = none := by
      dsimp only [State.init]
      rw [Function.update_of_ne hname]
    rw [hnone]
    rfl
  edges := rfl
  named _ h := nomatch h
  linked _ h := nomatch h

section Steps

variable {r : Resolve.State Text} {s : State} {a b c name : Text} {level : Nat}

/-! ## Edges -/

/-- An edge changes nothing but the list of edges. -/
theorem addEdge_eq (s : State) (a b : Text) : ∃ edges, s.addEdge a b = { s with edgeList := edges } := by
  unfold State.addEdge
  split
  · exact ⟨s.edgeList, rfl⟩
  · exact ⟨_, rfl⟩

theorem Refines.mem_edgeList (h : Refines r s) : edgeText a b ∈ s.edgeList ↔ (a, b) ∈ r.links := by
  rw [h.edges, List.mem_map]
  constructor
  · rintro ⟨⟨p, q⟩, hmem, heq⟩
    obtain ⟨hp, hq⟩ := h.linked _ hmem
    obtain ⟨rfl, rfl⟩ := edgeText_inj (h.named _ hp) (h.named _ hq) heq.symm
    exact hmem
  · intro hmem
    exact ⟨(a, b), hmem, rfl⟩

theorem Refines.addEdge (h : Refines r s) (ha : a ∈ r.defined) (hb : b ∈ r.defined) :
    Refines (r.link a b) (s.addEdge a b) := by
  have hedges : (s.addEdge a b).edgeList = (r.link a b).links.map fun x => edgeText x.1 x.2 := by
    unfold State.addEdge Resolve.State.link
    by_cases hmem : (a, b) ∈ r.links
    · rw [if_pos (h.mem_edgeList.mpr hmem), if_pos hmem, h.edges]
    · rw [if_neg (mt h.mem_edgeList.mp hmem), if_neg hmem, h.edges, List.map_append]
      rfl
  obtain ⟨edges, heq⟩ := addEdge_eq s a b
  rw [heq] at hedges ⊢
  refine ⟨?_, ?_, hedges, ?_, ?_⟩
  · rw [Resolve.State.link_defined]
    exact h.created
  · rw [Resolve.State.link_users]
    exact h.users
  · rw [Resolve.State.link_defined]
    exact h.named
  · intro x hx
    rw [Resolve.State.link_defined]
    rcases Resolve.State.mem_link.mp hx with hx | rfl
    · exact h.linked x hx
    · exact ⟨ha, hb⟩

/-- The two tests of the script for an edge. -/
def edgeIf (s : State) (created : Bool) (a b : Text) : State := if created then s.addEdge a b else s

theorem edgeIf_eq (s : State) (created : Bool) (a b : Text) :
    ∃ edges, edgeIf s created a b = { s with edgeList := edges } := by
  cases created with
  | false => exact ⟨s.edgeList, rfl⟩
  | true => exact addEdge_eq s a b

theorem Refines.isCreated (h : Refines r s) (name : Text) :
    s.isCreated name = .ok (decide (name ∈ r.defined)) := by
  unfold State.isCreated
  rw [h.created]

theorem Refines.edgeIf (h : Refines r s)
    (hdef : c ∈ r.defined → a ∈ r.defined ∧ b ∈ r.defined) :
    Refines (r.linkIf c a b) (edgeIf s (decide (c ∈ r.defined)) a b) := by
  unfold StructGraph.edgeIf Resolve.State.linkIf
  by_cases hc : c ∈ r.defined
  · rw [if_pos hc, if_pos (decide_eq_true hc)]
    exact h.addEdge (hdef hc).1 (hdef hc).2
  · rw [if_neg hc, if_neg (by simpa using hc)]
    exact h

theorem InNode.edgeIf (h : InNode level name s) (created : Bool) (a b : Text) :
    InNode level name (edgeIf s created a b) := by
  obtain ⟨edges, heq⟩ := edgeIf_eq s created a b
  rw [heq]
  exact ⟨h.level, h.nodeName, h.node⟩

/-! ## The cases of the loop -/

@[simp] theorem setValue_self (key : Text) (v : Value) : (s.setValue key v).db key = some v :=
  Function.update_self _ _ _

theorem setValue_of_ne {key other : Text} (v : Value) (h : other ≠ key) :
    (s.setValue key v).db other = s.db other :=
  Function.update_of_ne h _ _

/-- A new value for a name changes its users at most. -/
theorem Refines.setValue (h : Refines r s) {key : Text} (hkey : key ≠ createdKey) (v : Value) :
    Refines { r with users := Function.update r.users key (includedBy (some v)) }
      (s.setValue key v) where
  created := (setValue_of_ne v hkey.symm).trans h.created
  users other hother := by
    dsimp only
    by_cases hsame : other = key
    · subst hsame
      rw [setValue_self, Function.update_self]
    · rw [setValue_of_ne v hsame, Function.update_of_ne hsame, h.users other hother]
  edges := h.edges
  named := h.named
  linked := h.linked

theorem Refines.setValue_same (h : Refines r s) {key : Text} (hkey : key ≠ createdKey) {v : Value}
    (hv : includedBy (some v) = r.users key) : Refines r (s.setValue key v) := by
  have hset := h.setValue hkey v
  rwa [hv, Function.update_eq_self] at hset

/-- A user that is added leaves the text of the node as it is. -/
theorem InNode.addIncludedBy (h : InNode level name s) (type : Text) :
    InNode level name (s.setValue type (State.addIncludedBy (s.db type) name)) := by
  refine ⟨h.level, h.nodeName, ?_⟩
  obtain ⟨str, parents, hnode⟩ := h.node
  by_cases hsame : name = type
  · subst hsame
    rw [setValue_self, hnode]
    cases parents with
    | none => exact ⟨str, _, rfl⟩
    | some parents => exact ⟨str, _, rfl⟩
  · rw [setValue_of_ne _ hsame]
    exact ⟨str, parents, hnode⟩

/-- Ports change neither the users nor the edges. -/
theorem appendNodeStr_refines (h : Refines r s) (hin : InNode level name s)
    (hname : name ≠ createdKey) (text : Text) :
    ∃ s', s.appendNodeStr text = .ok s' ∧ Refines r s' ∧ InNode level name s' := by
  obtain ⟨str, parents, hnode⟩ := hin.node
  have hsame : includedBy (some (.node (some (str ++ text)) parents)) = r.users name := by
    rw [← h.users name hname, hnode]
    exact includedBy_node _ _ _
  refine ⟨s.setValue name (.node (some (str ++ text)) parents), ?_, h.setValue_same hname hsame,
    ⟨hin.level, hin.nodeName, _, _, setValue_self _ _⟩⟩
  unfold State.appendNodeStr
  simp only [hin.nodeName, hnode]

/-- The name is appended to the list of those that are defined. -/
theorem Refines.define (h : Refines r s) (hcolon : ':' ∉ name) :
    Refines (r.define name) (s.setValue createdKey (.names (r.defined ++ [name]))) where
  created := setValue_self _ _
  users other hother := (congrArg includedBy (setValue_of_ne _ hother)).trans (h.users other hother)
  edges := h.edges
  named a ha := by
    rcases List.mem_append.mp ha with ha | ha
    · exact h.named a ha
    · rwa [List.mem_singleton.mp ha]
  linked x hx := by
    obtain ⟨h₁, h₂⟩ := h.linked x hx
    exact ⟨List.mem_append_left _ h₁, List.mem_append_left _ h₂⟩

/-- The opening line of a structure is a definition. -/
theorem openStruct_refines (h : Refines r s) (hlevel : s.level = 0) (hcolon : ':' ∉ name)
    (hname : name ≠ createdKey) :
    ∃ s', s.openStruct name = .ok s' ∧ Refines (r.define name) s' ∧ InNode 1 name s' := by
  have hbegun : Refines r { s with level := s.level + 1, nodeName := some name } :=
    ⟨h.created, h.users, h.edges, h.named, h.linked⟩
  have hdefine := hbegun.define hcolon
  have husers := hdefine.users name hname
  unfold State.openStruct
  simp only [hlevel, Nat.zero_add, if_pos, h.created] at hdefine husers ⊢
  -- the text of the node replaces the one there may be, and the users stay
  split
  · rename_i str parents hnode
    rw [hnode] at husers
    exact ⟨_, rfl, hdefine.setValue_same hname ((includedBy_node _ _ _).trans husers),
      ⟨rfl, rfl, _, _, setValue_self _ _⟩⟩
  · rename_i hnode
    rw [includedBy_eq_nil hnode] at husers
    exact ⟨_, rfl, hdefine.setValue_same hname husers, ⟨rfl, rfl, _, _, setValue_self _ _⟩⟩

/-- A member that is a structure is a use. -/
theorem structMember_refines (h : Refines r s) (hin : InNode level name s)
    (hname : name ∈ r.defined) (hcreated : name ≠ createdKey) {type : Text}
    (htype : type ≠ createdKey) (stars gap member : Text) :
    ∃ s', s.structMember type stars gap member = .ok s' ∧ Refines (r.use name type) s'
      ∧ InNode level name s' := by
  obtain ⟨s₁, hs₁, h₁, hin₁⟩ := appendNodeStr_refines h hin hcreated (space16 ++ "<".toList ++ type
    ++ "> ".toList ++ stars ++ gap ++ member ++ "\\l|\n".toList)
  unfold State.structMember
  rw [hs₁]
  -- first the new user of the type, then the edge if the type is defined
  have hset := h₁.setValue htype (State.addIncludedBy (s₁.db type) name)
  rw [includedBy_addIncludedBy, h₁.users type htype] at hset
  have hedge := hset.edgeIf (c := type) (a := name) (b := type) fun hdef => ⟨hname, hdef⟩
  refine ⟨_, ?_, hedge, ?_⟩
  · dsimp only [bind, Except.bind]
    rw [hin₁.nodeName]
    dsimp only
    rw [hset.isCreated]
    rfl
  · exact (hin₁.addIncludedBy type).edgeIf _ _ _

theorem addParents_refines (h : Refines r s) (hname : name ∈ r.defined) (parents : List Text) :
    ∃ s', State.addParents name parents s = .ok s' ∧ Refines (r.linkAll parents name) s'
      ∧ s'.level = s.level := by
  induction parents generalizing r s with
  | nil => exact ⟨s, rfl, h, rfl⟩
  | cons parent parents ih =>
      have hstep := h.edgeIf (c := parent) (a := parent) (b := name) fun hparent => ⟨hparent, hname⟩
      obtain ⟨s', hs', hrefines, hlevel⟩ := ih hstep (by rwa [Resolve.State.linkIf_defined])
      refine ⟨s', ?_, hrefines, ?_⟩
      · rw [State.addParents, h.isCreated]
        exact hs'
      · obtain ⟨edges, heq⟩ := edgeIf_eq s (decide (parent ∈ r.defined)) parent name
        rw [hlevel, heq]

/-- The closing line of a structure completes the definition. -/
theorem closeStruct_refines (h : Refines r s) (hin : InNode 1 name s) (hname : name ∈ r.defined)
    (hcreated : name ≠ createdKey) :
    ∃ s', s.closeStruct = .ok s' ∧ Refines (r.close name) s' ∧ s'.level = 0 := by
  have h₀ : Refines r { s with level := 0 } := ⟨h.created, h.users, h.edges, h.named, h.linked⟩
  have hin₀ : InNode 0 name { s with level := 0 } := ⟨rfl, hin.nodeName, hin.node⟩
  obtain ⟨s₁, hs₁, h₁, hin₁⟩ := appendNodeStr_refines h₀ hin₀ hcreated
    (space12 ++ "\x7d\x7d\"\n".toList)
  obtain ⟨s₂, hs₂, h₂, hin₂⟩ := appendNodeStr_refines h₁ hin₁ hcreated
    (space8 ++ "shape = \"record\"\n".toList ++ space4 ++ "];\n".toList)
  -- the list that is gone through is the one of the abstract reader
  obtain ⟨s₃, hs₃, h₃, hlevel₃⟩ := addParents_refines h₂ hname (r.users name)
  refine ⟨s₃, ?_, h₃, hlevel₃.trans hin₂.level⟩
  have husers := h₂.users name hcreated
  obtain ⟨str, parents, hnode⟩ := hin₂.node
  rw [hnode] at husers
  unfold State.closeStruct
  simp only [hin.level, ge_iff_le, le_refl, if_pos, Nat.sub_self, bind, Except.bind, hs₁, hs₂,
    hin₂.nodeName, hnode]
  cases parents with
  | none =>
      rw [← husers] at hs₃
      exact hs₃
  | some parents =>
      rw [← husers] at hs₃
      exact hs₃

/-! ## Lines of a body -/

theorem readLines_cons {s' : State} {line : Text} (hline : line ≠ []) (h : s.readLine line = .ok s')
    (lines : List Text) : State.readLines (line :: lines) s = State.readLines lines s' := by
  rw [State.readLines, if_neg hline, h]
  rfl

/-- A line of a body is a use of the type that is read in it. -/
theorem readLine_refines (h : Refines r s) (hin : InNode 1 name s) (hname : name ∈ r.defined)
    (hcreated : name ≠ createdKey) {line : Text} (hopen : '{' ∉ line) (hclose : '}' ∉ line)
    (htype : readType line ≠ some createdKey) :
    ∃ s', s.readLine line = .ok s' ∧ InNode 1 name s'
      ∧ Refines ((readType line).toList.foldl (fun r b => r.use name b) r) s' := by
  have hlevel : 0 < s.level := by
    rw [hin.level]
    exact Nat.one_pos
  rcases readLine_body hlevel hopen hclose with
    ⟨type, stars, gap, member, hread, hline⟩ | ⟨hread, hline | ⟨text, hline⟩⟩
  · have htype' : type ≠ createdKey := by
      rintro rfl
      exact htype hread
    obtain ⟨s', hs', hrefines, hin'⟩ :=
      structMember_refines h hin hname hcreated htype' stars gap member
    rw [hline, hread]
    exact ⟨s', hs', hin', hrefines⟩
  · rw [hline, hread]
    exact ⟨s, rfl, hin, h⟩
  · obtain ⟨s', hs', hrefines, hin'⟩ := appendNodeStr_refines h hin hcreated text
    rw [hline, hread]
    exact ⟨s', hs', hin', hrefines⟩

theorem foldl_use_defined (us : List Text) :
    (us.foldl (fun r b => r.use name b) r).defined = r.defined := by
  induction us generalizing r with
  | nil => rfl
  | cons u us ih => exact ih.trans Resolve.State.linkIf_defined

end Steps

end UioLinuxSample.StructGraph
