import Mathlib.Tactic

set_option autoImplicit false

/-! # References in one pass

A reader sees definitions one after the other, and each of them uses some names. A name may be used
before it is defined. The reader links a definition to a name at once if the name is defined, and it
writes down who uses a name for the case that the definition comes later: when it is complete, all
those who have used it by then are linked to it. A link that is there is not added again.

In the end every use of a defined name is linked once, in whatever order the definitions came
(`mem_links_readAll`, `nodup_links_readAll`).
-/

namespace Resolve

variable {α : Type} [DecidableEq α]

structure State (α : Type) where
  defined : List α
  users : α → List α
  links : List (α × α)

def State.init : State α := ⟨[], fun _ => [], []⟩

namespace State

def link (s : State α) (a b : α) : State α :=
  if (a, b) ∈ s.links then s else { s with links := s.links ++ [(a, b)] }

def define (s : State α) (a : α) : State α := { s with defined := s.defined ++ [a] }

/-- `a` is linked to `b` if `c` is defined. -/
def linkIf (s : State α) (c a b : α) : State α := if c ∈ s.defined then s.link a b else s

/-- The definition of `a` uses `b`. -/
def use (s : State α) (a b : α) : State α :=
  { s with users := Function.update s.users b (s.users b ++ [a]) }.linkIf b a b

/-- The users `as` of `b` are linked to it. -/
def linkAll (s : State α) (as : List α) (b : α) : State α := as.foldl (fun s a => s.linkIf a a b) s

/-- The definition of `b` is complete. -/
def close (s : State α) (b : α) : State α := s.linkAll (s.users b) b

/-- A definition and the names it uses. -/
def read (s : State α) (d : α × List α) : State α :=
  (d.2.foldl (fun s b => s.use d.1 b) (s.define d.1)).close d.1

def readAll (s : State α) (ds : List (α × List α)) : State α := ds.foldl read s

/-! ## Links -/

variable {s : State α} {a b c : α} {x : α × α}

@[simp] theorem link_defined : (s.link a b).defined = s.defined := by
  unfold link
  split <;> rfl

@[simp] theorem link_users : (s.link a b).users = s.users := by
  unfold link
  split <;> rfl

@[simp] theorem mem_link : x ∈ (s.link a b).links ↔ x ∈ s.links ∨ x = (a, b) := by
  unfold link
  split
  · rename_i h
    constructor
    · exact .inl
    · rintro (hx | rfl)
      · exact hx
      · exact h
  · simp

theorem nodup_link (h : s.links.Nodup) : (s.link a b).links.Nodup := by
  unfold link
  split
  · exact h
  · rename_i hnew
    exact h.append (List.nodup_singleton _) (by simpa using hnew)

@[simp] theorem linkIf_defined : (s.linkIf c a b).defined = s.defined := by
  unfold linkIf
  split
  · exact link_defined
  · rfl

@[simp] theorem linkIf_users : (s.linkIf c a b).users = s.users := by
  unfold linkIf
  split
  · exact link_users
  · rfl

@[simp] theorem mem_linkIf :
    x ∈ (s.linkIf c a b).links ↔ x ∈ s.links ∨ c ∈ s.defined ∧ x = (a, b) := by
  unfold linkIf
  split
  · rename_i h
    simp [h]
  · rename_i h
    simp [h]

theorem nodup_linkIf (h : s.links.Nodup) : (s.linkIf c a b).links.Nodup := by
  unfold linkIf
  split
  · exact nodup_link h
  · exact h

/-! ## The parts of a definition -/

@[simp] theorem linkAll_defined (as : List α) : (s.linkAll as b).defined = s.defined := by
  induction as generalizing s with
  | nil => rfl
  | cons a as ih => exact ih.trans linkIf_defined

@[simp] theorem linkAll_users (as : List α) : (s.linkAll as b).users = s.users := by
  induction as generalizing s with
  | nil => rfl
  | cons a as ih => exact ih.trans linkIf_users

theorem mem_linkAll (as : List α) :
    x ∈ (s.linkAll as b).links ↔ x ∈ s.links ∨ x.1 ∈ as ∧ x.1 ∈ s.defined ∧ x.2 = b := by
  induction as generalizing s with
  | nil => simp [linkAll]
  | cons a as ih =>
      refine ih.trans ?_
      rw [mem_linkIf, linkIf_defined, List.mem_cons, Prod.ext_iff]
      constructor
      · rintro ((h | ⟨ha, rfl, hb⟩) | ⟨h, hb⟩)
        · exact .inl h
        · exact .inr ⟨.inl rfl, ha, hb⟩
        · exact .inr ⟨.inr h, hb⟩
      · rintro (h | ⟨rfl | h, hb⟩)
        · exact .inl (.inl h)
        · exact .inl (.inr ⟨hb.1, rfl, hb.2⟩)
        · exact .inr ⟨h, hb⟩

theorem nodup_linkAll (as : List α) (h : s.links.Nodup) : (s.linkAll as b).links.Nodup := by
  induction as generalizing s with
  | nil => exact h
  | cons a as ih => exact ih (nodup_linkIf h)

/-! ## Whole runs -/

/-- What holds between two definitions, of those read so far. Inside of one, `ds` ends in its name and
the names it has used up to now. -/
structure Linked (ds : List (α × List α)) (s : State α) : Prop where
  defined : s.defined = ds.map Prod.fst
  users : ∀ a b, a ∈ s.users b ↔ ∃ d ∈ ds, d.1 = a ∧ b ∈ d.2
  links : ∀ a b, (a, b) ∈ s.links ↔ a ∈ s.users b ∧ b ∈ s.defined
  nodup : s.links.Nodup

omit [DecidableEq α] in
theorem Linked.init : Linked [] (State.init : State α) :=
  ⟨rfl, fun _ _ => by simp [State.init], fun _ _ => by simp [State.init], List.nodup_nil⟩

/-- While the definition of `n` is read, some of those who have used `n` before are not linked yet. -/
structure Reading (ds : List (α × List α)) (n : α) (us : List α) (s : State α) : Prop where
  defined : s.defined = ds.map Prod.fst ++ [n]
  users : ∀ a b, a ∈ s.users b ↔ ∃ d ∈ ds ++ [(n, us)], d.1 = a ∧ b ∈ d.2
  sound : ∀ a b, (a, b) ∈ s.links → a ∈ s.users b ∧ b ∈ s.defined
  complete : ∀ a b, a ∈ s.users b → b ∈ s.defined → b ≠ n → (a, b) ∈ s.links
  nodup : s.links.Nodup

omit [DecidableEq α] in
theorem Linked.define {ds : List (α × List α)} (h : Linked ds s) (n : α) :
    Reading ds n [] (s.define n) where
  defined := congrArg (· ++ [n]) h.defined
  users a b := by
    rw [show (s.define n).users = s.users from rfl, h.users]
    simp
  sound a b hab := by
    obtain ⟨ha, hb⟩ := (h.links a b).mp hab
    exact ⟨ha, List.mem_append_left _ hb⟩
  complete a b ha hb hbn := by
    rcases List.mem_append.mp hb with hb | hb
    · exact (h.links a b).mpr ⟨ha, hb⟩
    · exact absurd (List.mem_singleton.mp hb) hbn
  nodup := h.nodup

theorem Reading.use {ds : List (α × List α)} {n : α} {us : List α} (h : Reading ds n us s) (u : α) :
    Reading ds n (us ++ [u]) (s.use n u) := by
  -- `n` is a new user of `u`, and nothing else changes but the links
  have husers : ∀ a b, a ∈ (s.use n u).users b ↔ a ∈ s.users b ∨ b = u ∧ a = n := by
    intro a b
    rw [State.use, linkIf_users]
    by_cases hb : b = u
    · subst hb
      simp
    · simp [hb]
  have hdefined : (s.use n u).defined = s.defined := linkIf_defined
  refine ⟨hdefined.trans h.defined, fun a b => ?_, fun a b hab => ?_, fun a b ha hb hbn => ?_,
    nodup_linkIf h.nodup⟩
  · rw [husers, h.users]
    simp only [List.mem_append, List.mem_singleton, or_and_right, exists_or, exists_eq_left]
    rw [or_assoc, and_or_left, and_comm (a := b = u), eq_comm (a := a)]
  · rw [husers, hdefined]
    rcases mem_linkIf.mp hab with hab | ⟨hu, hab⟩
    · exact ⟨.inl (h.sound a b hab).1, (h.sound a b hab).2⟩
    · cases hab
      exact ⟨.inr ⟨rfl, rfl⟩, hu⟩
  · rw [husers] at ha
    rw [hdefined] at hb
    apply mem_linkIf.mpr
    rcases ha with ha | ⟨rfl, rfl⟩
    · exact .inl (h.complete a b ha hb hbn)
    · exact .inr ⟨hb, rfl⟩

theorem Reading.uses {ds : List (α × List α)} {n : α} {us : List α} (h : Reading ds n us s)
    (vs : List α) : Reading ds n (us ++ vs) (vs.foldl (fun s b => s.use n b) s) := by
  induction vs generalizing us s with
  | nil => rwa [List.append_nil]
  | cons v vs ih =>
      rw [List.append_cons]
      exact ih (h.use v)

theorem Reading.close {ds : List (α × List α)} {n : α} {us : List α} (h : Reading ds n us s) :
    Linked (ds ++ [(n, us)]) (s.close n) := by
  have hdefined : (s.close n).defined = (ds ++ [(n, us)]).map Prod.fst := by
    rw [State.close, linkAll_defined, h.defined, List.map_append, List.map_singleton]
  have husers : (s.close n).users = s.users := linkAll_users _
  -- whoever has used `n` is defined by now, so none of the users of `n` is left out
  have huser : ∀ a b, a ∈ s.users b → a ∈ s.defined := by
    intro a b ha
    obtain ⟨d, hd, rfl, -⟩ := (h.users a b).mp ha
    rw [h.defined]
    simpa using List.mem_map_of_mem (f := Prod.fst) hd
  refine ⟨hdefined, fun a b => by rw [husers, h.users], fun a b => ?_, nodup_linkAll _ h.nodup⟩
  rw [husers, State.close, mem_linkAll, linkAll_defined]
  constructor
  · rintro (hab | ⟨ha, -, hb⟩)
    · exact h.sound a b hab
    · subst hb
      exact ⟨ha, by simp [h.defined]⟩
  · rintro ⟨ha, hb⟩
    by_cases hbn : b = n
    · subst hbn
      exact .inr ⟨ha, huser a b ha, rfl⟩
    · exact .inl (h.complete a b ha hb hbn)

theorem Linked.read {ds : List (α × List α)} (h : Linked ds s) (d : α × List α) :
    Linked (ds ++ [d]) (s.read d) :=
  ((h.define d.1).uses d.2).close

theorem Linked.readAll {ds : List (α × List α)} (h : Linked ds s) (es : List (α × List α)) :
    Linked (ds ++ es) (s.readAll es) := by
  induction es generalizing ds s with
  | nil => rwa [List.append_nil]
  | cons e es ih =>
      rw [List.append_cons]
      exact ih (h.read e)

variable (ds : List (α × List α))

theorem linked_readAll : Linked ds (State.init.readAll ds) := Linked.init.readAll ds

/-- **Every use of a defined name is linked.** -/
theorem mem_links_readAll :
    (a, b) ∈ (State.init.readAll ds).links ↔ (∃ d ∈ ds, d.1 = a ∧ b ∈ d.2) ∧ b ∈ ds.map Prod.fst := by
  have h := linked_readAll ds
  rw [h.links, h.users, h.defined]

/-- **It is linked once.** -/
theorem nodup_links_readAll : (State.init.readAll ds).links.Nodup := (linked_readAll ds).nodup

end State

end Resolve
