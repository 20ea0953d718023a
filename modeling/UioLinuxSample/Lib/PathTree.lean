import Mathlib.Data.Finset.Lattice.Fold
import Mathlib.Data.List.Infix

set_option autoImplicit false

/-! # Trees of named entries

A directory tree, as the set of the paths of its entries. A path is written from the entry to the
root, so the directory of `a :: dir` is `dir`, and an entry is below another one if its path ends
in that of the other. Every entry has its directory in the tree.

An entry is created in a directory that exists and under a name that is free there. Removing an
entry removes all below it, so it undoes its creation (`remove_of_create`).
-/

@[ext]
structure PathTree (α : Type) [DecidableEq α] where
  paths : Finset (List α)
  root : [] ∈ paths
  closed : ∀ a dir, a :: dir ∈ paths → dir ∈ paths

namespace PathTree

variable {α : Type} [DecidableEq α]

instance : Membership (List α) (PathTree α) := ⟨fun t p => p ∈ t.paths⟩

instance (t : PathTree α) (p : List α) : Decidable (p ∈ t) :=
  inferInstanceAs (Decidable (p ∈ t.paths))

/-- The entry `a` in the directory `dir`, if there is such a directory without an entry `a`. -/
def create (t : PathTree α) (a : α) (dir : List α) : Option (PathTree α) :=
  if h : dir ∈ t ∧ a :: dir ∉ t then
    some {
      paths := insert (a :: dir) t.paths
      root := Finset.mem_insert_of_mem t.root
      closed := by
        intro b d hb
        rcases Finset.mem_insert.mp hb with heq | hb
        · obtain ⟨-, rfl⟩ := List.cons.inj heq
          exact Finset.mem_insert_of_mem h.1
        · exact Finset.mem_insert_of_mem (t.closed b d hb) }
  else none

/-- The tree without the entry `a` of the directory `dir` and all below it. -/
def remove (t : PathTree α) (a : α) (dir : List α) : PathTree α where
  paths := t.paths.filter fun p => ¬ a :: dir <:+ p
  root := Finset.mem_filter.mpr ⟨t.root, fun h => nomatch List.suffix_nil.mp h⟩
  closed := by
    intro b d hb
    obtain ⟨hmem, hnot⟩ := Finset.mem_filter.mp hb
    exact Finset.mem_filter.mpr
      ⟨t.closed b d hmem, fun hd => hnot (hd.trans (List.suffix_cons b d))⟩

variable {t t' : PathTree α} {a b : α} {dir p q : List α}

theorem mem_remove : p ∈ t.remove a dir ↔ p ∈ t ∧ ¬ a :: dir <:+ p := Finset.mem_filter

theorem ext_mem (h : ∀ p, p ∈ t ↔ p ∈ t') : t = t' := PathTree.ext (Finset.ext h)

theorem mem_of_suffix (hp : p ∈ t) (h : q <:+ p) : q ∈ t := by
  obtain ⟨front, rfl⟩ := h
  induction front with
  | nil => exact hp
  | cons a front ih => exact ih (t.closed a _ hp)

theorem not_mem_remove : a :: dir ∉ t.remove a dir :=
  fun h => (mem_remove.mp h).2 List.suffix_rfl

/-- Nothing happens for an entry that is not there, and only then. -/
theorem remove_eq_self_iff : t.remove a dir = t ↔ a :: dir ∉ t := by
  constructor
  · intro h
    rw [← h]
    exact not_mem_remove
  · intro h
    refine ext_mem fun p => ?_
    rw [mem_remove, and_iff_left_iff_imp]
    exact fun hp hsuffix => h (mem_of_suffix hp hsuffix)

theorem create_eq_none_iff : t.create a dir = none ↔ (dir ∈ t → a :: dir ∈ t) := by
  unfold create
  split
  · rename_i h
    simp [h]
  · rename_i h
    simpa using h

theorem create_spec (h : t.create a dir = some t') :
    dir ∈ t ∧ a :: dir ∉ t ∧ ∀ p, p ∈ t' ↔ p = a :: dir ∨ p ∈ t := by
  unfold create at h
  split at h
  · rename_i hfree
    cases h
    exact ⟨hfree.1, hfree.2, fun p => Finset.mem_insert⟩
  · cases h

/-- **Removing an entry undoes its creation.** -/
theorem remove_of_create (h : t.create a dir = some t') : t'.remove a dir = t := by
  obtain ⟨-, hfree, hmem⟩ := create_spec h
  refine ext_mem fun p => ?_
  rw [mem_remove, hmem]
  constructor
  · rintro ⟨rfl | hp, hnot⟩
    · exact absurd List.suffix_rfl hnot
    · exact hp
  · intro hp
    exact ⟨.inr hp, fun hsuffix => hfree (mem_of_suffix hp hsuffix)⟩

theorem exists_create (hdir : dir ∈ t) (hfree : a :: dir ∉ t) : ∃ t', t.create a dir = some t' := by
  rw [← Option.ne_none_iff_exists', Ne, create_eq_none_iff]
  exact fun h => hfree (h hdir)

theorem mem_of_create (h : t.create a dir = some t') (hp : p ∈ t) : p ∈ t' :=
  ((create_spec h).2.2 p).mpr (.inr hp)

/-- Another name stays free. -/
theorem not_mem_of_create (h : t.create a dir = some t') (hne : b ≠ a) (hb : b :: dir ∉ t) :
    b :: dir ∉ t' := by
  rw [(create_spec h).2.2]
  rintro (heq | hmem)
  · exact hne (List.cons.inj heq).1
  · exact hb hmem

/-- A new directory is empty. -/
theorem not_mem_new (h : t.create a dir = some t') : b :: a :: dir ∉ t' := by
  obtain ⟨-, hfree, hmem⟩ := create_spec h
  rw [hmem]
  rintro (heq | hb)
  · have hlen := congrArg List.length heq
    simp at hlen
  · exact hfree (t.closed b _ hb)

end PathTree
