import Mathlib.Tactic
import Mathlib.Data.List.InsertIdx

set_option autoImplicit false

/-! # Insertion points of a sorted list

A position is an insertion point for `a` if nothing before it is larger and nothing after it is
smaller. These are the positions where `a` can be inserted such that the list stays sorted
(`pairwise_insertIdx_iff`), and for an element that is not in the list there is at most one
(`IsInsertionPoint.unique`).
-/

namespace SortedInsert

variable {α : Type} [LinearOrder α] {xs : List α} {a : α} {r q : Nat}

structure IsInsertionPoint (xs : List α) (a : α) (r : Nat) : Prop where
  le_length : r ≤ xs.length
  below : ∀ i (hi : i < xs.length), i < r → xs[i] ≤ a
  above : ∀ i (hi : i < xs.length), r ≤ i → a ≤ xs[i]

theorem pairwise_insertIdx_iff (hxs : xs.Pairwise (· ≤ ·)) (hr : r ≤ xs.length) :
    (xs.insertIdx r a).Pairwise (· ≤ ·) ↔ IsInsertionPoint xs a r := by
  have hlen : (xs.insertIdx r a).length = xs.length + 1 := List.length_insertIdx_of_le_length hr a
  rw [List.pairwise_iff_getElem]
  constructor
  · -- `a` stands at `r`, what was before it stays and what was after it moves up by one
    intro hsorted
    refine ⟨hr, ?_, ?_⟩
    · intro i hi hir
      have hle := hsorted i r (by omega) (by omega) hir
      rwa [List.getElem_insertIdx_of_lt hir, List.getElem_insertIdx_self] at hle
    · intro i hi hri
      have hle := hsorted r (i + 1) (by omega) (by omega) (by omega)
      rwa [List.getElem_insertIdx_self, List.getElem_insertIdx_of_gt (by omega)] at hle
  · intro h i j hi hj hij
    have hmono := List.pairwise_iff_getElem.mp hxs
    rcases lt_trichotomy j r with hjr | rfl | hjr
    · rw [List.getElem_insertIdx_of_lt (by omega), List.getElem_insertIdx_of_lt hjr]
      exact hmono i j (by omega) (by omega) hij
    · rw [List.getElem_insertIdx_of_lt hij, List.getElem_insertIdx_self]
      exact h.below i (by omega) hij
    · rw [List.getElem_insertIdx_of_gt hjr]
      rcases lt_trichotomy i r with hir | rfl | hir
      · rw [List.getElem_insertIdx_of_lt hir]
        exact (h.below i (by omega) hir).trans (h.above (j - 1) (by omega) (by omega))
      · rw [List.getElem_insertIdx_self]
        exact h.above (j - 1) (by omega) (by omega)
      · rw [List.getElem_insertIdx_of_gt hir]
        exact hmono (i - 1) (j - 1) (by omega) (by omega) (by omega)

/-- Where the element is not in the list, the bounds are strict. -/
theorem IsInsertionPoint.unique (h : IsInsertionPoint xs a r) (h' : IsInsertionPoint xs a q)
    (ha : a ∉ xs) : q = r := by
  have hne : ∀ i (hi : i < xs.length), xs[i] ≠ a := by
    rintro i hi rfl
    exact ha (List.getElem_mem hi)
  -- between two insertion points everything is equal to `a`
  have hle : ∀ {r q : Nat}, IsInsertionPoint xs a r → IsInsertionPoint xs a q → q ≤ r := by
    intro r q h h'
    by_contra hlt
    have hr : r < xs.length := by
      have := h'.le_length
      omega
    exact hne r hr (le_antisymm (h'.below r hr (by omega)) (h.above r hr le_rfl))
  exact le_antisymm (hle h h') (hle h' h)

end SortedInsert
