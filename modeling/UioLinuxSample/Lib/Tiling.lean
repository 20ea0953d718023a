import Mathlib.Tactic

set_option autoImplicit false

/-! # Consecutive intervals

A list of intervals tiles `[a, b)` if the first one starts at `a`, each one ends where the next one
starts, and the last one ends at `b`. Then the lengths add up to that of `[a, b)` (`Tiles.sum_length`)
and the intervals have its points and no others (`Tiles.mem_iff`).
-/

namespace Tiling

section Order

variable {α : Type} [LinearOrder α] {a b c x : α} {p : α × α} {ps qs : List (α × α)}

def Tiles : α → List (α × α) → α → Prop
  | a, [], b => a = b
  | a, p :: ps, b => p.1 = a ∧ p.1 ≤ p.2 ∧ Tiles p.2 ps b

theorem tiles_append : Tiles a (ps ++ qs) c ↔ ∃ b, Tiles a ps b ∧ Tiles b qs c := by
  induction ps generalizing a with
  | nil => simp [Tiles]
  | cons p ps ih =>
      rw [List.cons_append, Tiles, ih]
      constructor
      · rintro ⟨hstart, hle, b, hps, hqs⟩
        exact ⟨b, ⟨hstart, hle, hps⟩, hqs⟩
      · rintro ⟨b, ⟨hstart, hle, hps⟩, hqs⟩
        exact ⟨hstart, hle, b, hps, hqs⟩

theorem tiles_singleton (h : a ≤ b) : Tiles a [(a, b)] b := ⟨rfl, h, rfl⟩

theorem Tiles.le (h : Tiles a ps b) : a ≤ b := by
  induction ps generalizing a with
  | nil => exact le_of_eq h
  | cons p ps ih =>
      obtain ⟨rfl, hle, hrest⟩ := h
      exact hle.trans (ih hrest)

/-- The intervals have the points of the whole and no others. -/
theorem Tiles.mem_iff (h : Tiles a ps b) : (∃ p ∈ ps, p.1 ≤ x ∧ x < p.2) ↔ a ≤ x ∧ x < b := by
  induction ps generalizing a with
  | nil =>
      obtain rfl : a = b := h
      simp
  | cons p ps ih =>
      obtain ⟨rfl, hle, hrest⟩ := h
      have hend := hrest.le
      simp only [List.mem_cons, exists_eq_or_imp, ih hrest]
      constructor
      · rintro (⟨hx, hlt⟩ | ⟨hx, hlt⟩)
        · exact ⟨hx, hlt.trans_le hend⟩
        · exact ⟨hle.trans hx, hlt⟩
      · rintro ⟨hx, hlt⟩
        rcases lt_or_ge x p.2 with hfirst | hlater
        · exact .inl ⟨hx, hfirst⟩
        · exact .inr ⟨hlater, hlt⟩

end Order

theorem Tiles.sum_length {a b : Int} {ps : List (Int × Int)} (h : Tiles a ps b) :
    (ps.map fun p => p.2 - p.1).sum = b - a := by
  induction ps generalizing a with
  | nil =>
      obtain rfl : a = b := h
      simp
  | cons p ps ih =>
      obtain ⟨rfl, -, hrest⟩ := h
      rw [List.map_cons, List.sum_cons, ih hrest]
      omega

end Tiling
