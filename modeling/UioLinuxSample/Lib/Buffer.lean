import Mathlib.Tactic

set_option autoImplicit false

/-! # A buffer of fixed size

A local array of a C function, with the cells that have not been written yet. `fill` is `memset`:
it fails if it would leave the buffer, which a negative length also does, as `memset` takes it for a
very large one. `text` reads a string up to its terminator, and fails at a cell without a value.
-/

namespace Buffer

variable {α : Type}

/-- A new buffer, with nothing written. -/
def fresh (α : Type) (size : Nat) : List (Option α) := List.replicate size none

def fill (buf : List (Option α)) (start : Int) (a : α) (n : Int) : Option (List (Option α)) :=
  if 0 ≤ start ∧ 0 ≤ n ∧ start + n ≤ buf.length then
    some (buf.take start.toNat ++ List.replicate n.toNat (some a) ++ buf.drop (start + n).toNat)
  else none

def text [DecidableEq α] (nul : α) : List (Option α) → Option (List α)
  | [] => none
  | none :: _ => none
  | some a :: buf => if a = nul then some [] else (text nul buf).map (a :: ·)

/-- Filling the first cells of what is not written yet. -/
theorem fill_fresh (written : List (Option α)) (a : α) (n rest : Nat) :
    fill (written ++ fresh α (n + rest)) written.length a n
      = some (written ++ List.replicate n (some a) ++ fresh α rest) := by
  have hlen : (written ++ fresh α (n + rest)).length = written.length + (n + rest) := by
    simp [fresh]
  have hend : ((written.length : Int) + n).toNat = written.length + n := by omega
  rw [fill, if_pos (by rw [hlen]; omega), hend, Int.toNat_natCast, Int.toNat_natCast,
    List.take_left, List.drop_append, fresh, fresh]
  simp

theorem text_of_terminated [DecidableEq α] {nul : α} {as : List α} (h : nul ∉ as)
    (buf : List (Option α)) : text nul (as.map some ++ some nul :: buf) = some as := by
  induction as with
  | nil => simp [text]
  | cons a as ih =>
      rw [List.mem_cons, not_or] at h
      rw [List.map_cons, List.cons_append, text, if_neg (Ne.symm h.1), ih h.2]
      rfl

end Buffer
