import Mathlib.Tactic
import Mathlib.Data.Nat.Digits.Defs

set_option autoImplicit false

/-! # Hexadecimal numbers

`value` reads a text of hexadecimal digits, and `padded` writes a number with lower-case digits and
zeros in front of them. What is written is read back as the same number (`value_padded`).
-/

namespace Hex

/-- The value of a digit. -/
def digitValue (c : Char) : Option Nat :=
  if '0' ≤ c ∧ c ≤ '9' then some (c.toNat - 48)
  else if 'a' ≤ c ∧ c ≤ 'f' then some (c.toNat - 87)
  else if 'A' ≤ c ∧ c ≤ 'F' then some (c.toNat - 55)
  else none

def isDigit (c : Char) : Bool := (digitValue c).isSome

def value (s : List Char) : Nat := s.foldl (fun n c => 16 * n + (digitValue c).getD 0) 0

def digitChar (d : Nat) : Char := if d < 10 then Char.ofNat (48 + d) else Char.ofNat (87 + d)

def written (n : Nat) : List Char := ((Nat.digits 16 n).map digitChar).reverse

def padded (width n : Nat) : List Char := (written n).leftpad width '0'

theorem digitValue_digitChar : ∀ d < 16, digitValue (digitChar d) = some d := by decide

theorem isDigit_digitChar {d : Nat} (h : d < 16) : isDigit (digitChar d) = true := by
  rw [isDigit, digitValue_digitChar d h]
  rfl

theorem le_toNat_of_isDigit {c : Char} (h : isDigit c = true) : 48 ≤ c.toNat := by
  have hlow : ∀ {a : Char}, 48 ≤ a.toNat → a ≤ c → 48 ≤ c.toNat := by
    intro a ha hac
    exact ha.trans (UInt32.le_iff_toNat_le.mp (Char.le_def.mp hac))
  unfold isDigit digitValue at h
  split_ifs at h with hdigit hlower hupper
  · exact hlow (by decide) hdigit.1
  · exact hlow (by decide) hlower.1
  · exact hlow (by decide) hupper.1
  · cases h

theorem value_append_singleton (s : List Char) (c : Char) :
    value (s ++ [c]) = 16 * value s + (digitValue c).getD 0 := by
  rw [value, List.foldl_append]
  rfl

theorem value_zeros (k : Nat) (s : List Char) : value (List.replicate k '0' ++ s) = value s := by
  have hzero : value (List.replicate k '0') = 0 := by
    induction k with
    | zero => rfl
    | succ k ih =>
        rw [List.replicate_succ', value_append_singleton, ih]
        rfl
  rw [value, List.foldl_append]
  exact congrArg (fun n => s.foldl _ n) hzero

theorem value_reverse {ds : List Nat} (h : ∀ d ∈ ds, d < 16) :
    value (ds.map digitChar).reverse = Nat.ofDigits 16 ds := by
  induction ds with
  | nil => rfl
  | cons d ds ih =>
      obtain ⟨hd, hds⟩ := List.forall_mem_cons.mp h
      rw [List.map_cons, List.reverse_cons, value_append_singleton, ih hds, digitValue_digitChar d hd,
        Nat.ofDigits_cons, Option.getD_some]
      exact Nat.add_comm _ _

/-- **What is written is read back.** -/
theorem value_padded (width n : Nat) : value (padded width n) = n := by
  rw [padded, List.leftpad, value_zeros, written,
    value_reverse fun d hd => Nat.digits_lt_base (by decide) hd, Nat.ofDigits_digits]

theorem isDigit_of_mem_padded {width n : Nat} {c : Char} (h : c ∈ padded width n) :
    isDigit c = true := by
  rw [padded, List.leftpad, List.mem_append] at h
  rcases h with hzero | hdigit
  · rw [List.eq_of_mem_replicate hzero]
    decide
  · rw [written, List.mem_reverse, List.mem_map] at hdigit
    obtain ⟨d, hd, rfl⟩ := hdigit
    exact isDigit_digitChar (Nat.digits_lt_base (by decide) hd)

end Hex
