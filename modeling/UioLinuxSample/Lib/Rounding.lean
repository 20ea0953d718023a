import Mathlib.Data.Int.Log
import Mathlib.Tactic

set_option autoImplicit false

/-! # Rounding to a number of significant bits

The result of an operation on floating-point numbers is the exact result, rounded to a number with `p`
significant bits, to the nearest one and to the even one of two (`roundTo`). The range of the exponent
is not bounded here.

* A number that has no more than `p` bits is not changed (`Representable.roundTo_eq`).
* Rounding keeps the order (`roundTo_mono`).
* So a comparison with a number of `p` bits has the same result after rounding as before, if the
  number is not too close to it (`roundTo_lt_iff`, `lt_roundTo_iff`).
-/

namespace Rounding

variable {K : Type*} [Field K]

/-- The number has at most `p` significant bits. -/
def Representable (p : ℕ) (x : K) : Prop := ∃ m e : ℤ, |m| < 2 ^ p ∧ x = m * 2 ^ e

theorem representable_intCast {p : ℕ} {m : ℤ} (hm : |m| < 2 ^ p) : Representable p (m : K) :=
  ⟨m, 0, hm, by simp⟩

/-- An integer that is not too large, over a power of two. -/
theorem representable_intCast_div {p : ℕ} {m : ℤ} (hm : |m| < 2 ^ p) (k : ℕ) :
    Representable p ((m : K) / 2 ^ k) := by
  refine ⟨m, -k, hm, ?_⟩
  rw [zpow_neg, zpow_natCast, div_eq_mul_inv]

variable [LinearOrder K] [FloorRing K]

/-- The nearest integer, the even one of two. -/
def nearest (x : K) : ℤ :=
  if x - ⌊x⌋ < 1 / 2 then ⌊x⌋
  else if 1 / 2 < x - ⌊x⌋ then ⌊x⌋ + 1
  else if Even ⌊x⌋ then ⌊x⌋ else ⌊x⌋ + 1

theorem floor_le_nearest (x : K) : ⌊x⌋ ≤ nearest x := by
  unfold nearest
  split_ifs <;> omega

theorem nearest_le_floor_add_one (x : K) : nearest x ≤ ⌊x⌋ + 1 := by
  unfold nearest
  split_ifs <;> omega

variable [IsStrictOrderedRing K]

/-- The place of the last of `p` significant bits. -/
def lastBit (p : ℕ) (x : K) : ℤ := Int.log 2 |x| + 1 - p

/-- The number with `p` significant bits that is nearest to `x`. -/
def roundTo (p : ℕ) (x : K) : K := nearest (x / 2 ^ lastBit p x) * 2 ^ lastBit p x

variable {p : ℕ} {x y c c' : K}

@[simp] theorem nearest_intCast (m : ℤ) : nearest (m : K) = m := by
  simp [nearest]

theorem nearest_mono (h : x ≤ y) : nearest x ≤ nearest y := by
  rcases (Int.floor_le_floor h).lt_or_eq with hlt | heq
  · have hx := nearest_le_floor_add_one x
    have hy := floor_le_nearest y
    omega
  · -- between the same two integers
    unfold nearest
    rw [heq]
    split_ifs <;> first | omega | linarith

theorem two_zpow_pos (e : ℤ) : (0 : K) < 2 ^ e := zpow_pos two_pos e

theorem Representable.roundTo_eq (h : Representable p x) : roundTo p x = x := by
  obtain ⟨m, e, hm, rfl⟩ := h
  rcases eq_or_ne m 0 with rfl | hne
  · simp [roundTo, nearest]
  · -- the last bit is not before the place `e`, so that all bits are kept
    have habs : (0 : K) < |(m : K) * 2 ^ e| := by
      rw [abs_pos]
      exact mul_ne_zero (Int.cast_ne_zero.mpr hne) (two_zpow_pos e).ne'
    have hlt : |(m : K) * 2 ^ e| < (2 : ℕ) ^ ((p : ℤ) + e) := by
      have hpow : |(2 : K) ^ e| = 2 ^ e := abs_of_pos (two_zpow_pos e)
      rw [abs_mul, hpow, Nat.cast_two, zpow_add₀ two_ne_zero, zpow_natCast]
      refine mul_lt_mul_of_pos_right ?_ (two_zpow_pos e)
      exact_mod_cast hm
    have hlog := (Int.lt_zpow_iff_log_lt one_lt_two habs).mp hlt
    obtain ⟨k, hk⟩ : ∃ k : ℕ, e = lastBit p ((m : K) * 2 ^ e) + k := by
      unfold lastBit
      exact Int.le.dest (by omega) |>.imp fun k hk => hk.symm
    unfold roundTo
    generalize lastBit p ((m : K) * 2 ^ e) = b at hk ⊢
    have hquot : (m : K) * 2 ^ e / 2 ^ b = ((m * 2 ^ k : ℤ) : K) := by
      rw [hk, zpow_add₀ two_ne_zero, zpow_natCast, div_eq_iff (two_zpow_pos b).ne']
      push_cast
      ring
    rw [hquot, nearest_intCast, ← hquot, div_mul_cancel₀ _ (two_zpow_pos b).ne']

theorem roundTo_nonneg (p : ℕ) (h : 0 ≤ x) : 0 ≤ roundTo p x := by
  have hquot : (0 : K) ≤ x / 2 ^ lastBit p x := div_nonneg h (two_zpow_pos _).le
  have hfloor : 0 ≤ ⌊x / 2 ^ lastBit p x⌋ := Int.floor_nonneg.mpr hquot
  have hnearest := hfloor.trans (floor_le_nearest _)
  exact mul_nonneg (by exact_mod_cast hnearest) (two_zpow_pos _).le

/-- What is rounded stays between the powers of two around it. -/
theorem roundTo_mem (hp : 0 < p) (hx : 0 < x) :
    (2 : K) ^ Int.log 2 x ≤ roundTo p x ∧ roundTo p x ≤ 2 ^ (Int.log 2 x + 1) := by
  have hlow : (2 : K) ^ Int.log 2 x ≤ x := by
    exact_mod_cast Int.zpow_log_le_self one_lt_two hx
  have hhigh : x < 2 ^ (Int.log 2 x + 1) := by
    exact_mod_cast Int.lt_zpow_succ_log_self one_lt_two x
  obtain ⟨n, rfl⟩ : ∃ n, p = n + 1 := ⟨p - 1, by omega⟩
  unfold roundTo lastBit
  rw [abs_of_pos hx]
  obtain ⟨b, hb⟩ : ∃ b, b = Int.log 2 x + 1 - ((n + 1 : ℕ) : ℤ) := ⟨_, rfl⟩
  have hlog : Int.log 2 x = n + b := by
    push_cast at hb
    omega
  have hlog' : Int.log 2 x + 1 = (n + 1 : ℕ) + b := by omega
  rw [← hb]
  rw [hlog, zpow_add₀ two_ne_zero, zpow_natCast] at hlow ⊢
  rw [hlog', zpow_add₀ two_ne_zero, zpow_natCast] at hhigh
  have hlow' : ((2 ^ n : ℤ) : K) ≤ x / 2 ^ b := by
    rw [le_div_iff₀ (two_zpow_pos b)]
    exact_mod_cast hlow
  have hhigh' : x / 2 ^ b ≤ ((2 ^ (n + 1) : ℤ) : K) := by
    rw [div_le_iff₀ (two_zpow_pos b)]
    exact_mod_cast hhigh.le
  have hnear := nearest_mono hlow'
  have hnear' := nearest_mono hhigh'
  rw [nearest_intCast] at hnear hnear'
  constructor
  · refine mul_le_mul_of_nonneg_right ?_ (two_zpow_pos b).le
    exact_mod_cast hnear
  · have hpow : (2 : K) ^ ((n : ℤ) + b + 1) = 2 ^ (n + 1) * 2 ^ b := by
      rw [← zpow_natCast, ← zpow_add₀ two_ne_zero]
      congr 1
      push_cast
      ring
    rw [hpow]
    refine mul_le_mul_of_nonneg_right ?_ (two_zpow_pos b).le
    exact_mod_cast hnear'

/-- **Rounding keeps the order.** -/
theorem roundTo_mono (hp : 0 < p) (hx : 0 ≤ x) (h : x ≤ y) : roundTo p x ≤ roundTo p y := by
  rcases hx.eq_or_lt with rfl | hx
  · have hzero : roundTo p (0 : K) = 0 := by simp [roundTo, nearest]
    rw [hzero]
    exact roundTo_nonneg p h
  · have hy := hx.trans_le h
    rcases (Int.log_mono_right (b := 2) hx h).lt_or_eq with hlt | heq
    · -- a power of two lies between the two
      calc roundTo p x ≤ 2 ^ (Int.log 2 x + 1) := (roundTo_mem hp hx).2
        _ ≤ 2 ^ Int.log 2 y := zpow_le_zpow_right₀ one_le_two hlt
        _ ≤ roundTo p y := (roundTo_mem hp hy).1
    · have hbit : lastBit p x = lastBit p y := by
        unfold lastBit
        rw [abs_of_pos hx, abs_of_pos hy, heq]
      unfold roundTo
      rw [hbit]
      refine mul_le_mul_of_nonneg_right ?_ (two_zpow_pos _).le
      exact_mod_cast nearest_mono (div_le_div_of_nonneg_right h (two_zpow_pos _).le)

/-- **Comparing after rounding.** It makes no difference if there is a number of `p` bits between `x`
and `c`. -/
theorem roundTo_lt_iff (hp : 0 < p) (hx : 0 ≤ x) (hc0 : 0 ≤ c) (hc : Representable p c)
    (hc' : Representable p c') (hlt : c' < c) (hgap : x < c → x ≤ c') :
    roundTo p x < c ↔ x < c := by
  constructor
  · intro h
    by_contra hnot
    have hle := roundTo_mono hp hc0 (not_lt.mp hnot)
    rw [hc.roundTo_eq] at hle
    exact absurd h (not_lt.mpr hle)
  · intro h
    have hle := roundTo_mono hp hx (hgap h)
    rw [hc'.roundTo_eq] at hle
    exact hle.trans_lt hlt

theorem lt_roundTo_iff (hp : 0 < p) (hx : 0 ≤ x) (hc0 : 0 ≤ c) (hc : Representable p c)
    (hc' : Representable p c') (hlt : c < c') (hgap : c < x → c' ≤ x) :
    c < roundTo p x ↔ c < x := by
  constructor
  · intro h
    by_contra hnot
    have hle := roundTo_mono hp hx (not_lt.mp hnot)
    rw [hc.roundTo_eq] at hle
    exact absurd h (not_lt.mpr hle)
  · intro h
    have hle := roundTo_mono hp (hc0.trans hlt.le) (hgap h)
    rw [hc'.roundTo_eq] at hle
    exact hlt.trans_le hle

end Rounding
