import Mathlib.Tactic

set_option autoImplicit false

/-! # Counting right shifts

The loop `while (cont(delta)) { index++; delta >>= 1; }` on a 64-bit word, which the
logarithmic histograms are built on. A word is `0` after 64 shifts, so a loop whose condition
is false at `0` leaves by its condition within 64 turns: `shiftWhile_spec` says after how many.

A histogram whose buckets double in width counts `delta` in its octave over the width `step` of
the first bucket, the largest `k` with `2 ^ k * step ≤ delta`. Shifting as long as `delta ≥ step`
finds it (`IsOctave.halvings_ge`). Shifting as long as `delta > step` does not, for the numbers at
the lower end of an octave (`IsOctave.halvings_gt`).
-/

/-- `while (cont(delta)) { index++; delta >>= 1; }`, for at most `fuel` turns: the final
`index`. -/
def shiftWhile (cont : UInt64 → Bool) : Nat → UInt64 → Nat → Nat
  | 0, _, index => index
  | fuel + 1, delta, index =>
      if cont delta then shiftWhile cont fuel (delta >>> 1) (index + 1) else index

/-- The word after `k` right shifts. -/
def shifted (delta : UInt64) (k : Nat) : UInt64 := UInt64.ofNat (delta.toNat / 2 ^ k)

theorem shifted_zero (delta : UInt64) : shifted delta 0 = delta := by
  simp [shifted]

theorem shifted_shiftRight_one (delta : UInt64) (k : Nat) :
    shifted (delta >>> 1) k = shifted delta (k + 1) := by
  have h : (delta >>> 1).toNat = delta.toNat / 2 := by
    rw [UInt64.toNat_shiftRight]
    simp [Nat.shiftRight_eq_div_pow]
  rw [shifted, shifted, h, Nat.div_div_eq_div_mul, pow_succ, Nat.mul_comm]

/-- **The loop leaves by its condition.** With as many turns as the word has bits, the loop
adds the first number of shifts at which the condition fails. -/
theorem shiftWhile_spec {cont : UInt64 → Bool} (h0 : cont 0 = false) :
    ∀ (fuel : Nat) (delta : UInt64) (index : Nat), delta.toNat < 2 ^ fuel →
      ∃ k ≤ fuel, shiftWhile cont fuel delta index = index + k
        ∧ cont (shifted delta k) = false ∧ ∀ j < k, cont (shifted delta j) = true := by
  intro fuel
  -- a turn halves the word, so the bound on it loses a factor of two together with the fuel
  induction fuel with
  | zero =>
      intro delta index hlt
      have hz : delta = 0 := UInt64.toNat_inj.mp (by simpa using hlt)
      exact ⟨0, Nat.le_refl _, rfl, by rw [hz, shifted_zero, h0], by omega⟩
  | succ fuel ih =>
      intro delta index hlt
      rw [shiftWhile]
      by_cases hc : cont delta = true
      · have hhalf : (delta >>> 1).toNat < 2 ^ fuel := by
          rw [UInt64.toNat_shiftRight]
          simp only [Nat.shiftRight_eq_div_pow, UInt64.toNat_one, Nat.one_mod, pow_one]
          rw [pow_succ] at hlt
          omega
        obtain ⟨k, hk, hrun, hend, hbefore⟩ := ih (delta >>> 1) (index + 1) hhalf
        refine ⟨k + 1, by omega, ?_, ?_, ?_⟩
        · rw [if_pos hc, hrun]; omega
        · rwa [← shifted_shiftRight_one]
        · intro j hj
          cases j with
          | zero => rwa [shifted_zero]
          | succ j =>
              rw [← shifted_shiftRight_one]
              exact hbefore j (by omega)
      · refine ⟨0, Nat.zero_le _, if_neg hc, ?_, by omega⟩
        rw [shifted_zero]
        simpa using hc

/-- The loop on a whole word from index `0`, with at least as many turns as the word has bits. -/
theorem shiftWhile_turns (cont : UInt64 → Bool) (h0 : cont 0 = false) (delta : UInt64) {fuel : Nat}
    (hfuel : 64 ≤ fuel) :
    cont (shifted delta (shiftWhile cont fuel delta 0)) = false
      ∧ ∀ j < shiftWhile cont fuel delta 0, cont (shifted delta j) = true := by
  have hlt : delta.toNat < 2 ^ fuel :=
    delta.toNat_lt.trans_le (Nat.pow_le_pow_right (by decide) hfuel)
  obtain ⟨k, _, hrun, hend, hbefore⟩ := shiftWhile_spec h0 fuel delta 0 hlt
  rw [hrun, Nat.zero_add]
  exact ⟨hend, hbefore⟩

theorem shiftWhile_word (cont : UInt64 → Bool) (h0 : cont 0 = false) (delta : UInt64) :
    cont (shifted delta (shiftWhile cont 64 delta 0)) = false
      ∧ ∀ j < shiftWhile cont 64 delta 0, cont (shifted delta j) = true :=
  shiftWhile_turns cont h0 delta le_rfl

/-- The index is capped at the last entry. -/
theorem capped_eq_min {entries : Nat} (hpos : 0 < entries) (index : Nat) :
    (if index ≥ entries then entries - 1 else index) = min index (entries - 1) := by
  split <;> omega

/-! ## Octaves -/

theorem toNat_shifted (delta : UInt64) (k : Nat) :
    (shifted delta k).toNat = delta.toNat / 2 ^ k := by
  unfold shifted
  rw [UInt64.toNat_ofNat']
  exact Nat.mod_eq_of_lt ((Nat.div_le_self _ _).trans_lt delta.toNat_lt)

/-- `k` is the largest number with `2 ^ k * step ≤ delta`. -/
structure IsOctave (step delta k : Nat) : Prop where
  le : 2 ^ k * step ≤ delta
  largest : ∀ j, 2 ^ j * step ≤ delta → j ≤ k

section Octave

variable {step delta k : Nat}

theorem IsOctave.lt (h : IsOctave step delta k) : delta < 2 ^ (k + 1) * step := by
  by_contra hge
  have hle := h.largest (k + 1) (not_lt.mp hge)
  omega

theorem isOctave_of_lt (hle : 2 ^ k * step ≤ delta) (hlt : delta < 2 ^ (k + 1) * step) :
    IsOctave step delta k where
  le := hle
  largest := by
    intro j hj
    by_contra hkj
    have hpow : 2 ^ (k + 1) ≤ 2 ^ j := Nat.pow_le_pow_right (by decide) (by omega)
    have hmul : 2 ^ (k + 1) * step ≤ 2 ^ j * step := Nat.mul_le_mul_right _ hpow
    omega

theorem IsOctave.unique {j : Nat} (h : IsOctave step delta k) (h' : IsOctave step delta j) :
    k = j :=
  le_antisymm (h'.largest k h.le) (h.largest j h'.le)

/-- An octave by halvings. -/
theorem isOctave_iff : IsOctave step delta k ↔ step ≤ delta / 2 ^ k ∧ delta / 2 ^ (k + 1) < step := by
  rw [Nat.le_div_iff_mul_le (Nat.two_pow_pos k), Nat.div_lt_iff_lt_mul (Nat.two_pow_pos _),
    Nat.mul_comm step, Nat.mul_comm step]
  exact ⟨fun h => ⟨h.le, h.lt⟩, fun ⟨hle, hlt⟩ => isOctave_of_lt hle hlt⟩

theorem exists_isOctave (hstep : 0 < step) (hle : step ≤ delta) : ∃ k, IsOctave step delta k := by
  have hq : delta / step ≠ 0 := (Nat.div_pos hle hstep).ne'
  refine ⟨Nat.log 2 (delta / step), isOctave_of_lt ?_ ?_⟩
  · rw [← Nat.le_div_iff_mul_le hstep]
    exact Nat.pow_log_le_self 2 hq
  · rw [← Nat.div_lt_iff_lt_mul hstep]
    exact Nat.lt_pow_succ_log_self (by decide) _

/-- Over the step `1` the octave is the logarithm. -/
theorem isOctave_log (h : 1 ≤ delta) : IsOctave 1 delta (Nat.log 2 delta) := by
  apply isOctave_of_lt
  · rw [Nat.mul_one]
    exact Nat.pow_log_le_self 2 (by omega)
  · rw [Nat.mul_one]
    exact Nat.lt_pow_succ_log_self (by decide) delta

theorem IsOctave.pow_mul_le_iff (h : IsOctave step delta k) {i : Nat} :
    2 ^ i * step ≤ delta ↔ i ≤ k := by
  constructor
  · exact h.largest i
  · intro hik
    exact (Nat.mul_le_mul_right _ (Nat.pow_le_pow_right (by decide) hik)).trans h.le

theorem IsOctave.lt_pow_mul_iff (h : IsOctave step delta k) {i : Nat} :
    delta < 2 ^ (i + 1) * step ↔ k ≤ i := by
  rw [← not_le, h.pow_mul_le_iff]
  omega

/-- Before its octave a number is at least twice the step. -/
theorem IsOctave.two_mul_le {j : Nat} (h : IsOctave step delta k) (hj : j < k) :
    2 * step ≤ delta / 2 ^ j := by
  rw [Nat.le_div_iff_mul_le (Nat.two_pow_pos j)]
  calc 2 * step * 2 ^ j = 2 ^ (j + 1) * step := by ring
    _ ≤ delta := h.pow_mul_le_iff.mpr hj

/-- After its octave a number is below the step. -/
theorem IsOctave.div_lt {j : Nat} (h : IsOctave step delta k) (hj : k < j) :
    delta / 2 ^ j < step := by
  have hmono : delta / 2 ^ j ≤ delta / 2 ^ (k + 1) :=
    Nat.div_le_div_left (Nat.pow_le_pow_right (by decide) hj) (Nat.two_pow_pos _)
  exact hmono.trans_lt (isOctave_iff.mp h).2

end Octave

/-! ## The two loops

Both loops look at `delta >> 1` first: their first shift is unconditional. -/

section Loops

variable {step delta : UInt64} {k : Nat}

/-- **Shifting down to below the step counts to the octave**, with 64 turns or more. -/
theorem IsOctave.halvings_ge (hstep : 0 < step) (h : IsOctave step.toNat delta.toNat k)
    {fuel : Nat} (hfuel : 64 ≤ fuel) :
    shiftWhile (fun d => decide (d ≥ step)) fuel (delta >>> 1) 0 = k := by
  have hzero : decide ((0 : UInt64) ≥ step) = false := decide_eq_false (UInt64.not_le.mpr hstep)
  obtain ⟨hend, hbefore⟩ :=
    shiftWhile_turns (fun d => decide (d ≥ step)) hzero (delta >>> 1) hfuel
  generalize shiftWhile (fun d => decide (d ≥ step)) fuel (delta >>> 1) 0 = n at hend hbefore ⊢
  simp only [shifted_shiftRight_one, ge_iff_le, decide_eq_false_iff_not, decide_eq_true_eq,
    UInt64.le_iff_toNat_le, toNat_shifted, not_le] at hend hbefore
  refine IsOctave.unique (isOctave_iff.mpr ⟨?_, hend⟩) h
  -- the last turn saw the word before; without a turn, the octave is at least the first
  cases n with
  | zero => simpa using (Nat.le_mul_of_pos_left _ (Nat.two_pow_pos k)).trans h.le
  | succ n => exact hbefore n (Nat.lt_succ_self n)

/-- **Shifting down to the step or below** counts one less for a number that is shifted to the
step itself. -/
theorem IsOctave.halvings_gt (hstep : 0 < step) (h : IsOctave step.toNat delta.toNat k) :
    shiftWhile (fun d => decide (d > step)) 64 (delta >>> 1) 0
      = if delta.toNat / 2 ^ k = step.toNat then k - 1 else k := by
  have hzero : decide ((0 : UInt64) > step) = false := by simp
  have hpos : 0 < step.toNat := UInt64.lt_iff_toNat_lt.mp hstep
  obtain ⟨hend, hbefore⟩ := shiftWhile_word (fun d => decide (d > step)) hzero (delta >>> 1)
  generalize shiftWhile (fun d => decide (d > step)) 64 (delta >>> 1) 0 = n at hend hbefore ⊢
  simp only [shifted_shiftRight_one, gt_iff_lt, decide_eq_false_iff_not, decide_eq_true_eq,
    UInt64.lt_iff_toNat_lt, toNat_shifted, not_lt] at hend hbefore
  have hle : n ≤ k := by
    by_contra hkn
    have hlast := hbefore k (not_le.mp hkn)
    have hnext := (isOctave_iff.mp h).2
    omega
  have hge : k ≤ n + 1 := by
    by_contra hnk
    have htwice := h.two_mul_le (not_le.mp hnk)
    omega
  by_cases heq : delta.toNat / 2 ^ k = step.toNat
  · rw [if_pos heq]
    have hne : k ≠ 0 → n ≠ k := by
      rintro hk rfl
      have hlast := hbefore (n - 1) (by omega)
      rw [Nat.sub_add_cancel (Nat.pos_of_ne_zero hk)] at hlast
      omega
    omega
  · rw [if_neg heq]
    have hne : n + 1 ≠ k := by
      rintro rfl
      have hk := (isOctave_iff.mp h).1
      omega
    omega

end Loops
