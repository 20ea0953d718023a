import Mathlib.Data.Int.Bitwise
import UioLinuxSample.Lib.DeadBand
import UioLinuxSample.Lib.Rounding

set_option autoImplicit false

/-! # The balloon daemon (`libvirt-autoballoon.py`)

Every second the daemon compares what each guest has free with what it should keep free, and gives it
more memory or takes some away, a quarter of what the guest uses at a time. This file models the daemon
and the loop it closes with guests that use a constant amount of memory: `Guest.round` is one pass of
the daemon over a guest that follows the request before the next pass.

Sizes are in KiB. The program computes `keep_usable`, the ratio and the step with floating point, and
so does the model (`float`). For guests of at most 2^49 KiB the comparisons of the ratio have the result
that they have for the exact quotient (`ratio_lt_one_iff`, `lt_ratio_iff`), and the loop is then one with
a dead band.
-/

namespace UioLinuxSample.Autoballoon

open Function

def sz1MiB : ℤ := 1024

def sz32MiB : ℤ := 32768

def thresholdRatio : ℚ := 1 / 4

/-- A Python `float`: the exact value, rounded to 53 significant bits. -/
def float (x : ℚ) : ℚ := Rounding.roundTo 53 x

/-- Python's `int` of a number. -/
def truncate (x : ℚ) : ℤ := if 0 ≤ x then ⌊x⌋ else ⌈x⌉

/-- What `memoryStats` reports. The guest's driver may be silent about either number. -/
structure MemoryStats where
  actual : Option ℤ
  unused : Option ℤ

structure Dom (ν : Type*) where
  name : ν
  total : ℤ
  stats : MemoryStats

/-- An entry of `"vms"` in the configuration file. -/
structure Vm (ν : Type*) where
  name : ν
  balloon : Bool
  keepFreeKb : Option ℤ

section Daemon

variable {ν : Type*}

/-- The names `__load_config` collects. -/
def allowedVms (config : List (Vm ν)) : List ν := (config.filter (·.balloon)).map (·.name)

def alignDown (x a : ℤ) : ℤ := Int.land x (Int.lnot (a - 1))

def Dom.ramActual (dom : Dom ν) : ℤ := dom.stats.actual.getD 0

def Dom.ramUnused (dom : Dom ν) : ℤ := dom.stats.unused.getD 0

def Dom.ramUsed (dom : Dom ν) : ℤ := dom.ramActual - dom.ramUnused

variable [DecidableEq ν]

/-- One entry of the configuration in the loop of `dom_keep_usable`. -/
def keepOf (name : ν) (keep : ℚ) (vm : Vm ν) : ℚ :=
  if vm.name = name then
    match vm.keepFreeKb with
    | some kb => if kb = 0 then keep else kb
    | none => keep
  else keep

/-- A `float`, if no entry of the configuration says otherwise, or an `int`. Comparing the two is
exact. -/
def domKeepUsable (config : List (Vm ν)) (name : ν) (total : ℤ) : ℚ :=
  let keep := config.foldl (keepOf name) (float (float total * thresholdRatio))
  if keep > total then total else keep

/-- With nothing to be kept the program ends here, with a `ZeroDivisionError`. The results below are
about guests that keep something. -/
def domUsableRatio (config : List (Vm ν)) (dom : Dom ν) : ℚ :=
  float (float dom.ramUnused / float (domKeepUsable config dom.name dom.total))

/-- What `dom_balloon` passes to `setMemory`. -/
def domBalloon (dom : Dom ν) (restrictTo : ℤ) : ℤ :=
  if restrictTo > dom.total then dom.total else restrictTo

/-- By how much a guest that uses `used` is changed. -/
def stepSize (used : ℤ) : ℤ :=
  let diff := alignDown (truncate (float (float used * thresholdRatio))) sz32MiB
  if diff = 0 then sz1MiB else diff

/-- The call of `setMemory`, if there is one. -/
def processDomain (config : List (Vm ν)) (dom : Dom ν) : Option ℤ :=
  if dom.name ∉ allowedVms config then none
  else if dom.ramActual ≠ dom.ramUsed then
    let diff := stepSize dom.ramUsed
    let ratioCurrent := domUsableRatio config dom
    if ratioCurrent < 1 ∧ dom.ramActual < dom.total then
      some (domBalloon dom (dom.ramActual + diff))
    else if ratioCurrent > 3 / 2 ∧ dom.ramActual > domKeepUsable config dom.name dom.total then
      some (domBalloon dom (dom.ramActual - diff))
    else none
  else none

end Daemon

/-! ## The loop -/

/-- A guest that uses a constant amount of memory. -/
structure Guest (ν : Type*) where
  name : ν
  total : ℤ
  used : ℤ
  actual : ℤ

namespace Guest

variable {ν : Type*}

/-- What the guest needs is there, and it is within what the guest may have, which is not more than the
program can compute with. -/
structure Fits (g : Guest ν) : Prop where
  used_nonneg : 0 ≤ g.used
  used_le : g.used ≤ g.actual
  actual_le : g.actual ≤ g.total
  total_le : g.total ≤ 2 ^ 49

instance (g : Guest ν) : Decidable g.Fits :=
  decidable_of_iff (0 ≤ g.used ∧ g.used ≤ g.actual ∧ g.actual ≤ g.total ∧ g.total ≤ 2 ^ 49)
    ⟨fun h => ⟨h.1, h.2.1, h.2.2.1, h.2.2.2⟩, fun h => ⟨h.1, h.2, h.3, h.4⟩⟩

/-- By how much the daemon changes the guest: a quarter of what it uses, in pieces of 32 MiB, or 1 MiB. -/
def step (g : Guest ν) : ℤ := if g.used < 131072 then 1024 else 32768 * (g.used / 131072)

/-- The memory the guest does not use. -/
def free (g : Guest ν) : ℤ := g.actual - g.used

/-- The guest as `libvirt` shows it. -/
def dom (g : Guest ν) : Dom ν := ⟨g.name, g.total, ⟨some g.actual, some g.free⟩⟩

@[simp] theorem ramActual_dom (g : Guest ν) : g.dom.ramActual = g.actual := rfl

@[simp] theorem ramUnused_dom (g : Guest ν) : g.dom.ramUnused = g.free := rfl

@[simp] theorem ramUsed_dom (g : Guest ν) : g.dom.ramUsed = g.used := by
  simp [Dom.ramUsed, free]

theorem cast_free (g : Guest ν) : (g.free : ℚ) = g.actual - g.used := by
  unfold free
  push_cast
  rfl

theorem domBalloon_dom (g : Guest ν) (n : ℤ) : domBalloon g.dom n = min n g.total := by
  simp only [domBalloon, dom]
  split_ifs <;> omega

variable [DecidableEq ν]

def keep (config : List (Vm ν)) (g : Guest ν) : ℚ := domKeepUsable config g.name g.total

/-- One pass of the daemon, with the guest's response. -/
def round (config : List (Vm ν)) (g : Guest ν) : Guest ν :=
  match processDomain config g.dom with
  | some restrictTo => { g with actual := restrictTo }
  | none => g

end Guest

/-- One pass over all the domains. -/
def round {ν : Type*} [DecidableEq ν] (config : List (Vm ν)) (gs : List (Guest ν)) :
    List (Guest ν) := gs.map (Guest.round config)

/-! ## The size of a step -/

theorem ldiff_two_pow_sub_one (m k : ℕ) : Nat.ldiff m (2 ^ k - 1) = 2 ^ k * (m / 2 ^ k) := by
  apply Nat.eq_of_testBit_eq
  intro i
  rw [Nat.testBit_ldiff, Nat.testBit_two_pow_sub_one, Nat.testBit_two_pow_mul, Nat.testBit_div_two_pow]
  by_cases h : i < k
  · simp [h]
  · simp [h, Nat.sub_add_cancel (not_lt.1 h), not_lt.1 h]

theorem alignDown_natCast (m : ℕ) : alignDown m sz32MiB = 32768 * (m / 32768 : ℕ) := by
  show ((Nat.ldiff m (2 ^ 15 - 1) : ℕ) : ℤ) = _
  rw [ldiff_two_pow_sub_one]
  push_cast
  rfl

/-! ## The numbers are exact -/

section Exact

theorem float_intCast {m : ℤ} (hm : |m| < 2 ^ 53) : float m = m :=
  (Rounding.representable_intCast hm).roundTo_eq

theorem float_quarter {m : ℤ} (hm : |m| < 2 ^ 53) : float (m / 4) = m / 4 := by
  have hrep := (Rounding.representable_intCast_div (K := ℚ) hm 2).roundTo_eq
  norm_num at hrep
  exact hrep

theorem float_mul_ratio {m : ℤ} (hm : |m| < 2 ^ 53) : float (float m * thresholdRatio) = m / 4 := by
  have hmul : (m : ℚ) * thresholdRatio = m / 4 := by
    unfold thresholdRatio
    ring
  rw [float_intCast hm, hmul, float_quarter hm]

/-- A quarter of the used memory, in whole pieces of 32 MiB. -/
theorem stepSize_eq {used : ℤ} (h : 0 ≤ used) (hle : used ≤ 2 ^ 49) :
    stepSize used = if used < 131072 then 1024 else 32768 * (used / 131072) := by
  have habs : |used| < 2 ^ 53 := by
    rw [abs_of_nonneg h]
    omega
  have hnonneg : (0 : ℚ) ≤ used / 4 := div_nonneg (by exact_mod_cast h) (by norm_num)
  have hfloor : ⌊(used : ℚ) / 4⌋ = used / 4 := by
    exact_mod_cast Rat.floor_intCast_div_natCast used 4
  obtain ⟨m, hm⟩ := Int.eq_ofNat_of_zero_le (by omega : 0 ≤ used / 4)
  simp only [stepSize, float_mul_ratio habs, truncate, if_pos hnonneg, hfloor, hm, alignDown_natCast,
    sz1MiB]
  split_ifs <;> omega

variable {ν : Type*} [DecidableEq ν]

/-- What is to be kept is a number of quarters of a KiB. -/
theorem foldl_keepOf_quarters (config : List (Vm ν)) (name : ν) {keep : ℚ} (h : ∃ m : ℤ, keep = m / 4) :
    ∃ m : ℤ, config.foldl (keepOf name) keep = m / 4 := by
  induction config generalizing keep with
  | nil => exact h
  | cons vm config ih =>
      refine ih ?_
      unfold keepOf
      split
      · cases vm.keepFreeKb with
        | none => exact h
        | some kb =>
            dsimp only
            split
            · exact h
            · refine ⟨4 * kb, ?_⟩
              push_cast
              ring
      · exact h

theorem domKeepUsable_quarters (config : List (Vm ν)) (name : ν) {total : ℤ} (h : 0 ≤ total)
    (hle : total ≤ 2 ^ 49) :
    ∃ m : ℤ, domKeepUsable config name total = m / 4 ∧ m ≤ 4 * total := by
  have habs : |total| < 2 ^ 53 := by
    rw [abs_of_nonneg h]
    omega
  obtain ⟨m, hm⟩ := foldl_keepOf_quarters config name ⟨total, float_mul_ratio habs⟩
  unfold domKeepUsable
  dsimp only
  rw [hm]
  split
  · refine ⟨4 * total, ?_, le_refl _⟩
    push_cast
    ring
  · next hnot =>
      refine ⟨m, rfl, ?_⟩
      have hle' : (m : ℚ) / 4 ≤ total := not_lt.mp hnot
      rw [div_le_iff₀ (by norm_num)] at hle'
      have hcast : m ≤ total * 4 := by exact_mod_cast hle'
      omega

end Exact

/-! ## A pass is an adjustment -/

namespace Guest

variable {ν : Type*} {config : List (Vm ν)} {g : Guest ν}

theorem step_pos (g : Guest ν) : 0 < g.step := by
  unfold step
  split_ifs <;> omega

theorem Fits.stepSize_eq (h : g.Fits) : stepSize g.used = g.step := by
  obtain ⟨hused, hactual, htotal, hsmall⟩ := h
  exact Autoballoon.stepSize_eq hused (by omega)

theorem Fits.free_nonneg (h : g.Fits) : 0 ≤ g.free := by
  have hle := h.used_le
  unfold free
  omega

/-- `g'` is `g` with so much memory that `u` of it is free. -/
structure Tracks (g : Guest ν) (u : ℚ) (g' : Guest ν) : Prop where
  same : g' = { g with actual := g'.actual }
  fits : g'.Fits
  pos : 0 < g'.free
  free : (g'.free : ℚ) = u

theorem Tracks.unique {u : ℚ} {a b : Guest ν} (ha : Tracks g u a) (hb : Tracks g u b) : a = b := by
  have hfree : a.free = b.free := by exact_mod_cast ha.free.trans hb.free.symm
  have hactual : a.actual = b.actual := by
    have haused : a.used = g.used := by rw [ha.same]
    have hbused : b.used = g.used := by rw [hb.same]
    unfold Guest.free at hfree
    omega
  rw [ha.same, hb.same, hactual]

theorem Fits.tracks (h : g.Fits) (hfree : g.free ≠ 0) : Tracks g g.free g := by
  refine ⟨rfl, h, ?_, rfl⟩
  have hle := h.used_le
  unfold Guest.free at hfree ⊢
  omega

variable [DecidableEq ν]

/-- The step never takes more than one and a half times what is to be kept free. -/
def Safe (config : List (Vm ν)) (g : Guest ν) : Prop :=
  2 * (g.step : ℚ) ≤ 3 * g.keep config

/-- The step is at most half of what is to be kept free. -/
def Damped (config : List (Vm ν)) (g : Guest ν) : Prop :=
  2 * (g.step : ℚ) ≤ g.keep config

instance : Decidable (g.Safe config) := inferInstanceAs (Decidable (_ ≤ _))

instance : Decidable (g.Damped config) := inferInstanceAs (Decidable (_ ≤ _))

/-- The free memory after one adjustment, with the thresholds of the program. -/
def adjusted (config : List (Vm ν)) (g : Guest ν) : ℚ → ℚ :=
  DeadBand.adjust (g.keep config) (3 / 2 * g.keep config) (g.step) (g.total - g.used)

theorem keep_pos (hsafe : g.Safe config) : 0 < g.keep config := by
  have hstep : (0 : ℚ) < g.step := by exact_mod_cast g.step_pos
  unfold Safe at hsafe
  linarith

theorem round_of_not_allowed (h : g.name ∉ allowedVms config) : g.round config = g := by
  simp [round, processDomain, dom, h]

/-- A guest without any free memory gets none. -/
theorem round_of_free_eq_zero (h : g.free = 0) : g.round config = g := by
  have heq : g.dom.ramActual = g.dom.ramUsed := by
    rw [ramActual_dom, ramUsed_dom]
    unfold free at h
    omega
  simp [round, processDomain, heq]

/-- The ratio is the rounded quotient of two exact numbers. -/
theorem ratio_eq (h : g.Fits) (hkeep : 0 < g.keep config) :
    ∃ m : ℤ, 0 < m ∧ m ≤ 2 ^ 51 ∧ g.keep config = m / 4
      ∧ domUsableRatio config g.dom = Rounding.roundTo 53 (4 * g.free / m : ℚ) := by
  obtain ⟨hused, hactual, htotal, hsmall⟩ := h
  obtain ⟨m, hm, hle⟩ := domKeepUsable_quarters config g.name (by omega : 0 ≤ g.total) hsmall
  have hkeep' : g.keep config = m / 4 := hm
  have hpos : 0 < m := by
    rw [hkeep', div_pos_iff_of_pos_right (by norm_num)] at hkeep
    exact_mod_cast hkeep
  refine ⟨m, hpos, by omega, hkeep', ?_⟩
  have hfree : |g.free| < 2 ^ 53 := by
    rw [abs_lt]
    unfold free
    omega
  have hmabs : |m| < 2 ^ 53 := by
    rw [abs_of_pos hpos]
    omega
  have hquot : (g.free : ℚ) / (m / 4) = 4 * g.free / m := by
    have hne : (m : ℚ) ≠ 0 := by exact_mod_cast hpos.ne'
    field_simp
  show float (float g.free / float (domKeepUsable config g.name g.total)) = _
  rw [hm, float_quarter hmabs, float_intCast hfree, hquot]
  rfl

/-- Rounding does not hide that the quotient is below 1: the next number below 1 is nearer to it. -/
theorem ratio_lt_one_iff (h : g.Fits) (hkeep : 0 < g.keep config) :
    domUsableRatio config g.dom < 1 ↔ (g.free : ℚ) < g.keep config := by
  obtain ⟨m, hpos, hle, hm, hratio⟩ := ratio_eq h hkeep
  have hmpos : (0 : ℚ) < m := by exact_mod_cast hpos
  have hfree : (0 : ℚ) ≤ g.free := by exact_mod_cast h.free_nonneg
  have hone : Rounding.Representable 53 (1 : ℚ) := ⟨1, 0, by norm_num, by norm_num⟩
  have hbelow : Rounding.Representable 53 (1 - 1 / 2 ^ 53 : ℚ) :=
    ⟨2 ^ 53 - 1, -53, by norm_num, by norm_num⟩
  rw [hratio, Rounding.roundTo_lt_iff (by norm_num) (by positivity) zero_le_one hone hbelow
    (by norm_num), div_lt_one hmpos, hm]
  · constructor <;> intro hlt <;> linarith
  · intro hlt
    rw [div_lt_one hmpos] at hlt
    have hint : 4 * g.free + 1 ≤ m := by exact_mod_cast hlt
    have hint' : 4 * (g.free : ℚ) + 1 ≤ m := by exact_mod_cast hint
    have hmle : (m : ℚ) ≤ 2 ^ 51 := by exact_mod_cast hle
    rw [div_le_iff₀ hmpos]
    linarith

/-- Nor that it is above 1.5. -/
theorem lt_ratio_iff (h : g.Fits) (hkeep : 0 < g.keep config) :
    3 / 2 < domUsableRatio config g.dom ↔ 3 / 2 * g.keep config < g.free := by
  obtain ⟨m, hpos, hle, hm, hratio⟩ := ratio_eq h hkeep
  have hmpos : (0 : ℚ) < m := by exact_mod_cast hpos
  have hfree : (0 : ℚ) ≤ g.free := by exact_mod_cast h.free_nonneg
  have hhalf : Rounding.Representable 53 (3 / 2 : ℚ) := ⟨3, -1, by norm_num, by norm_num⟩
  have habove : Rounding.Representable 53 (3 / 2 + 1 / 2 ^ 52 : ℚ) :=
    ⟨3 * 2 ^ 51 + 1, -52, by norm_num, by norm_num⟩
  rw [hratio, Rounding.lt_roundTo_iff (by norm_num) (by positivity) (by norm_num) hhalf habove
    (by norm_num), lt_div_iff₀ hmpos, hm]
  · constructor <;> intro hlt <;> linarith
  · intro hlt
    rw [lt_div_iff₀ hmpos] at hlt
    have hint : 3 * m < 8 * g.free := by
      have hcast : (3 : ℚ) * m < 8 * g.free := by linarith
      exact_mod_cast hcast
    have hint' : 3 * (m : ℚ) + 1 ≤ 8 * g.free := by exact_mod_cast hint
    have hmle : (m : ℚ) ≤ 2 ^ 51 := by exact_mod_cast hle
    rw [le_div_iff₀ hmpos]
    linarith

theorem low_iff (h : g.Fits) (hkeep : 0 < g.keep config) :
    (domUsableRatio config g.dom < 1 ∧ g.actual < g.total)
      ↔ ((g.free : ℚ) < g.keep config ∧ (g.free : ℚ) < g.total - g.used) := by
  refine and_congr (ratio_lt_one_iff h hkeep) ?_
  rw [cast_free, sub_lt_sub_iff_right, Int.cast_lt]

/-- The second test is made in vain: a guest with so much free memory has more than it should keep. -/
theorem high_iff (h : g.Fits) (hkeep : 0 < g.keep config) :
    (domUsableRatio config g.dom > 3 / 2 ∧ (g.actual : ℚ) > g.keep config)
      ↔ 3 / 2 * g.keep config < g.free := by
  refine (and_congr_left' (lt_ratio_iff h hkeep)).trans (and_iff_left_of_imp fun hlt => ?_)
  have hused : (0 : ℚ) ≤ g.used := by exact_mod_cast h.used_nonneg
  rw [cast_free] at hlt
  linarith

theorem processDomain_dom (hallowed : g.name ∈ allowedVms config) (h : g.Fits) (hfree : 0 < g.free) :
    processDomain config g.dom =
      if domUsableRatio config g.dom < 1 ∧ g.actual < g.total then
        some (min (g.actual + g.step) g.total)
      else if domUsableRatio config g.dom > 3 / 2 ∧ (g.actual : ℚ) > g.keep config then
        some (min (g.actual - g.step) g.total)
      else none := by
  have hname : ¬ g.dom.name ∉ allowedVms config := not_not.2 hallowed
  have hne : g.actual ≠ g.used := by
    unfold free at hfree
    omega
  simp only [processDomain, if_neg hname, ramActual_dom, ramUsed_dom, if_pos hne, domBalloon_dom,
    h.stepSize_eq]
  rfl

/-- **A pass is an adjustment** of the free memory, with a dead band from `keep` to `1.5 * keep`. -/
theorem free_round (hallowed : g.name ∈ allowedVms config) (h : g.Fits) (hfree : 0 < g.free)
    (hkeep : 0 < g.keep config) : ((g.round config).free : ℚ) = g.adjusted config g.free := by
  have hstep := g.step_pos
  have hle := h.actual_le
  rw [round, processDomain_dom hallowed h hfree, adjusted, DeadBand.adjust]
  simp only [low_iff h hkeep, high_iff h hkeep]
  split_ifs with hlow hhigh
  · simp only [cast_free]
    push_cast
    rw [← min_sub_sub_right, add_sub_right_comm]
  · simp only [cast_free, min_eq_left (show g.actual - g.step ≤ g.total by omega)]
    push_cast
    ring
  · rfl

theorem round_same (config : List (Vm ν)) (g : Guest ν) :
    g.round config = { g with actual := (g.round config).actual } := by
  unfold round
  split <;> rfl

theorem iterate_same (config : List (Vm ν)) (g : Guest ν) (n : ℕ) :
    (Guest.round config)^[n] g = { g with actual := ((Guest.round config)^[n] g).actual } := by
  induction n with
  | zero => rfl
  | succ n ih => rw [iterate_succ_apply', round_same, ih]

-- both speak of what a pass does not change
theorem safe_iterate (n : ℕ) : ((Guest.round config)^[n] g).Safe config ↔ g.Safe config := by
  rw [iterate_same]
  rfl

theorem damped_iterate (n : ℕ) : ((Guest.round config)^[n] g).Damped config ↔ g.Damped config := by
  rw [iterate_same]
  rfl

section Tracking

variable {u : ℚ} {g' : Guest ν} (hallowed : g.name ∈ allowedVms config) (hsafe : g.Safe config)

include hallowed hsafe

theorem Tracks.round (h : Tracks g u g') : Tracks g (g.adjusted config u) (g'.round config) := by
  obtain ⟨hsame, hfits, hpos, rfl⟩ := h
  have hused : g'.used = g.used := by rw [hsame]
  have htotal : g'.total = g.total := by rw [hsame]
  have hkeep : 0 < g'.keep config := keep_pos (by rw [hsame]; exact hsafe)
  have hfree : ((g'.round config).free : ℚ) = g.adjusted config g'.free := by
    rw [free_round (by rw [hsame]; exact hallowed) hfits hpos hkeep, hsame]
    rfl
  have hround := round_same config g'
  -- the bounds of the adjustment, read as those of the guest
  have hmem : (0 : ℚ) < (g'.round config).free
      ∧ ((g'.round config).free : ℚ) ≤ g.total - g.used := by
    rw [hfree]
    refine DeadBand.adjust_mem ?_ ?_ (by exact_mod_cast hpos) ?_
    · exact_mod_cast g.step_pos
    · unfold Safe at hsafe
      linarith
    · rw [cast_free, hused]
      exact sub_le_sub_right (by exact_mod_cast htotal ▸ hfits.actual_le) _
  have hpos' : 0 < (g'.round config).free := by exact_mod_cast hmem.1
  have hle : (g'.round config).free ≤ g.total - g.used := by exact_mod_cast hmem.2
  have hused' : (g'.round config).used = g.used := by rw [hround, hused]
  have htotal' : (g'.round config).total = g.total := by rw [hround, htotal]
  refine ⟨?_, ⟨?_, ?_, ?_, ?_⟩, hpos', hfree⟩
  · rw [hround, hsame]
  · rw [hused']
    exact hused ▸ hfits.used_nonneg
  · unfold Guest.free at hpos'
    omega
  · unfold Guest.free at hle
    omega
  · rw [htotal']
    exact htotal ▸ hfits.total_le

theorem Tracks.iterate (h : Tracks g u g') (n : ℕ) :
    Tracks g ((g.adjusted config)^[n] u) ((Guest.round config)^[n] g') := by
  induction n with
  | zero => exact h
  | succ n ih =>
      rw [iterate_succ_apply', iterate_succ_apply']
      exact ih.round hallowed hsafe

/-- The guest repeats itself when its free memory does. -/
theorem Tracks.periodic_iff (h : Tracks g u g') (n : ℕ) :
    IsPeriodicPt (Guest.round config) n g' ↔ IsPeriodicPt (g.adjusted config) n u := by
  have hn := h.iterate hallowed hsafe n
  constructor
  · intro hperiodic
    have hn' := hperiodic.eq ▸ hn
    exact hn'.free.symm.trans h.free
  · intro hperiodic
    rw [hperiodic.eq] at hn
    exact hn.unique h

end Tracking

/-- The daemon leaves a guest alone, or it adjusts its free memory. -/
theorem round_cases (config : List (Vm ν)) (g : Guest ν) :
    IsFixedPt (Guest.round config) g ∨ (g.name ∈ allowedVms config ∧ g.free ≠ 0) := by
  by_cases hallowed : g.name ∈ allowedVms config
  · by_cases hfree : g.free = 0
    · exact .inl (round_of_free_eq_zero hfree)
    · exact .inr ⟨hallowed, hfree⟩
  · exact .inl (round_of_not_allowed hallowed)

theorem Fits.iterate (h : g.Fits) (hsafe : g.Safe config) (n : ℕ) :
    ((Guest.round config)^[n] g).Fits := by
  rcases round_cases config g with hfixed | ⟨hallowed, hfree⟩
  · rwa [hfixed.iterate n]
  · exact ((h.tracks hfree).iterate hallowed hsafe n).fits

theorem Fits.exists_periodic (h : g.Fits) (hsafe : g.Safe config) :
    ∃ N, IsPeriodicPt (Guest.round config) 2 ((Guest.round config)^[N] g) := by
  rcases round_cases config g with hfixed | ⟨hallowed, hfree⟩
  · exact ⟨0, hfixed.isPeriodicPt 2⟩
  · have htracks := h.tracks hfree
    have hkeep := keep_pos hsafe
    have hle : (g.free : ℚ) ≤ g.total - g.used := by
      rw [cast_free]
      exact sub_le_sub_right (by exact_mod_cast h.actual_le) _
    have hcycle : ∃ N, IsPeriodicPt (g.adjusted config) 2 ((g.adjusted config)^[N] g.free) :=
      DeadBand.exists_periodic (by exact_mod_cast g.step_pos) (by linarith) hle
    obtain ⟨N, hN⟩ := hcycle
    exact ⟨N, ((htracks.iterate hallowed hsafe N).periodic_iff hallowed hsafe 2).2 hN⟩

/-- With a small step there is no going back and forth. -/
theorem Fits.fixed_of_periodic (h : g.Fits) (hsafe : g.Safe config) (hdamped : g.Damped config)
    (hperiodic : IsPeriodicPt (Guest.round config) 2 g) : IsFixedPt (Guest.round config) g := by
  rcases round_cases config g with hfixed | ⟨hallowed, hfree⟩
  · exact hfixed
  · have hperiodic' := ((h.tracks hfree).periodic_iff hallowed hsafe 2).1 hperiodic
    have hband : g.keep config + g.step ≤ 3 / 2 * g.keep config := by
      unfold Damped at hdamped
      linarith
    have hfixed : IsFixedPt (g.adjusted config) g.free :=
      DeadBand.fixed_of_periodic (by exact_mod_cast g.step_pos) hband hperiodic'
    exact ((h.tracks hfree).periodic_iff hallowed hsafe 1).2 hfixed

/-- Where the daemon lets a guest rest. -/
def AtRest (config : List (Vm ν)) (g : Guest ν) : Prop :=
  g.name ∉ allowedVms config ∨ g.free = 0
    ∨ (g.keep config ≤ g.free ∨ g.actual = g.total) ∧ (g.free : ℚ) ≤ 3 / 2 * g.keep config

theorem Fits.atRest (h : g.Fits) (hsafe : g.Safe config)
    (hfixed : IsFixedPt (Guest.round config) g) : g.AtRest config := by
  by_cases hallowed : g.name ∈ allowedVms config
  · by_cases hfree : g.free = 0
    · exact .inr (.inl hfree)
    · have hrest := ((h.tracks hfree).periodic_iff hallowed hsafe 1).1 hfixed
      rcases DeadBand.adjust_eq_self (by exact_mod_cast g.step_pos) hrest.eq with
        ⟨hlo, hhi⟩ | ⟨htop, hhi⟩
      · exact .inr (.inr ⟨.inl hlo, hhi⟩)
      · have hle := h.actual_le
        have htotal : g.total ≤ g.actual := by
          rw [cast_free, sub_le_sub_iff_right] at htop
          exact_mod_cast htop
        exact .inr (.inr ⟨.inr (by omega), hhi⟩)
  · exact .inl hallowed

end Guest

/-! ## All the guests -/

section Guests

variable {ν : Type*} [DecidableEq ν]

theorem mem_iterate {config : List (Vm ν)} {gs : List (Guest ν)} {n : ℕ} {g' : Guest ν}
    (h : g' ∈ (round config)^[n] gs) : ∃ g ∈ gs, (Guest.round config)^[n] g = g' := by
  rw [show round config = List.map (Guest.round config) from rfl, DeadBand.iterate_map] at h
  exact List.mem_map.1 h

/-- **The loop of the daemon.** Every guest follows the request before the next pass, and starts within
its limits, of at most 2^49 KiB. Suppose the step of every guest is at most one and a half times what it
should keep free. Then no guest is ever left with less than it uses or gets more than its maximum, and
the passes come to repeat themselves, every guest having one size or two in turn. If the step is at most
half of what is to be kept free, all guests come to rest, with what they should have. -/
theorem daemon_cycles (config : List (Vm ν)) (gs : List (Guest ν)) (hfits : ∀ g ∈ gs, g.Fits)
    (hsafe : ∀ g ∈ gs, g.Safe config) :
    (∀ n, ∀ g ∈ (round config)^[n] gs, g.Fits)
      ∧ ∃ N, IsPeriodicPt (round config) 2 ((round config)^[N] gs)
        ∧ ((∀ g ∈ gs, g.Damped config) →
          IsFixedPt (round config) ((round config)^[N] gs)
            ∧ ∀ g ∈ (round config)^[N] gs, g.AtRest config) := by
  have hall (n : ℕ) : ∀ g ∈ (round config)^[n] gs, g.Fits := by
    intro g' hg'
    obtain ⟨g, hg, rfl⟩ := mem_iterate hg'
    exact (hfits g hg).iterate (hsafe g hg) n
  obtain ⟨N, hN⟩ := DeadBand.map_exists fun g hg => (hfits g hg).exists_periodic (hsafe g hg)
  refine ⟨hall, N, hN, fun hdamped => ?_⟩
  have hrest : ∀ g ∈ (round config)^[N] gs,
      IsFixedPt (Guest.round config) g ∧ g.AtRest config := by
    intro g' hg'
    have hfits' := hall N g' hg'
    have hperiodic := DeadBand.periodic_map_iff.1 hN g' hg'
    obtain ⟨g, hg, rfl⟩ := mem_iterate hg'
    have hsafe' := (Guest.safe_iterate N).2 (hsafe g hg)
    have hfixed := hfits'.fixed_of_periodic hsafe' ((Guest.damped_iterate N).2 (hdamped g hg)) hperiodic
    exact ⟨hfixed, hfits'.atRest hsafe' hfixed⟩
  have hfixed : IsPeriodicPt (round config) 1 ((round config)^[N] gs) :=
    DeadBand.periodic_map_iff.2 fun g hg => (hrest g hg).1
  exact ⟨hfixed, fun g hg => (hrest g hg).2⟩

end Guests

/-! ## Three configurations -/

/-- A guest of 4 GiB with the default `keep_usable`, a quarter of that. -/
def defaultConfig : List (Vm String) := [⟨"vm_name2", true, none⟩]

def idleGuest : Guest String := ⟨"vm_name2", 4194304, 1048576, 4194304⟩

/-- A guest that uses a quarter of its memory is shrunk to where it rests. -/
theorem daemon_cycles_idle :
    idleGuest.Fits ∧ idleGuest.Safe defaultConfig ∧ idleGuest.Damped defaultConfig
      ∧ ∃ N, ∀ g ∈ (round defaultConfig)^[N] [idleGuest], g.AtRest defaultConfig := by
  have hfits : idleGuest.Fits := by decide
  have hsafe : idleGuest.Safe defaultConfig := by decide +kernel
  have hdamped : idleGuest.Damped defaultConfig := by decide +kernel
  obtain ⟨-, N, -, hrest⟩ :=
    daemon_cycles defaultConfig [idleGuest] (by simpa using hfits) (by simpa using hsafe)
  exact ⟨hfits, hsafe, hdamped, N, (hrest (by simpa using hdamped)).2⟩

-- above the bound, rounding hides that a guest has more than 1.5 times what it should keep
example :
    domUsableRatio [⟨"huge", true, some (2 ^ 59)⟩]
      (⟨"huge", 2 ^ 61, ⟨some (2 ^ 60), some (3 * 2 ^ 58 + 1)⟩⟩ : Dom String) = 3 / 2 := by
  decide +kernel

-- with 61% in use the default step is safe, but the guest is grown and shrunk in turn for ever
example :
    let g : Guest String := ⟨"vm_name2", 4194304, 2558525, 4194304⟩
    g.Safe defaultConfig ∧ (g.round defaultConfig).actual = 3571712
      ∧ ((g.round defaultConfig).round defaultConfig).actual = g.actual := by
  decide +kernel

-- the 1 GiB of the sample configuration is too little for a guest that uses 16 GiB: it is shrunk to less
example :
    let g : Guest String := ⟨"centos7", 33554432, 16777216, 18874368⟩
    (g.round [⟨"centos7", true, some 1048576⟩]).actual = 14680064 := by
  decide +kernel

end UioLinuxSample.Autoballoon
