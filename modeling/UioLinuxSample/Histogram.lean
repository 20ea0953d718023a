import Mathlib.Data.UInt
import UioLinuxSample.Irqoff.Model
import UioLinuxSample.Noschedule.Model

set_option autoImplicit false

/-! # The histograms and their labels

`trace_irqoff.c` and `trace_noschedule.c` count delays in buckets whose width doubles, and print
them with the same `histogram_show`, which computes the range of a bucket on its own: bucket `i`
is for `2 ^ i * factor` to `2 ^ (i + 1) * factor - 1` milliseconds, where `factor` is two sampling
periods. So a delay belongs into its octave over two sampling periods (`covers_iff`).

* `hist_update` of `trace_noschedule.c` counts it there (`hist_update_law`).
* `trace_irqoff_record` compares with `>` where its sibling compares with `>=`, and counts a delay
  at the lower end of an octave in the bucket before (`bucket_right_iff`).
-/

namespace UioLinuxSample

/-! ## `histogram_show` -/

/-- `NUMBER_CHARACTER`. -/
def numberCharacter : Nat := 40

/-- What `"%10d -> %-10d : %-8lu |%s|\n"` prints for a bucket. -/
structure HistogramRow where
  min : Int
  max : Int
  count : UInt64
  str : String

inductive HistogramLine where
  | text (s : String)
  | row (r : HistogramRow)

/-- `scale_max`. -/
def scaleMax (i : Nat) : UInt32 := 2 <<< UInt32.ofNat i

/-- `scale_min`. -/
def scaleMin (i : Nat) : UInt32 := if i = 0 then 1 else scaleMax i / 2

/-- `count_max`. -/
def countMax (hist : Nat → UInt64) (size : Nat) : UInt64 :=
  (List.range size).foldl (fun m i => if hist i > m then hist i else m) 0

/-- `zero_index`, one past the last bucket that is not empty. -/
def zeroIndex (hist : Nat → UInt64) (size : Nat) : Nat :=
  (List.range size).foldl (fun z i => if hist i ≠ 0 then i + 1 else z) 0

/-- The row of a bucket. The products are `unsigned int` and are printed as `int`. -/
def histogramRow (hist : Nat → UInt64) (countMax : UInt64) (factor : UInt32) (i : Nat) :
    HistogramRow :=
  let num := (hist i * UInt64.ofNat numberCharacter / countMax).toNat
  { min := (scaleMin i * factor).toInt32.toInt
    max := (scaleMax i * factor - 1).toInt32.toInt
    count := hist i
    str := String.ofList (List.replicate num '*' ++ List.replicate (numberCharacter - num) ' ') }

def histogramRows (hist : Nat → UInt64) (size : Nat) (factor : UInt32) : List HistogramRow :=
  (List.range (zeroIndex hist size)).map (histogramRow hist (countMax hist size) factor)

/-- `histogram_show`. -/
def histogramShow (header : Option String) (hist : Nat → UInt64) (size : Nat) (factor : UInt32) :
    Bool × List HistogramLine :=
  if countMax hist size = 0 then (false, [])
  else
    (true, (header.toList.map fun h => .text (h ++ "\n"))
      ++ [.text "         msecs           : count     distribution\n"]
      ++ (histogramRows hist size factor).map .row)

/-- `distribution_show` of `trace_noschedule.c`: the rows for the sum of all CPUs. -/
def Noschedule.distributionShow (cpus : List PerCpuStackTrace) : Bool × List HistogramLine :=
  histogramShow (some "Trace noschedule thread:") (fun i => cpus.foldl (fun n st => n + st.hist i) 0)
    durationHistogramEntry (samplingPeriod * 2 / 1000000).toUInt32

/-- `distribute_show_one` of `trace_irqoff.c`. -/
def Irqoff.distributeShowOne (cfg : Config) (cpus : List PerCpuStackTrace) (hardirq : Bool) :
    Bool × List HistogramLine :=
  let count := fun (st : PerCpuStackTrace) =>
    if hardirq then st.hardirqTrace.latencyCount else st.softirqTrace.latencyCount
  histogramShow (some (if hardirq then "hardirq-off:" else "softirq-off:"))
    (fun i => cpus.foldl (fun n st => n + count st i) 0) maxLatencyRecord
    (cfg.throttle / 1000000).toUInt32

/-- The row that is printed for bucket `i`. -/
def rowFor (lines : List HistogramLine) (i : Nat) : Option HistogramRow :=
  (lines.filterMap fun l => match l with
    | .row r => some r
    | .text _ => none)[i]?

/-! ## The rows -/

section Rows

variable {hist : Nat → UInt64} {size : Nat} {factor : UInt32}

theorem zeroIndex_succ (hist : Nat → UInt64) (size : Nat) :
    zeroIndex hist (size + 1) = if hist size ≠ 0 then size + 1 else zeroIndex hist size := by
  unfold zeroIndex
  rw [List.range_succ, List.foldl_append]
  rfl

theorem lt_zeroIndex {i : Nat} (hi : i < size) (hcount : hist i ≠ 0) : i < zeroIndex hist size := by
  induction size with
  | zero => omega
  | succ size ih =>
      rw [zeroIndex_succ]
      split
      · exact hi
      · next hlast =>
          have hne : i ≠ size := by
            rintro rfl
            exact hlast hcount
          exact ih (by omega)

/-- The rows end with a bucket that is not empty. -/
theorem exists_of_lt_zeroIndex {i : Nat} (hi : i < zeroIndex hist size) :
    ∃ j, i ≤ j ∧ j < size ∧ hist j ≠ 0 := by
  induction size with
  | zero =>
      have hzero : zeroIndex hist 0 = 0 := rfl
      omega
  | succ size ih =>
      rw [zeroIndex_succ] at hi
      split at hi
      · next hlast => exact ⟨size, by omega, by omega, hlast⟩
      · obtain ⟨j, hij, hj, hcount⟩ := ih hi
        exact ⟨j, hij, by omega, hcount⟩

theorem zeroIndex_le (hist : Nat → UInt64) (size : Nat) : zeroIndex hist size ≤ size := by
  induction size with
  | zero => exact Nat.le_refl 0
  | succ size ih =>
      rw [zeroIndex_succ]
      split
      · exact Nat.le_refl _
      · omega

theorem countMax_succ (hist : Nat → UInt64) (size : Nat) :
    countMax hist (size + 1)
      = if hist size > countMax hist size then hist size else countMax hist size := by
  unfold countMax
  rw [List.range_succ, List.foldl_append]
  rfl

/-- Of the counts, only those of the buckets are read. -/
theorem histogramShow_congr {hist' : Nat → UInt64} (h : ∀ i < size, hist i = hist' i)
    (header : Option String) (factor : UInt32) :
    histogramShow header hist size factor = histogramShow header hist' size factor := by
  have hmax : countMax hist size = countMax hist' size := by
    refine List.foldl_ext _ _ _ fun m i hi => ?_
    rw [h i (List.mem_range.mp hi)]
  have hindex : zeroIndex hist size = zeroIndex hist' size := by
    refine List.foldl_ext _ _ _ fun z i hi => ?_
    rw [h i (List.mem_range.mp hi)]
  have hrows : histogramRows hist size factor = histogramRows hist' size factor := by
    unfold histogramRows
    rw [hmax, ← hindex]
    refine List.map_congr_left fun i hi => ?_
    have hlt := (List.mem_range.mp hi).trans_le (zeroIndex_le hist size)
    rw [histogramRow, histogramRow, h i hlt]
  rw [histogramShow, histogramShow, hmax, hrows]

theorem le_countMax {i : Nat} (hi : i < size) : hist i ≤ countMax hist size := by
  induction size with
  | zero => omega
  | succ size ih =>
      rw [countMax_succ]
      by_cases hlast : i = size
      · subst hlast
        split
        · exact UInt64.le_refl _
        · next hnot => exact UInt64.not_lt.mp hnot
      · have hmax := ih (by omega)
        split
        · next hgt => exact UInt64.le_trans hmax (UInt64.le_of_lt hgt)
        · exact hmax

theorem countMax_ne_zero {i : Nat} (hi : i < size) (hcount : hist i ≠ 0) : countMax hist size ≠ 0 := by
  intro hzero
  have hle : hist i ≤ 0 := hzero ▸ le_countMax hi
  exact hcount (UInt64.le_zero_iff.mp hle)

theorem filterMap_histogramShow (header : Option String) :
    ((histogramShow header hist size factor).2.filterMap fun l => match l with
      | .row r => some r
      | .text _ => none)
      = if countMax hist size = 0 then [] else histogramRows hist size factor := by
  unfold histogramShow
  split
  · rfl
  · rw [List.filterMap_append, List.filterMap_append, List.filterMap_map, List.filterMap_map]
    cases header <;> simp

/-- The rows come in the order of the buckets. -/
theorem rowFor_eq {header : Option String} {i : Nat} {r : HistogramRow}
    (h : rowFor (histogramShow header hist size factor).2 i = some r) :
    i < size ∧ r = histogramRow hist (countMax hist size) factor i := by
  unfold rowFor at h
  rw [filterMap_histogramShow] at h
  split at h
  · cases h
  · unfold histogramRows at h
    rw [List.getElem?_map] at h
    obtain ⟨j, hj, rfl⟩ := Option.map_eq_some_iff.mp h
    rw [List.getElem?_eq_some_iff] at hj
    obtain ⟨hlt, hget⟩ := hj
    rw [List.getElem_range] at hget
    rw [List.length_range] at hlt
    exact ⟨hlt.trans_le (zeroIndex_le hist size), by rw [hget]⟩

theorem rowFor_count {header : Option String} {i : Nat} {r : HistogramRow}
    (h : rowFor (histogramShow header hist size factor).2 i = some r) : r.count = hist i := by
  obtain ⟨-, rfl⟩ := rowFor_eq h
  rfl

/-- There is a row for each bucket up to the last one that is not empty. -/
theorem exists_rowFor_iff (header : Option String) {i : Nat} :
    (∃ r, rowFor (histogramShow header hist size factor).2 i = some r)
      ↔ ∃ j, i ≤ j ∧ j < size ∧ hist j ≠ 0 := by
  unfold rowFor
  rw [filterMap_histogramShow]
  unfold histogramRows
  constructor
  · rintro ⟨r, hr⟩
    split at hr
    · cases hr
    · rw [List.getElem?_map] at hr
      obtain ⟨j, hj, -⟩ := Option.map_eq_some_iff.mp hr
      obtain ⟨hlt, -⟩ := List.getElem?_eq_some_iff.mp hj
      rw [List.length_range] at hlt
      exact exists_of_lt_zeroIndex hlt
  · rintro ⟨j, hij, hj, hcount⟩
    have hlt : i < zeroIndex hist size := by
      have hindex := lt_zeroIndex hj hcount
      omega
    rw [if_neg (countMax_ne_zero hj hcount), List.getElem?_map, List.getElem?_range hlt]
    exact ⟨_, rfl⟩

end Rows

/-! ## The labels -/

/-- The time, in milliseconds, is in the printed range; the last bucket is open above. -/
def HistogramRow.Covers (r : HistogramRow) (last : Prop) (ms : Nat) : Prop :=
  r.min ≤ ms ∧ (last ∨ ms ≤ r.max)

section Labels

variable {factor : UInt32} {i : Nat}

theorem toNat_scaleMax (hi : i < 31) : (scaleMax i).toNat = 2 ^ (i + 1) := by
  unfold scaleMax
  have hamount : (UInt32.ofNat i).toNat % 32 = i := by
    rw [UInt32.toNat_ofNat']
    omega
  rw [UInt32.toNat_shiftLeft, hamount, Nat.shiftLeft_eq, show (2 : UInt32).toNat = 2 from rfl,
    ← pow_succ']
  exact Nat.mod_eq_of_lt (Nat.pow_lt_pow_right (by decide) (by omega))

theorem toNat_scaleMin (hi : i < 31) : (scaleMin i).toNat = 2 ^ i := by
  unfold scaleMin
  split
  · next hzero =>
      subst hzero
      rfl
  · rw [UInt32.toNat_div, toNat_scaleMax hi, pow_succ, show (2 : UInt32).toNat = 2 from rfl]
    exact Nat.mul_div_cancel _ (by decide)

theorem toInt_toInt32 {x : UInt32} (hx : x.toNat < 2 ^ 31) : x.toInt32.toInt = x.toNat := by
  show x.toBitVec.toInt = x.toNat
  rw [BitVec.toInt_eq_toNat_of_lt, UInt32.toNat_toBitVec]
  rw [UInt32.toNat_toBitVec]
  omega

/-- The range of a row, if it fits in an `int`. -/
theorem histogramRow_range (hist : Nat → UInt64) (most : UInt64) (hi : i < 31)
    (hpos : 0 < factor.toNat) (hfits : 2 ^ (i + 1) * factor.toNat < 2 ^ 31) :
    (histogramRow hist most factor i).min = (2 ^ i * factor.toNat : Nat)
      ∧ (histogramRow hist most factor i).max = (2 ^ (i + 1) * factor.toNat - 1 : Nat) := by
  have hdouble : 2 ^ (i + 1) * factor.toNat = 2 * (2 ^ i * factor.toNat) := by ring
  have hmin : (scaleMin i * factor).toNat = 2 ^ i * factor.toNat := by
    rw [UInt32.toNat_mul, toNat_scaleMin hi]
    exact Nat.mod_eq_of_lt (by omega)
  have hmax : (scaleMax i * factor).toNat = 2 ^ (i + 1) * factor.toNat := by
    rw [UInt32.toNat_mul, toNat_scaleMax hi]
    exact Nat.mod_eq_of_lt (by omega)
  have hone : 1 ≤ scaleMax i * factor := by
    rw [UInt32.le_iff_toNat_le, hmax]
    exact Nat.mul_pos (Nat.two_pow_pos _) hpos
  have hlast : (scaleMax i * factor - 1).toNat = 2 ^ (i + 1) * factor.toNat - 1 := by
    rw [UInt32.toNat_sub_of_le _ _ hone, hmax]
    rfl
  constructor
  · show (scaleMin i * factor).toInt32.toInt = _
    rw [toInt_toInt32 (by omega), hmin]
  · show (scaleMax i * factor - 1).toInt32.toInt = _
    rw [toInt_toInt32 (by omega), hlast]

/-- **A row covers the delays of its octave**, the last one those of the octaves after it too. -/
theorem covers_iff (hist : Nat → UInt64) (most : UInt64) (hi : i < 31) (hpos : 0 < factor.toNat)
    (hfits : 2 ^ (i + 1) * factor.toNat < 2 ^ 31) {delta k : Nat}
    (hk : IsOctave (factor.toNat * 10 ^ 6) delta k) (last : Prop) :
    (histogramRow hist most factor i).Covers last (delta / 10 ^ 6)
      ↔ i ≤ k ∧ (last ∨ k ≤ i) := by
  obtain ⟨hmin, hmax⟩ := histogramRow_range hist most hi hpos hfits
  have hrange : 0 < 2 ^ (i + 1) * factor.toNat := Nat.mul_pos (Nat.two_pow_pos _) hpos
  have hlow : 2 ^ i * factor.toNat ≤ delta / 10 ^ 6 ↔ i ≤ k := by
    rw [Nat.le_div_iff_mul_le (by decide), Nat.mul_assoc]
    exact hk.pow_mul_le_iff
  have hhigh : delta / 10 ^ 6 < 2 ^ (i + 1) * factor.toNat ↔ k ≤ i := by
    rw [Nat.div_lt_iff_lt_mul (by decide), Nat.mul_assoc]
    exact hk.lt_pow_mul_iff
  unfold HistogramRow.Covers
  rw [hmin, hmax, Nat.cast_le, Nat.cast_le, Nat.le_sub_one_iff_lt hrange, hlow, hhigh]

end Labels

/-! ## `hist_update` -/

namespace Noschedule

/-- The width of the first bucket. -/
def histStep : UInt64 := samplingPeriod * 2

theorem toNat_histStep : histStep.toNat = 20 * 10 ^ 6 := by decide

theorem histUpdate_of_lt (st : PerCpuStackTrace) {delta : UInt64} (h : delta < histStep) :
    histUpdate st delta = st := by
  unfold histUpdate
  exact if_pos h

theorem histUpdate_octave (st : PerCpuStackTrace) {delta : UInt64} {k : Nat}
    (hk : IsOctave histStep.toNat delta.toNat k) :
    (histUpdate st delta).hist
      = Function.update st.hist (min 11 k) (st.hist (min 11 k) + 1) := by
  have hge : ¬ delta < samplingPeriod * 2 := by
    rw [UInt64.not_lt, UInt64.le_iff_toNat_le]
    exact (Nat.le_mul_of_pos_left _ (Nat.two_pow_pos k)).trans hk.le
  have hloop : shiftWhile (fun d => decide (d ≥ samplingPeriod * 2)) 64 (delta >>> 1) 0 = k :=
    hk.halvings_ge (by decide) le_rfl
  have hindex : (if k ≥ durationHistogramEntry then durationHistogramEntry - 1 else k)
      = min 11 k := by
    rw [Nat.min_comm]
    exact capped_eq_min (by decide) k
  unfold histUpdate
  dsimp only
  rw [if_neg hge, hloop, hindex]

/-- The count of bucket `i` on all CPUs, modulo `2 ^ 64`. -/
def histTotal (cpus : List PerCpuStackTrace) (i : Nat) : UInt64 :=
  (cpus.map fun st => st.hist i).sum

theorem foldl_hist (cpus : List PerCpuStackTrace) :
    (fun i => cpus.foldl (fun n st => n + st.hist i) 0) = histTotal cpus := by
  funext i
  rw [histTotal, List.sum_eq_foldl, List.foldl_map]

/-- The rows of `distribution_show`: one for each bucket up to the last one that is not empty. -/
theorem distributionShow_rows (cpus : List PerCpuStackTrace) (i : Nat) :
    ((∃ r, rowFor (distributionShow cpus).2 i = some r)
        ↔ ∃ j, i ≤ j ∧ j < durationHistogramEntry ∧ histTotal cpus j ≠ 0)
      ∧ ∀ r, rowFor (distributionShow cpus).2 i = some r → r.count = histTotal cpus i := by
  unfold distributionShow
  rw [foldl_hist]
  exact ⟨exists_rowFor_iff _, fun r hr => rowFor_count hr⟩

/-- **The histogram law.** A delay below two sampling periods is not counted. Any other makes the
loop end, whatever number of turns from 64 on it is allowed, at the octave of the delay; the delay
is counted in that bucket, or in the last one, and in no other. A row is printed for the bucket if
it or a later one is not empty, with its count, and its range covers the delay. -/
theorem hist_update_law (st : PerCpuStackTrace) (delta : UInt64) :
    (delta < histStep → (histUpdate st delta).hist = st.hist)
      ∧ (histStep ≤ delta → ∃ k, IsOctave histStep.toNat delta.toNat k
        ∧ (∀ fuel ≥ 64, shiftWhile (fun d => decide (d ≥ histStep)) fuel (delta >>> 1) 0 = k)
        ∧ (histUpdate st delta).hist
          = Function.update st.hist (min 11 k) (st.hist (min 11 k) + 1)
        ∧ (k ≤ 11 → ∀ cpus,
          ((∃ r, rowFor (distributionShow cpus).2 k = some r)
            ↔ ∃ j, k ≤ j ∧ j < durationHistogramEntry ∧ histTotal cpus j ≠ 0)
          ∧ ∀ r, rowFor (distributionShow cpus).2 k = some r →
            r.count = histTotal cpus k ∧ r.Covers False (delta.toNat / 10 ^ 6))) := by
  constructor
  · intro hlt
    rw [histUpdate_of_lt st hlt]
  · intro hge
    obtain ⟨k, hk⟩ := exists_isOctave (by decide) (UInt64.le_iff_toNat_le.mp hge)
    refine ⟨k, hk, fun fuel hfuel => hk.halvings_ge (by decide) hfuel, histUpdate_octave st hk, ?_⟩
    intro hlast cpus
    obtain ⟨hprinted, hcount⟩ := distributionShow_rows cpus k
    refine ⟨hprinted, fun r hr => ⟨hcount r hr, ?_⟩⟩
    obtain ⟨-, rfl⟩ := rowFor_eq hr
    have hfactor : (samplingPeriod * 2 / 1000000).toUInt32.toNat = 20 := rfl
    have hfits : 2 ^ (k + 1) * (samplingPeriod * 2 / 1000000).toUInt32.toNat < 2 ^ 31 := by
      have hpow : 2 ^ (k + 1) ≤ 2 ^ 12 := Nat.pow_le_pow_right (by decide) (by omega)
      rw [hfactor]
      omega
    rw [toNat_histStep, ← hfactor] at hk
    rw [covers_iff _ _ (by omega) (by rw [hfactor]; decide) hfits hk]
    omega

/-- After a delay of 45 ms the row `40 -> 79` is printed. -/
theorem hist_update_law_45ms :
    ∃ r, rowFor (distributionShow [histUpdate PerCpuStackTrace.zero 45000000]).2 1 = some r
      ∧ r.count = 1 ∧ r.Covers False 45 := by
  have hge : histStep ≤ 45000000 := by decide
  obtain ⟨k, hk, -, -, hrows⟩ := (hist_update_law PerCpuStackTrace.zero 45000000).2 hge
  have hone : IsOctave histStep.toNat (45000000 : UInt64).toNat 1 :=
    isOctave_of_lt (by decide) (by decide)
  obtain rfl : k = 1 := hk.unique hone
  obtain ⟨hprinted, hrow⟩ := hrows (by decide) [histUpdate PerCpuStackTrace.zero 45000000]
  obtain ⟨r, hr⟩ := hprinted.mpr ⟨1, le_rfl, by decide, by decide⟩
  obtain ⟨hcount, hcovers⟩ := hrow r hr
  exact ⟨r, hr, hcount.trans (by decide), hcovers⟩

end Noschedule

/-! ## `trace_irqoff_record` -/

namespace Irqoff

/-- From `st` to `st'`, one bucket of one of the two histograms is counted up by one. -/
structure CountedIn (hardirq : Bool) (st st' : PerCpuStackTrace) (i : Nat) : Prop where
  hard : st'.hardirqTrace.latencyCount = if hardirq then
    Function.update st.hardirqTrace.latencyCount i (st.hardirqTrace.latencyCount i + 1)
    else st.hardirqTrace.latencyCount
  soft : st'.softirqTrace.latencyCount = if hardirq then st.softirqTrace.latencyCount else
    Function.update st.softirqTrace.latencyCount i (st.softirqTrace.latencyCount i + 1)

theorem countUp_injective (f : Nat → UInt64) {i j : Nat}
    (h : Function.update f i (f i + 1) = Function.update f j (f j + 1)) : i = j := by
  by_contra hne
  have hi := congrFun h i
  rw [Function.update_self, Function.update_of_ne hne] at hi
  simp at hi

theorem CountedIn.unique {hardirq : Bool} {st st' : PerCpuStackTrace} {i j : Nat}
    (hi : CountedIn hardirq st st' i) (hj : CountedIn hardirq st st' j) : i = j := by
  cases hardirq with
  | true => exact countUp_injective _ (hi.hard.symm.trans hj.hard)
  | false => exact countUp_injective _ (hi.soft.symm.trans hj.soft)

section Record

variable (kn : Kernel) (cfg : Config) (st : PerCpuStackTrace) (c : Capture) {delta : UInt64}

theorem countedIn_record {hardirq skip : Bool} (hcount : hardirq = true ∨ skip = false)
    (h : ¬ delta < cfg.throttle) :
    CountedIn hardirq st (traceIrqoffRecord kn cfg st c delta hardirq skip).2
      (latencyIndex cfg.throttle delta) := by
  unfold Config.throttle at h ⊢
  unfold traceIrqoffRecord
  dsimp only
  rw [if_neg h]
  cases hardirq with
  | true => split <;> constructor <;> simp [saveTrace, StackTraceMetadata.count]
  | false =>
      obtain rfl : skip = false := by simpa using hcount
      split <;> constructor <;> simp [saveTrace, StackTraceMetadata.count]

/-- The bucket is that of the octave unless the delay is shifted down to the throttle itself. -/
theorem latencyIndex_eq_iff {throttle : UInt64} {k : Nat} (hpos : 0 < throttle)
    (hk : IsOctave throttle.toNat delta.toNat k) :
    latencyIndex throttle delta = min 9 k
      ↔ ∀ j, 1 ≤ j → j ≤ 9 → delta.toNat / 2 ^ j ≠ throttle.toNat := by
  have hother : ∀ j, j ≠ k → delta.toNat / 2 ^ j ≠ throttle.toNat := by
    intro j hjk
    have htoNat : 0 < throttle.toNat := UInt64.lt_iff_toNat_lt.mp hpos
    rcases Nat.lt_or_gt_of_ne hjk with hlt | hgt
    · have htwice := hk.two_mul_le hlt
      omega
    · have hbelow := hk.div_lt hgt
      omega
  have hindex : ∀ n, (if n ≥ maxLatencyRecord then maxLatencyRecord - 1 else n) = min 9 n := by
    intro n
    rw [Nat.min_comm]
    exact capped_eq_min (by decide) n
  unfold latencyIndex
  dsimp only
  rw [hk.halvings_gt hpos, hindex]
  by_cases heq : delta.toNat / 2 ^ k = throttle.toNat
  · rw [if_pos heq]
    constructor
    · intro hmin j hj hj9 hdiv
      have hjk : j = k := by
        by_contra hne
        exact hother j hne hdiv
      omega
    · intro hnone
      have hrange : ¬ (1 ≤ k ∧ k ≤ 9) := fun hand => hnone k hand.1 hand.2 heq
      omega
  · rw [if_neg heq]
    refine iff_of_true rfl fun j _ _ hdiv => ?_
    have hjk : j = k := by
      by_contra hne
      exact hother j hne hdiv
    exact heq (hjk ▸ hdiv)

end Record

/-- The threshold of the record, for a period of whole milliseconds. -/
theorem toNat_throttle {cfg : Config} {period : Nat} (hlt : period < 2 ^ 20)
    (hcfg : cfg.samplingPeriod.toNat = period * 10 ^ 6) :
    cfg.throttle.toNat = 2 * cfg.samplingPeriod.toNat := by
  unfold Config.throttle
  rw [UInt64.toNat_shiftLeft, show (1 : UInt64).toNat % 64 = 1 from rfl, Nat.shiftLeft_eq,
    Nat.mod_eq_of_lt (by omega)]
  omega

/-- The row that is printed for the octave of a delay covers it, and no other row does. -/
theorem distributeShowOne_covers_iff {cfg : Config} {period k : Nat} (hpos : 0 < period)
    (hlt : period < 2 ^ 20) (hcfg : cfg.samplingPeriod.toNat = period * 10 ^ 6) {delta : UInt64}
    (hk : IsOctave cfg.throttle.toNat delta.toNat k)
    {cpus : List PerCpuStackTrace} {hardirq : Bool} {i : Nat} {r : HistogramRow}
    (hr : rowFor (distributeShowOne cfg cpus hardirq).2 i = some r) :
    r.Covers (i = 9) (delta.toNat / 10 ^ 6) ↔ i = min 9 k := by
  have hthrottle := toNat_throttle hlt hcfg
  obtain ⟨hi, rfl⟩ := rowFor_eq hr
  have hfactor : (cfg.throttle / 1000000).toUInt32.toNat = 2 * period := by
    rw [UInt64.toNat_toUInt32, UInt64.toNat_div, hthrottle, hcfg,
      show (1000000 : UInt64).toNat = 10 ^ 6 from rfl]
    omega
  -- the printed bounds are computed as `int`
  have hfits : 2 ^ (i + 1) * (2 * period) < 2 ^ 31 := by
    have hpow : 2 ^ (i + 1) ≤ 2 ^ 10 := Nat.pow_le_pow_right (by decide) hi
    calc 2 ^ (i + 1) * (2 * period) ≤ 2 ^ 10 * (2 * period) := Nat.mul_le_mul_right _ hpow
      _ < 2 ^ 31 := by omega
  have hoctave : IsOctave ((cfg.throttle / 1000000).toUInt32.toNat * 10 ^ 6) delta.toNat k := by
    rwa [hfactor, show 2 * period * 10 ^ 6 = cfg.throttle.toNat by omega]
  have hi9 : i < 10 := hi
  rw [covers_iff _ _ (by omega) (by omega) (by rwa [hfactor]) hoctave]
  omega

/-- The count of bucket `i` on all CPUs, modulo `2 ^ 64`. -/
def latencyTotal (cpus : List PerCpuStackTrace) (hardirq : Bool) (i : Nat) : UInt64 :=
  (cpus.map fun st =>
    (if hardirq then st.hardirqTrace else st.softirqTrace).latencyCount i).sum

theorem foldl_latencyCount (cpus : List PerCpuStackTrace) (hardirq : Bool) :
    (fun i => cpus.foldl (fun n st => n + (if hardirq then st.hardirqTrace.latencyCount
      else st.softirqTrace.latencyCount) i) 0) = latencyTotal cpus hardirq := by
  funext i
  rw [latencyTotal, List.sum_eq_foldl, List.foldl_map]
  cases hardirq <;> rfl

/-- The rows of `distribute_show_one`: one for each bucket up to the last one that is not empty. -/
theorem distributeShowOne_rows (cfg : Config) (cpus : List PerCpuStackTrace) (hardirq : Bool)
    (i : Nat) :
    ((∃ r, rowFor (distributeShowOne cfg cpus hardirq).2 i = some r)
        ↔ ∃ j, i ≤ j ∧ j < maxLatencyRecord ∧ latencyTotal cpus hardirq j ≠ 0)
      ∧ ∀ r, rowFor (distributeShowOne cfg cpus hardirq).2 i = some r →
        r.count = latencyTotal cpus hardirq i := by
  unfold distributeShowOne
  dsimp only
  rw [foldl_latencyCount]
  exact ⟨exists_rowFor_iff _, fun r hr => rowFor_count hr⟩

/-- **When a delay is counted where its label says.** For a sampling period of whole
milliseconds, a delay is counted in the bucket of its octave exactly if no shift by 1 to 9 takes
it to two sampling periods. There is a row for each bucket up to the last one that is not empty,
with its count; the octave is the bucket whose printed range covers the delay, and the one that
`hist_update` of `trace_noschedule.c` counts it in. -/
theorem bucket_right_iff (kn : Kernel) (cfg : Config) (st : PerCpuStackTrace) (c : Capture)
    (delta : UInt64) (hardirq skip : Bool) (hcount : hardirq = true ∨ skip = false) (period : Nat)
    (hpos : 0 < period) (hlt : period < 2 ^ 20) (hcfg : cfg.samplingPeriod.toNat = period * 10 ^ 6)
    (hdelta : 2 * cfg.samplingPeriod.toNat ≤ delta.toNat) :
    ∃ k, IsOctave (2 * cfg.samplingPeriod.toNat) delta.toNat k
      ∧ (CountedIn hardirq st (traceIrqoffRecord kn cfg st c delta hardirq skip).2 (min 9 k)
        ↔ ∀ j, 1 ≤ j → j ≤ 9 → delta.toNat / 2 ^ j ≠ 2 * cfg.samplingPeriod.toNat)
      ∧ (∀ cpus i,
        ((∃ r, rowFor (distributeShowOne cfg cpus hardirq).2 i = some r)
          ↔ ∃ j, i ≤ j ∧ j < maxLatencyRecord ∧ latencyTotal cpus hardirq j ≠ 0)
        ∧ ∀ r, rowFor (distributeShowOne cfg cpus hardirq).2 i = some r →
          r.count = latencyTotal cpus hardirq i
            ∧ (r.Covers (i = 9) (delta.toNat / 10 ^ 6) ↔ i = min 9 k))
      ∧ (cfg.samplingPeriod = Noschedule.samplingPeriod → ∀ ns : Noschedule.PerCpuStackTrace,
        (Noschedule.histUpdate ns delta).hist
          = Function.update ns.hist (min 11 k) (ns.hist (min 11 k) + 1)) := by
  have hthrottle := toNat_throttle hlt hcfg
  obtain ⟨k, hk⟩ := exists_isOctave (by omega) hdelta
  rw [← hthrottle] at hk hdelta
  refine ⟨k, hthrottle ▸ hk, ?_, ?_, ?_⟩
  · have hge : ¬ delta < cfg.throttle := UInt64.not_lt.mpr (UInt64.le_iff_toNat_le.mpr hdelta)
    have hrecord := countedIn_record kn cfg st c hcount hge
    rw [← hthrottle, ← latencyIndex_eq_iff (UInt64.lt_iff_toNat_lt.mpr (by simp; omega)) hk]
    constructor
    · exact hrecord.unique
    · intro hindex
      rwa [← hindex]
  · intro cpus i
    obtain ⟨hprinted, hrow⟩ := distributeShowOne_rows cfg cpus hardirq i
    exact ⟨hprinted, fun r hr =>
      ⟨hrow r hr, distributeShowOne_covers_iff hpos hlt hcfg hk hr⟩⟩
  · intro hsame ns
    refine Noschedule.histUpdate_octave ns ?_
    have hstep : Noschedule.histStep.toNat = cfg.throttle.toNat := by
      rw [hthrottle, hsame]
      decide
    rwa [hstep]

/-- A thread with pid 7 and the stack `[1]`, and the settings the module starts with. -/
def oneThread : Capture := ⟨⟨7, Comm.empty, false, taskRunning, 0⟩, none, ⟨[1], [1]⟩⟩

def tenMillis : Config := ⟨10000000, 50000000⟩

/-- A delay of 45 ms is counted in its octave, and the row `40 -> 79` is printed for it. -/
theorem bucket_right_45ms :
    let record := (traceIrqoffRecord ⟨false, false⟩ tenMillis PerCpuStackTrace.zero oneThread
      45000000 true true).2
    CountedIn true PerCpuStackTrace.zero record 1
      ∧ ∃ r, rowFor (distributeShowOne tenMillis [record] true).2 1 = some r
        ∧ r.count = 1 ∧ r.Covers False 45 := by
  intro record
  obtain ⟨k, hk, hiff, hrows, -⟩ := bucket_right_iff ⟨false, false⟩ tenMillis PerCpuStackTrace.zero
    oneThread 45000000 true true (.inl rfl) 10 (by decide) (by decide) rfl (by decide)
  have hone : IsOctave (2 * 10000000) 45000000 1 := isOctave_of_lt (by decide) (by decide)
  obtain rfl : k = 1 := hk.unique hone
  have hclear : ∀ j, 1 ≤ j → j ≤ 9 → 45000000 / 2 ^ j ≠ 2 * 10000000 := by decide
  obtain ⟨hprinted, hrow⟩ := hrows [record] 1
  obtain ⟨r, hr⟩ := hprinted.mpr ⟨1, le_rfl, by decide, by decide⟩
  obtain ⟨hcount, hcovers⟩ := hrow r hr
  have hrange : r.Covers (1 = 9) 45 := hcovers.mpr rfl
  exact ⟨hiff.mpr hclear, r, hr, hcount.trans (by decide), hrange.imp_right (.imp_left (by decide))⟩

/-- A delay of 40 ms belongs to the bucket that is printed as `40 -> 79` and is counted in the one
before, `20 -> 39`. -/
theorem bucket_wrong_40ms :
    IsOctave (2 * 10000000) 40000000 1
      ∧ CountedIn true PerCpuStackTrace.zero
        (traceIrqoffRecord ⟨false, false⟩ tenMillis PerCpuStackTrace.zero oneThread 40000000
          true true).2 0
      ∧ ¬ CountedIn true PerCpuStackTrace.zero
        (traceIrqoffRecord ⟨false, false⟩ tenMillis PerCpuStackTrace.zero oneThread 40000000
          true true).2 (min 9 1) := by
  have hcalled : true = true ∨ true = false := .inl rfl
  have hlate : ¬ (40000000 : UInt64) < tenMillis.throttle := by decide
  have hcount :=
    countedIn_record ⟨false, false⟩ tenMillis PerCpuStackTrace.zero oneThread hcalled hlate
  have hindex : latencyIndex tenMillis.throttle 40000000 = 0 := by decide
  rw [hindex] at hcount
  exact ⟨isOctave_of_lt (by decide) (by decide), hcount, fun h => nomatch hcount.unique h⟩

end Irqoff

end UioLinuxSample
