import UioLinuxSample.HistogramDraw

set_option autoImplicit false

/-! # The buckets of `trace-runqlat`

`latency_histogram_store` counts a latency of `ms` milliseconds by shifting it down to zero, so its
bucket is the logarithm of `ms`; below one millisecond it is the first. `distribution_show` prints
bucket `i` as `2 ^ i -> 2 ^ (i + 1) - 1`. The two agree (`latency_bucket_law`) but for what the last
bucket takes in addition.
-/

namespace UioLinuxSample.Runqlat

/-- `distribution_show`. -/
def distributionShow (info : Info) : Option (Bool × List HistogramLine) :=
  histogramShow none info.latencyHist latencyHistogramEntry 1 info.sumLat

/-- The milliseconds that `latency_histogram_store` makes of a latency. -/
def millis (delta : UInt64) : Nat := delta.toNat / 10 ^ 6

/-- The bucket for a number of milliseconds. -/
def bucketOf (ms : Nat) : Nat := min 11 (Nat.log 2 (max 1 ms))

/-! ## Counting -/

theorem toNat_div_million (delta : UInt64) : (delta / 1000000).toNat = millis delta := by
  rw [UInt64.toNat_div]
  rfl

/-- The loop counts to the logarithm, whatever number of turns from 64 on it is allowed. -/
theorem halvings_eq_log (ms : UInt64) {fuel : Nat} (hfuel : 64 ≤ fuel) :
    shiftWhile (fun d => decide (d > 0)) fuel (ms >>> 1) 0 = Nat.log 2 (max 1 ms.toNat) := by
  have hpos : (fun d : UInt64 => decide (d > 0)) = fun d => decide (d ≥ 1) := by
    funext d
    rw [decide_eq_decide, gt_iff_lt, ge_iff_le, UInt64.lt_iff_toNat_lt, UInt64.le_iff_toNat_le]
    rfl
  by_cases hzero : ms = 0
  · subst hzero
    obtain ⟨more, rfl⟩ := Nat.exists_eq_add_of_le' (by omega : 1 ≤ fuel)
    rfl
  · have hms : 1 ≤ ms.toNat := by
      apply Nat.pos_of_ne_zero
      intro h
      exact hzero (UInt64.toNat_inj.mp h)
    have hoctave : IsOctave (1 : UInt64).toNat ms.toNat (Nat.log 2 ms.toNat) := isOctave_log hms
    rw [hpos, Nat.max_eq_right hms]
    exact hoctave.halvings_ge (by decide) hfuel

theorem latencyIndex_eq (ms : UInt64) : latencyIndex ms = bucketOf ms.toNat := by
  unfold latencyIndex bucketOf
  rw [halvings_eq_log ms le_rfl, Nat.min_comm]
  exact capped_eq_min (by decide) _

/-! ## Printing -/

variable {info : Info} {lines : List HistogramLine} {b : Bool} {i : Nat} {r : HistogramRow}

theorem rowFor_distributionShow (h : distributionShow info = some (b, lines))
    (hr : rowFor lines i = some r) :
    i < 12 ∧ r.min = (2 ^ i : Nat) ∧ r.max = (2 ^ (i + 1) - 1 : Nat) := by
  obtain ⟨hi, rfl⟩ := rowFor_drawHistogram h hr
  have hi12 : i < 12 := hi
  have hfits : 2 ^ (i + 1) * (1 : UInt32).toNat < 2 ^ 31 := by
    rw [UInt32.toNat_one, Nat.mul_one]
    exact Nat.pow_lt_pow_right (by decide) (by omega)
  obtain ⟨hmin, hmax⟩ := histogramRow_range info.latencyHist
    (countMax info.latencyHist latencyHistogramEntry) (by omega : i < 31) (by decide) hfits
  rw [UInt32.toNat_one, Nat.mul_one] at hmin hmax
  exact ⟨hi12, hmin, hmax⟩

/-- If the last bucket is not empty, all are printed. -/
theorem distributionShow_full (h : info.latencyHist 11 ≠ 0) :
    ∃ lines, distributionShow info = some (true, lines) ∧ ∀ i < 12, ∃ r, rowFor lines i = some r := by
  obtain ⟨lines, hshow, hrows⟩ := drawHistogram_true
    (headerLine none ++ [toString info.sumLat.toInt64.toInt ++ "\n", columnsLine]) 1
    (by decide : 11 < latencyHistogramEntry) h
  refine ⟨lines, hshow, fun i hi => ?_⟩
  have hlast : 11 < zeroIndex info.latencyHist latencyHistogramEntry := lt_zeroIndex (by decide) h
  exact ⟨_, by rw [hrows, if_pos (by omega)]⟩

/-- From one to 4095 milliseconds the bucket is the one whose range has them. -/
theorem bucketOf_eq_iff {ms : Nat} (hpos : 1 ≤ ms) (hlt : ms < 4096) :
    (2 ^ i ≤ ms ∧ ms ≤ 2 ^ (i + 1) - 1) ↔ i = bucketOf ms := by
  have hlog : Nat.log 2 ms ≤ 11 := by
    have : Nat.log 2 ms < 12 := Nat.log_lt_of_lt_pow (by omega) hlt
    omega
  have hbucket : bucketOf ms = Nat.log 2 ms := by
    rw [bucketOf, Nat.max_eq_right hpos, Nat.min_eq_right hlog]
  have hoctave := isOctave_log hpos
  have hlow := hoctave.pow_mul_le_iff (i := i)
  have hhigh := hoctave.lt_pow_mul_iff (i := i)
  rw [Nat.mul_one] at hlow hhigh
  rw [hbucket, hlow, Nat.le_sub_one_iff_lt (Nat.two_pow_pos _), hhigh]
  omega

theorem covers_iff_bucket {ms : Nat} (hpos : 1 ≤ ms) (hlt : ms < 4096)
    (h : distributionShow info = some (b, lines)) (hr : rowFor lines i = some r) :
    r.Covers False ms ↔ i = bucketOf ms := by
  obtain ⟨-, hmin, hmax⟩ := rowFor_distributionShow h hr
  rw [← bucketOf_eq_iff hpos hlt, HistogramRow.Covers, hmin, hmax, Nat.cast_le, Nat.cast_le, false_or]

/-- **The bucket law.** A latency makes the loop end, whatever number of turns from 64 on it is
allowed; its milliseconds are added to the sum, and the bucket of their logarithm, or the last one,
is counted up and no other. From one to 4095 milliseconds this is the bucket whose printed range has
them. The printed ranges are consecutive, and where all are printed they cover these milliseconds
and no others. -/
theorem latency_bucket_law (info : Info) (delta : UInt64) :
    (∀ fuel ≥ 64, shiftWhile (fun d => decide (d > 0)) fuel ((delta / 1000000) >>> 1) 0
        = Nat.log 2 (max 1 (millis delta)))
      ∧ (latencyHistogramStore info delta).sumLat.toNat
        = (info.sumLat.toNat + millis delta) % 2 ^ 64
      ∧ (latencyHistogramStore info delta).latencyHist
        = Function.update info.latencyHist (bucketOf (millis delta))
          (info.latencyHist (bucketOf (millis delta)) + 1)
      ∧ (1 ≤ millis delta → millis delta < 4096 → ∀ shown b lines i r,
        distributionShow shown = some (b, lines) → rowFor lines i = some r →
          (r.Covers False (millis delta) ↔ i = bucketOf (millis delta)))
      ∧ (∀ shown b lines, distributionShow shown = some (b, lines) →
        ∀ i r r', rowFor lines i = some r → rowFor lines (i + 1) = some r' → r'.min = r.max + 1)
      ∧ (∀ shown : Info, shown.latencyHist 11 ≠ 0 → ∃ lines, distributionShow shown = some (true, lines)
        ∧ (∀ i < 12, ∃ r, rowFor lines i = some r)
        ∧ ∀ ms : Nat, (1 ≤ ms ∧ ms ≤ 4095) ↔ ∃ i r, rowFor lines i = some r ∧ r.Covers False ms) := by
  refine ⟨?_, ?_, ?_, ?_, ?_, ?_⟩
  · intro fuel hfuel
    rw [halvings_eq_log _ hfuel, toNat_div_million]
  · show (info.sumLat + delta / 1000000).toNat = _
    rw [UInt64.toNat_add, toNat_div_million]
  · show Function.update info.latencyHist (latencyIndex (delta / 1000000)) _ = _
    rw [latencyIndex_eq, toNat_div_million]
  · intro hpos hlt shown b lines i r hshow hr
    exact covers_iff_bucket hpos hlt hshow hr
  · intro shown b lines hshow i r r' hr hr'
    obtain ⟨-, -, hmax⟩ := rowFor_distributionShow hshow hr
    obtain ⟨-, hmin, -⟩ := rowFor_distributionShow hshow hr'
    have hpow := Nat.two_pow_pos (i + 1)
    rw [hmin, hmax]
    omega
  · intro shown hlast
    obtain ⟨lines, hshow, hrows⟩ := distributionShow_full hlast
    refine ⟨lines, hshow, hrows, fun ms => ⟨?_, ?_⟩⟩
    · rintro ⟨hpos, hle⟩
      have hbucket : bucketOf ms < 12 := by
        unfold bucketOf
        omega
      obtain ⟨r, hr⟩ := hrows (bucketOf ms) hbucket
      exact ⟨bucketOf ms, r, hr, (covers_iff_bucket hpos (by omega) hshow hr).mpr rfl⟩
    · rintro ⟨i, r, hr, hlow, hhigh⟩
      obtain ⟨hi, hmin, hmax⟩ := rowFor_distributionShow hshow hr
      have hfirst := Nat.two_pow_pos i
      have hend : 2 ^ (i + 1) ≤ 2 ^ 12 := Nat.pow_le_pow_right (by decide) (by omega)
      rw [hmin] at hlow
      rw [hmax, false_or] at hhigh
      omega

end UioLinuxSample.Runqlat
