import UioLinuxSample.Histogram
import UioLinuxSample.Irqoff.Counting
import UioLinuxSample.Lib.Tally

set_option autoImplicit false

/-! # `distribution` and `distribute`, read while delays are counted

Every CPU counts its delays in words of its own. The show functions add these words up, one load at a
time and without stopping the CPUs, so that the table they print mixes counts of different moments.
Still each row lies between the number of delays counted when the read began and the number counted
when it ended (`concurrent_distribution`). If no handler runs meanwhile, the table is the one of the
show function on its own (`distributionShow_eq_shown`, `distributeShowOne_eq_shown`).
-/

namespace UioLinuxSample

open Run Tally

/-! ## All the CPUs of a machine -/

/-- The counters of one CPU, and the bucket in which an event is counted. -/
structure CpuCounters (σ ε : Type) where
  start : σ
  step : σ → ε → σ
  word : σ → Nat → UInt64
  counted : σ → ε → Option Nat

section Machine

variable {σ ε : Type} (K : CpuCounters σ ε)

structure CpuCounters.Lawful : Prop where
  zero : ∀ i, K.word K.start i = 0
  step : ∀ s e i,
    K.word (K.step s e) i = K.word s i + UInt64.ofNat (if K.counted s e = some i then 1 else 0)

/-- Every CPU has its state; an event happens on one of them. -/
def CpuCounters.machine : Counters (Nat → σ) (Nat × ε) (Nat × Nat) where
  step s e := Function.update s e.1 (K.step (s e.1) e.2)
  word s c := K.word (s c.1) c.2
  adds s e c := if e.1 = c.1 ∧ K.counted (s e.1) e.2 = some c.2 then 1 else 0

/-- How many delays the run has counted in a bucket, on these CPUs together. -/
def CpuCounters.total (cpus : List Nat) (es : List (Nat × ε)) (i : Nat) : Nat :=
  (cpus.map fun cpu => K.machine.added (fun _ => K.start) es (cpu, i)).sum

/-- The show function at its start: `for_each_online_cpu`, bucket after bucket. -/
def showing (cpus : List Nat) (size : Nat) (s : Nat → σ) : Reading (Nat → σ) (Nat × Nat) Nat where
  state := s
  todo := cpus.flatMap fun cpu => (List.range size).map fun i => ((cpu, i), i)
  sums := fun _ => 0

/-- A show function that starts after `before` and runs through `during`. -/
def CpuCounters.shown (cpus : List Nat) (size : Nat) (before : List (Nat × ε))
    (during : List (Event (Nat × ε))) : Reading (Nat → σ) (Nat × Nat) Nat :=
  run (readStep K.machine) (showing cpus size (run K.machine.step (fun _ => K.start) before)) during

theorem update_count (f : Nat → UInt64) (j i : Nat) :
    Function.update f j (f j + 1) i = f i + UInt64.ofNat (if some j = some i then 1 else 0) := by
  rcases eq_or_ne j i with rfl | hne
  · simp
  · simp [hne, Function.update_of_ne hne.symm]

variable {K}

theorem CpuCounters.Lawful.machine (hK : K.Lawful) : K.machine.Lawful := by
  rintro s ⟨cpu, e⟩ ⟨cpu', i⟩
  simp only [CpuCounters.machine]
  rcases eq_or_ne cpu cpu' with rfl | hne
  · rw [Function.update_self, hK.step]
    simp
  · rw [Function.update_of_ne hne.symm, if_neg fun h => hne h.1]
    exact (UInt64.add_zero _).symm

theorem share_showing (count : Nat × Nat → Nat) (cpus : List Nat) {size i : Nat} (hi : i < size)
    (s : Nat → σ) :
    share count i (showing cpus size s).todo = (cpus.map fun cpu => count (cpu, i)).sum := by
  unfold showing
  induction cpus with
  | nil => rfl
  | cons cpu cpus ih =>
      rw [List.flatMap_cons, share_append, share_row count (fun j => (cpu, j)), if_pos hi, ih]
      rfl

/-- A read during which nothing is counted. -/
theorem shown_quiet (hK : K.Lawful) {cpus : List Nat} {size : Nat} {before : List (Nat × ε)}
    {during : List (Event (Nat × ε))} (hquiet : during.filterMap Event.own = [])
    (hdone : (K.shown cpus size before during).todo = []) {i : Nat} (hi : i < size) :
    (K.shown cpus size before during).sums i
      = ((cpus.map (run K.machine.step (fun _ => K.start) before)).map fun st => K.word st i).sum := by
  have hsums := sums_quiet hK.machine hquiet
    (showing cpus size (run K.machine.step (fun _ => K.start) before)) hdone i
  rw [share_showing _ cpus hi] at hsums
  rw [List.map_map, ← ofNat_sum_toNat, List.map_map]
  exact hsums.trans (UInt64.zero_add _)

/-- **A read lies in between.** -/
theorem shown_between (hK : K.Lawful) {cpus : List Nat} {size : Nat} {before : List (Nat × ε)}
    {during : List (Event (Nat × ε))} (hdone : (K.shown cpus size before during).todo = [])
    {i : Nat} (hi : i < size) :
    ∃ n, (K.shown cpus size before during).sums i = UInt64.ofNat n
      ∧ K.total cpus before i ≤ n
      ∧ n ≤ K.total cpus (before ++ during.filterMap Event.own) i := by
  have hcount : ∀ c, K.machine.word (run K.machine.step (fun _ => K.start) before) c
      = UInt64.ofNat (K.machine.added (fun _ => K.start) before c) := fun c => by
    rw [hK.machine.word_run]
    exact (congrArg (· + _) (hK.zero c.2)).trans (UInt64.zero_add _)
  obtain ⟨n, hn, hlow, hhigh⟩ := sums_between hK.machine during
    (showing cpus size (run K.machine.step (fun _ => K.start) before)) _ hcount hdone i
  rw [share_showing _ cpus hi] at hlow hhigh
  refine ⟨n, hn.trans (UInt64.zero_add _), hlow, hhigh.trans (Nat.le_of_eq ?_)⟩
  simp only [CpuCounters.total, Counters.added_append]
  rfl

end Machine

/-! ## `trace_noschedule.c` -/

namespace Noschedule

/-- The handlers of a CPU, with the globals they read. -/
inductive CpuEvent where
  | tick (threshold : UInt64) (t : Tick)
  | schedSwitch (enable : Bool) (w : Switch)
  | hrtimerStart (now : UInt64)

def CpuEvent.step (k : Kernel) (st : PerCpuStackTrace) : CpuEvent → PerCpuStackTrace
  | .tick threshold t => traceNoschedHrtimerHandler k threshold st t
  | .schedSwitch enable w => probeSchedSwitch enable st w
  | .hrtimerStart now => { st with lastTimestamp := now }

/-- The octave of a delay over two sampling periods; the last bucket takes the rest. -/
def durationBucket (delta : UInt64) : Nat := min 11 (Nat.log 2 (delta.toNat / histStep.toNat))

/-- The switch ends a stretch that kept another thread waiting. -/
def Switch.Waited (w : Switch) : Prop := w.prev.idle = false ∧ singleTaskRunning w.nrRunning = false

instance (w : Switch) : Decidable w.Waited := inferInstanceAs (Decidable (_ ∧ _))

def CpuEvent.counted (st : PerCpuStackTrace) : CpuEvent → Option Nat
  | .schedSwitch enable w =>
      if enable = true ∧ w.Waited ∧ histStep ≤ w.now - st.lastTimestamp then
        some (durationBucket (w.now - st.lastTimestamp))
      else none
  | .tick _ _ | .hrtimerStart _ => none

/-- The counters that `distribution_show` adds up. -/
def counters (k : Kernel) : CpuCounters PerCpuStackTrace CpuEvent where
  start := .zero
  step := CpuEvent.step k
  word st i := st.hist i
  counted := CpuEvent.counted

theorem hrtimerHandler_hist (k : Kernel) (threshold : UInt64) (st : PerCpuStackTrace) (t : Tick) :
    (traceNoschedHrtimerHandler k threshold st t).hist = st.hist := by
  cases hb : t.busy with
  | false => rw [hrtimerHandler_of_not_busy k hb]
  | true =>
      by_cases hs : Saves threshold st t
      · rw [hrtimerHandler_of_saves k hs]
        rfl
      · rw [hrtimerHandler_of_not_saves k hb hs]

theorem histUpdate_hist (st : PerCpuStackTrace) {delta : UInt64} (h : histStep ≤ delta) :
    (histUpdate st delta).hist
      = Function.update st.hist (durationBucket delta) (st.hist (durationBucket delta) + 1) := by
  obtain ⟨k, hk⟩ := exists_isOctave (by decide) (UInt64.le_iff_toNat_le.mp h)
  have hpos : 0 < histStep.toNat := by decide
  have hlog : Nat.log 2 (delta.toNat / histStep.toNat) = k := by
    refine (Nat.log_eq_iff (Or.inr ⟨by decide, (Nat.div_pos ?_ hpos).ne'⟩)).mpr ⟨?_, ?_⟩
    · exact UInt64.le_iff_toNat_le.mp h
    · exact (Nat.le_div_iff_mul_le hpos).mpr hk.le
    · exact (Nat.div_lt_iff_lt_mul hpos).mpr hk.lt
  rw [histUpdate_octave st hk, durationBucket, hlog]

theorem completeSwitch_hist (st : PerCpuStackTrace) (w : Switch) :
    (completeSwitch st w).hist
      = if w.Waited ∧ histStep ≤ w.now - st.lastTimestamp then
          Function.update st.hist (durationBucket (w.now - st.lastTimestamp))
            (st.hist (durationBucket (w.now - st.lastTimestamp)) + 1)
        else st.hist := by
  have hwaited : (!w.prev.idle && !singleTaskRunning w.nrRunning) = decide w.Waited := by
    rw [Bool.eq_iff_iff, decide_eq_true_iff]
    simp [Switch.Waited]
  unfold completeSwitch
  rw [hwaited]
  by_cases hw : w.Waited
  · by_cases hlong : histStep ≤ w.now - st.lastTimestamp
    · simp only [hw, decide_true, if_true, true_and, hlong, histUpdate_hist]
      cases st.skip <;> rfl
    · simp only [hw, decide_true, if_true, true_and, hlong, if_false,
        histUpdate_of_lt _ (UInt64.not_le.mp hlong)]
      cases st.skip <;> rfl
  · simp only [hw, decide_false, false_and, if_false]
    cases st.skip <;> rfl

theorem lawful_counters (k : Kernel) : (counters k).Lawful where
  zero _ := rfl
  step st e i := by
    cases e with
    | tick threshold t => simp [counters, CpuEvent.step, CpuEvent.counted, hrtimerHandler_hist]
    | hrtimerStart now => simp [counters, CpuEvent.step, CpuEvent.counted]
    | schedSwitch enable w =>
        cases enable with
        | false => simp [counters, CpuEvent.step, CpuEvent.counted, probeSchedSwitch]
        | true =>
            simp only [counters, CpuEvent.step, CpuEvent.counted, probeSchedSwitch, Bool.not_true,
              Bool.false_eq_true, if_false, completeSwitch_hist, true_and]
            split
            · exact update_count _ _ _
            · simp

/-- When no handler runs meanwhile, the table of the sums is that of `distribution_show`. -/
theorem distributionShow_eq_shown (k : Kernel) {cpus : List Nat} {before : List (Nat × CpuEvent)}
    {during : List (Tally.Event (Nat × CpuEvent))} (hquiet : during.filterMap Tally.Event.own = [])
    (hdone : ((counters k).shown cpus durationHistogramEntry before during).todo = []) :
    distributionShow (cpus.map (run (counters k).machine.step (fun _ => .zero) before))
      = histogramShow (some "Trace noschedule thread:")
          ((counters k).shown cpus durationHistogramEntry before during).sums
          durationHistogramEntry (samplingPeriod * 2 / 1000000).toUInt32 := by
  rw [distributionShow, foldl_hist]
  exact histogramShow_congr (fun i hi => (shown_quiet (lawful_counters k) hquiet hdone hi).symm) _ _

end Noschedule

/-! ## `trace_irqoff.c` -/

namespace Irqoff

/-- The handlers of a CPU, with the configuration they read. -/
inductive CpuEvent where
  | hrtimer (cfg : Config) (t : Tick)
  | timer (cfg : Config) (t : Tick)
  | timersStart (now : UInt64)

def CpuEvent.step (k : Kernel) (st : PerCpuStackTrace) : CpuEvent → PerCpuStackTrace
  | .hrtimer cfg t => traceIrqoffHrtimerHandler k cfg st t
  | .timer cfg t => traceIrqoffTimerHandler k cfg st t
  | .timersStart now => smpTimersStart st now

/-- The bucket of a delay that counts. -/
def delayBucket (cfg : Config) (delta : UInt64) : Option Nat :=
  if delta < cfg.throttle then none else some (latencyIndex cfg.throttle delta)

def CpuEvent.counted (hardirq : Bool) (st : PerCpuStackTrace) : CpuEvent → Option Nat
  | .hrtimer cfg t => if hardirq then delayBucket cfg (gap st t.now) else none
  | .timer cfg t => if hardirq then none else delayBucket cfg (softGap st t.now)
  | .timersStart _ => none

/-- The counters that `distribute_show_one` adds up. -/
def counters (k : Kernel) (hardirq : Bool) : CpuCounters PerCpuStackTrace CpuEvent where
  start := .zero
  step := CpuEvent.step k
  word st i := if hardirq then st.hardirqTrace.latencyCount i else st.softirqTrace.latencyCount i
  counted := CpuEvent.counted hardirq

section Laws

variable (k : Kernel) (cfg : Config) (st : PerCpuStackTrace) (t : Tick) (i : Nat)

theorem hrtimerHandler_counts :
    (traceIrqoffHrtimerHandler k cfg st t).hardirqTrace.latencyCount i
      = st.hardirqTrace.latencyCount i
        + UInt64.ofNat (if delayBucket cfg (gap st t.now) = some i then 1 else 0) := by
  unfold delayBucket
  by_cases hlate : gap st t.now < cfg.throttle
  · rw [(hrtimerHandler_latencyCount k cfg st t).2 hlate]
    simp [hlate]
  · rw [hrtimerHandler_hardirq k cfg st t hlate, if_neg hlate]
    simp only [saveIfLong_latencyCount]
    exact update_count _ _ _

theorem timerHandler_counts :
    (traceIrqoffTimerHandler k cfg st t).softirqTrace.latencyCount i
      = st.softirqTrace.latencyCount i
        + UInt64.ofNat (if delayBucket cfg (softGap st t.now) = some i then 1 else 0) := by
  unfold delayBucket
  by_cases hlate : softGap st t.now < cfg.throttle
  · rw [timerHandler_quiet k cfg st t hlate]
    simp [hlate, StackTraceMetadata.stamp]
  · rw [timerHandler_softirq k cfg st t hlate, if_neg hlate]
    simp only [saveIfLong_latencyCount]
    exact update_count _ _ _

theorem timerHandler_hardirqTrace :
    (traceIrqoffTimerHandler k cfg st t).hardirqTrace = st.hardirqTrace := by
  by_cases hlate : softGap st t.now < cfg.throttle
  · rw [timerHandler_quiet k cfg st t hlate]
  · rw [timerHandler_softirq k cfg st t hlate]

end Laws

theorem lawful_counters (k : Kernel) (hardirq : Bool) : (counters k hardirq).Lawful where
  zero i := ite_self 0
  step st e i := by
    -- each of the two handlers counts in its own histogram and leaves the other alone
    cases e with
    | timersStart now =>
        cases hardirq <;> simp [counters, CpuEvent.step, CpuEvent.counted, smpTimersStart,
          StackTraceMetadata.stamp]
    | hrtimer cfg t =>
        cases hardirq with
        | true => exact hrtimerHandler_counts k cfg st t i
        | false =>
            simp [counters, CpuEvent.step, CpuEvent.counted,
              (hrtimerHandler_latencyCount k cfg st t).1]
    | timer cfg t =>
        cases hardirq with
        | true =>
            simp [counters, CpuEvent.step, CpuEvent.counted, timerHandler_hardirqTrace]
        | false => exact timerHandler_counts k cfg st t i

/-- When no handler runs meanwhile, the table of the sums is that of `distribute_show_one`. -/
theorem distributeShowOne_eq_shown (k : Kernel) (cfg : Config) (hardirq : Bool) {cpus : List Nat}
    {before : List (Nat × CpuEvent)} {during : List (Tally.Event (Nat × CpuEvent))}
    (hquiet : during.filterMap Tally.Event.own = [])
    (hdone : ((counters k hardirq).shown cpus maxLatencyRecord before during).todo = []) :
    distributeShowOne cfg (cpus.map (run (counters k hardirq).machine.step (fun _ => .zero) before)) hardirq
      = histogramShow (some (if hardirq then "hardirq-off:" else "softirq-off:"))
          ((counters k hardirq).shown cpus maxLatencyRecord before during).sums maxLatencyRecord
          (cfg.throttle / 1000000).toUInt32 := by
  unfold distributeShowOne
  dsimp only
  rw [foldl_latencyCount]
  refine histogramShow_congr (fun i hi => ?_) _ _
  rw [shown_quiet (lawful_counters k hardirq) hquiet hdone hi]
  cases hardirq <;> rfl

end Irqoff

/-- **The tables hold what was counted.** While `distribution_show` or `distribute_show_one` adds up
the buckets of the online CPUs, the handlers of all CPUs run on. Whatever the order, each bucket of
the sum is a number of delays between those counted in it before the read and those counted in it
until its end. -/
theorem concurrent_distribution (k : Kernel) (cpus : List Nat) :
    (∀ before during,
      let K := Noschedule.counters k
      let r := K.shown cpus Noschedule.durationHistogramEntry before during
      r.todo = [] → ∀ i < Noschedule.durationHistogramEntry, ∃ n, r.sums i = UInt64.ofNat n
        ∧ K.total cpus before i ≤ n
        ∧ n ≤ K.total cpus (before ++ during.filterMap Event.own) i)
    ∧ (∀ hardirq before during,
      let K := Irqoff.counters k hardirq
      let r := K.shown cpus Irqoff.maxLatencyRecord before during
      r.todo = [] → ∀ i < Irqoff.maxLatencyRecord, ∃ n, r.sums i = UInt64.ofNat n
        ∧ K.total cpus before i ≤ n
        ∧ n ≤ K.total cpus (before ++ during.filterMap Event.own) i) :=
  ⟨fun _ _ hdone _ hi => shown_between (Noschedule.lawful_counters k) hdone hi,
    fun hardirq _ _ hdone _ hi => shown_between (Irqoff.lawful_counters k hardirq) hdone hi⟩

/-- A switch that ends a stretch of 30 ms since the time `0`. -/
def longStretch (cpu : Nat) : Nat × Noschedule.CpuEvent :=
  (cpu, .schedSwitch true ⟨30000000, ⟨7, Comm.empty, false, taskRunning, 0⟩, 2⟩)

/-- A read of two CPUs. When it has passed the first one, a delay is counted on each of them. -/
def halfwayRead : List (Event (Nat × Noschedule.CpuEvent)) :=
  List.replicate 12 .load ++ [.run (longStretch 0), .run (longStretch 1)] ++ List.replicate 12 .load

/-- The read at its end. -/
def halfwayTable : Reading (Nat → Noschedule.PerCpuStackTrace) (Nat × Nat) Nat :=
  (Noschedule.counters ⟨false, false⟩).shown [0, 1] Noschedule.durationHistogramEntry [] halfwayRead

/-- One of the two delays is shown, although it was counted after the other. -/
theorem concurrent_distribution_halfway :
    halfwayTable.todo = [] ∧ halfwayTable.sums 0 = 1
      ∧ ∃ n, halfwayTable.sums 0 = UInt64.ofNat n
        ∧ (Noschedule.counters ⟨false, false⟩).total [0, 1] [] 0 ≤ n
        ∧ n ≤ (Noschedule.counters ⟨false, false⟩).total [0, 1] [longStretch 0, longStretch 1] 0 := by
  have hdone : halfwayTable.todo = [] := by decide +kernel
  exact ⟨hdone, by decide +kernel,
    (concurrent_distribution ⟨false, false⟩ [0, 1]).1 [] halfwayRead hdone 0 (by decide)⟩

end UioLinuxSample
