import UioLinuxSample.Irqoff.Model
import UioLinuxSample.Lib.Run
import Mathlib.Data.UInt

set_option autoImplicit false

/-! # `trace_irqoff.c`: what the counters count

The two handlers share timestamps: a tick of the high-resolution timer that has found
interrupts off also moves the softirq timestamp, so that the time with interrupts off is not
counted against softirqs as well. `counting_law` says that nothing is counted twice and nothing
is lost: over every run from `smp_timers_start` on, each histogram holds as many delays as there
were late ticks of its timer since the last clear, whatever early softirq records were saved in
between, and between two ticks of the low-resolution timer there is at most one of those.

A delay is late from two sampling periods on. The code computes with `sampling_period << 1`,
which is `2 * samplingPeriod` in 64 bits (`throttle_eq`).
-/

namespace UioLinuxSample.Irqoff

open Run

/-! ## The sum of a histogram -/

/-- All delays counted in a histogram, modulo `2^64`. -/
def total (latencyCount : Nat → UInt64) : UInt64 :=
  ∑ i ∈ Finset.range maxLatencyRecord, latencyCount i

theorem latencyIndex_lt (throttle delta : UInt64) :
    latencyIndex throttle delta < maxLatencyRecord := by
  obtain ⟨i, hi, -⟩ := latencyIndex_spec throttle delta
  have hmax : maxLatencyRecord = 10 := rfl
  omega

/-- Counting a delay adds one, whatever its bucket. -/
theorem total_count (m : StackTraceMetadata) {index : Nat} (h : index < maxLatencyRecord) :
    total (m.count index).latencyCount = total m.latencyCount + 1 := by
  have hmem : index ∈ Finset.range maxLatencyRecord := Finset.mem_range.mpr h
  unfold total StackTraceMetadata.count
  rw [Finset.sum_update_of_mem hmem, Finset.sum_eq_add_sum_sdiff_singleton_of_mem hmem]
  abel

theorem total_clear (m : StackTraceMetadata) : total m.clear.latencyCount = 0 := by
  refine Finset.sum_eq_zero fun i hi => ?_
  exact if_pos (Finset.mem_range.mp hi)

theorem throttle_eq (cfg : Config) : cfg.throttle = 2 * cfg.samplingPeriod := by
  refine UInt64.toNat_inj.mp ?_
  rw [Config.throttle, UInt64.toNat_shiftLeft, UInt64.toNat_mul]
  simp [Nat.shiftLeft_eq, Nat.mul_comm]

/-! ## The history -/

/-- The step publishes a record marked `more` in the softirq buffer. -/
def savesMore (st st' : PerCpuStackTrace) : Bool :=
  decide (st.softirqTrace.nrIrqoffTrace < st'.softirqTrace.nrIrqoffTrace)
    && (st'.softirqTrace.latency st.softirqTrace.nrIrqoffTrace).more

/-- What has happened on the CPU: the last clock reading, the last tick of the high-resolution
timer (or the start), when softirqs were last seen to run, the late ticks of both timers since
the last clear, and the records marked `more` since the last tick of the low-resolution timer. -/
structure Counts where
  clock : UInt64
  lastTick : UInt64
  softSeen : UInt64
  hard : Nat
  soft : Nat
  more : Nat

def Counts.start (now : UInt64) : Counts := ⟨now, now, now, 0, 0, 0⟩

/-- The time from `since` to `now` is two sampling periods or more. -/
def late (cfg : Config) (since now : UInt64) : Bool :=
  decide (2 * cfg.samplingPeriod ≤ now - since)

def Counts.next (k : Kernel) (g : Counts) (s : State) (e : Event) : Counts :=
  match e with
  | .hrtimer t =>
      let off := late s.cfg g.lastTick t.now
      { g with
        clock := t.now
        lastTick := t.now
        softSeen := if off then t.now else g.softSeen
        hard := g.hard + off.toNat
        more := g.more + (savesMore s.cpu (step k s e).cpu).toNat }
  | .timer t =>
      { g with
        clock := t.now
        softSeen := t.now
        soft := g.soft + (late s.cfg g.softSeen t.now).toNat
        more := 0 }
  | .traceLatency (some 0) => { g with hard := 0, soft := 0 }
  | _ => g

/-- Ticks of both timers, with a clock that never goes back, and writes of `trace_latency`. -/
def Sampling (w : State × Counts) : Event → Prop
  | .hrtimer t => w.2.clock ≤ t.now
  | .timer t => w.2.clock ≤ t.now
  | .traceLatency _ => True
  | _ => False

instance (w : State × Counts) : ∀ e, Decidable (Sampling w e)
  | .hrtimer t => inferInstanceAs (Decidable (w.2.clock ≤ t.now))
  | .timer t => inferInstanceAs (Decidable (w.2.clock ≤ t.now))
  | .traceLatency _ => inferInstanceAs (Decidable True)
  | .enable _ _ => inferInstanceAs (Decidable False)
  | .samplingPeriod _ => inferInstanceAs (Decidable False)

/-! ## The law -/

/-- What holds of every state. -/
structure CountingLaw (w : State × Counts) : Prop where
  hard_last : w.1.cpu.hardirqTrace.lastTimestamp = w.2.lastTick ∧ w.2.lastTick ≤ w.2.clock
  soft_last : w.1.cpu.softirqTrace.lastTimestamp = w.2.softSeen ∧ w.2.softSeen ≤ w.2.clock
  hard_total : total w.1.cpu.hardirqTrace.latencyCount = UInt64.ofNat w.2.hard
  soft_total : total w.1.cpu.softirqTrace.latencyCount = UInt64.ofNat w.2.soft
  more_le : w.2.more ≤ 1

/-- What holds of every tick: no delay wraps, and the high-resolution handler counts nothing
for softirqs and nothing at all when it is not late itself. -/
def TickLaw (k : Kernel) (w : State × Counts) : Event → Prop
  | .hrtimer t =>
      w.1.cpu.hardirqTrace.lastTimestamp ≤ t.now ∧ w.1.cpu.softirqTrace.lastTimestamp ≤ t.now
        ∧ (step k w.1 (.hrtimer t)).cpu.softirqTrace.latencyCount
            = w.1.cpu.softirqTrace.latencyCount
        ∧ (late w.1.cfg w.2.lastTick t.now = false →
            (step k w.1 (.hrtimer t)).cpu.hardirqTrace.latencyCount
              = w.1.cpu.hardirqTrace.latencyCount)
  | .timer t => w.1.cpu.softirqTrace.lastTimestamp ≤ t.now
  | _ => True

/-- The law, strengthened by what bounds the early records: one has been saved only if
`softirq_delayed` is set. -/
structure CountInv (w : State × Counts) : Prop extends CountingLaw w where
  guarded : w.2.more ≤ w.1.cpu.softirqDelayed.toNat

theorem late_eq_not_lt (cfg : Config) (since now : UInt64) :
    late cfg since now = !decide (now - since < cfg.throttle) := by
  rw [late, throttle_eq]
  by_cases h : now - since < 2 * cfg.samplingPeriod
  · simp [h, UInt64.not_le.mpr h]
  · simp [h, UInt64.not_lt.mp h]

theorem late_iff (cfg : Config) (since now : UInt64) :
    late cfg since now = true ↔ ¬ now - since < cfg.throttle := by
  simp [late_eq_not_lt]

theorem late_eq_false_iff (cfg : Config) (since now : UInt64) :
    late cfg since now = false ↔ now - since < cfg.throttle := by
  simp [late_eq_not_lt]

/-- What `late` means in integers, as long as two sampling periods fit in 64 bits. -/
theorem late_iff_toNat {cfg : Config} (hcfg : cfg.samplingPeriod.toNat < 2 ^ 63)
    {since now : UInt64} (h : since ≤ now) :
    late cfg since now = true
      ↔ 2 * cfg.samplingPeriod.toNat ≤ now.toNat - since.toNat := by
  have hmul : (2 * cfg.samplingPeriod).toNat = 2 * cfg.samplingPeriod.toNat := by
    rw [UInt64.toNat_mul]
    exact Nat.mod_eq_of_lt (by show 2 * _ < _; omega)
  rw [late, decide_eq_true_eq, UInt64.le_iff_toNat_le, hmul, UInt64.toNat_sub_of_le _ _ h]

theorem CountInv.start (enable : Bool) (cfg : Config) (now : UInt64) :
    CountInv (⟨enable, cfg, smpTimersStart PerCpuStackTrace.zero now⟩, Counts.start now) where
  hard_last := ⟨rfl, UInt64.le_refl _⟩
  soft_last := ⟨rfl, UInt64.le_refl _⟩
  hard_total := by simp [smpTimersStart, PerCpuStackTrace.zero, StackTraceMetadata.zero,
    StackTraceMetadata.stamp, total, Counts.start]
  soft_total := by simp [smpTimersStart, PerCpuStackTrace.zero, StackTraceMetadata.zero,
    StackTraceMetadata.stamp, total, Counts.start]
  more_le := Nat.zero_le _
  guarded := Nat.zero_le _

theorem ofNat_add_one (n : Nat) : UInt64.ofNat (n + 1) = UInt64.ofNat n + 1 := by
  simp

/-- A step that publishes nothing in the softirq buffer saves no early record. -/
theorem savesMore_of_nr_eq {st st' : PerCpuStackTrace}
    (h : st'.softirqTrace.nrIrqoffTrace = st.softirqTrace.nrIrqoffTrace) :
    savesMore st st' = false := by
  simp [savesMore, h]

/-! ## One step -/

section Step

variable (k : Kernel) {s : State} {g : Counts} {t : Tick}

/-- The early record leaves the timestamp and the histogram of its buffer. -/
theorem earlyRecord_kept (cfg : Config) (st : PerCpuStackTrace) :
    (earlyRecord k cfg st t).lastTimestamp = st.softirqTrace.lastTimestamp
      ∧ (earlyRecord k cfg st t).latencyCount = st.softirqTrace.latencyCount := by
  unfold earlyRecord
  split
  · exact ⟨rfl, rfl⟩
  · exact ⟨saveIfLong_lastTimestamp .., saveIfLong_latencyCount ..⟩

/-- A tick of the high-resolution timer that is late itself: the delay is counted once, and the
softirq timestamp moves with the tick. -/
theorem CountInv.hrtimer_late (h : CountInv (s, g))
    (hlate : ¬ gap s.cpu t.now < s.cfg.throttle) :
    CountInv (observe (step k) (Counts.next k) (s, g) (.hrtimer t)) := by
  have hst : (step k s (.hrtimer t)).cpu = _ := hrtimerHandler_hardirq k s.cfg s.cpu t hlate
  have hl : late s.cfg g.lastTick t.now = true := by
    rw [late_iff, ← h.hard_last.1]
    exact hlate
  have hmore : savesMore s.cpu (step k s (.hrtimer t)).cpu = false := by
    refine savesMore_of_nr_eq ?_
    rw [hst]
    rfl
  have hnext : Counts.next k g s (.hrtimer t)
      = ⟨t.now, t.now, t.now, g.hard + 1, g.soft, g.more⟩ := by
    simp [Counts.next, hl, hmore]
  refine ⟨⟨?_, ?_, ?_, ?_, ?_⟩, ?_⟩ <;> simp only [observe, hnext, hst]
  · exact ⟨by rw [saveIfLong_lastTimestamp]; rfl, UInt64.le_refl _⟩
  · exact ⟨rfl, UInt64.le_refl _⟩
  · rw [saveIfLong_latencyCount, total_count _ (latencyIndex_lt _ _), ofNat_add_one,
      ← h.hard_total]
    rfl
  · exact h.soft_total
  · exact h.more_le
  · exact h.guarded

/-- A tick that saves an early softirq record. Nothing is counted, and `softirq_delayed` pays
for the record. -/
theorem CountInv.hrtimer_early (h : CountInv (s, g)) (hclock : g.clock ≤ t.now)
    (hlate : gap s.cpu t.now < s.cfg.throttle) (hd : s.cpu.softirqDelayed = false)
    (hs : s.cfg.traceIrqoffLatency ≤ softGap s.cpu t.now) :
    CountInv (observe (step k) (Counts.next k) (s, g) (.hrtimer t)) := by
  have hst : (step k s (.hrtimer t)).cpu = _ := hrtimerHandler_early k s.cfg s.cpu t hlate hd hs
  have hl : late s.cfg g.lastTick t.now = false := by
    rw [late_eq_false_iff, ← h.hard_last.1]
    exact hlate
  -- the flag is clear, so no early record has been saved in this window
  have hnone : g.more = 0 := by
    have hg : g.more ≤ s.cpu.softirqDelayed.toNat := h.guarded
    rw [hd] at hg
    exact Nat.le_zero.mp hg
  have hnext : Counts.next k g s (.hrtimer t) = { g with
      clock := t.now
      lastTick := t.now
      more := (savesMore s.cpu (step k s (.hrtimer t)).cpu).toNat } := by
    simp [Counts.next, hl, hnone]
  have hle : (savesMore s.cpu (step k s (.hrtimer t)).cpu).toNat ≤ 1 := Bool.toNat_le _
  obtain ⟨hkept, hcount⟩ := earlyRecord_kept k (t := t) s.cfg s.cpu
  refine ⟨⟨?_, ?_, ?_, ?_, ?_⟩, ?_⟩ <;> simp only [observe, hnext, hst]
  · exact ⟨rfl, UInt64.le_refl _⟩
  · exact ⟨hkept.trans h.soft_last.1, UInt64.le_trans h.soft_last.2 hclock⟩
  · exact h.hard_total
  · rw [hcount]
    exact h.soft_total
  · rw [← hst]
    exact hle
  · rw [← hst]
    exact hle

/-- Any other tick of the high-resolution timer. -/
theorem CountInv.hrtimer_quiet (h : CountInv (s, g)) (hclock : g.clock ≤ t.now)
    (hlate : gap s.cpu t.now < s.cfg.throttle)
    (hq : s.cpu.softirqDelayed = true ∨ softGap s.cpu t.now < s.cfg.traceIrqoffLatency) :
    CountInv (observe (step k) (Counts.next k) (s, g) (.hrtimer t)) := by
  have hst : (step k s (.hrtimer t)).cpu = _ := hrtimerHandler_quiet k s.cfg s.cpu t hlate hq
  have hl : late s.cfg g.lastTick t.now = false := by
    rw [late_eq_false_iff, ← h.hard_last.1]
    exact hlate
  have hmore : savesMore s.cpu (step k s (.hrtimer t)).cpu = false := by
    refine savesMore_of_nr_eq ?_
    rw [hst]
  have hnext : Counts.next k g s (.hrtimer t) = { g with clock := t.now, lastTick := t.now } := by
    simp [Counts.next, hl, hmore]
  refine ⟨⟨?_, ?_, ?_, ?_, ?_⟩, ?_⟩ <;> simp only [observe, hnext, hst]
  · exact ⟨rfl, UInt64.le_refl _⟩
  · exact ⟨h.soft_last.1, UInt64.le_trans h.soft_last.2 hclock⟩
  · exact h.hard_total
  · exact h.soft_total
  · exact h.more_le
  · exact h.guarded

theorem Counts.next_timer : Counts.next k g s (.timer t) = { g with
    clock := t.now
    softSeen := t.now
    soft := g.soft + (late s.cfg g.softSeen t.now).toNat
    more := 0 } := rfl

/-- A run of the softirq timer that is late: the delay is counted once, and `softirq_delayed`
is reset. -/
theorem CountInv.timer_late (h : CountInv (s, g)) (hclock : g.clock ≤ t.now)
    (hlate : ¬ softGap s.cpu t.now < s.cfg.throttle) :
    CountInv (observe (step k) (Counts.next k) (s, g) (.timer t)) := by
  have hst : (step k s (.timer t)).cpu = _ := timerHandler_softirq k s.cfg s.cpu t hlate
  have hl : late s.cfg g.softSeen t.now = true := by
    rw [late_iff, ← h.soft_last.1]
    exact hlate
  refine ⟨⟨?_, ?_, ?_, ?_, ?_⟩, ?_⟩ <;> simp only [observe, Counts.next_timer, hst, hl]
  · exact ⟨h.hard_last.1, UInt64.le_trans h.hard_last.2 hclock⟩
  · exact ⟨by rw [saveIfLong_lastTimestamp]; rfl, UInt64.le_refl _⟩
  · exact h.hard_total
  · rw [saveIfLong_latencyCount, total_count _ (latencyIndex_lt _ _), Bool.toNat_true,
      ofNat_add_one, ← h.soft_total]
    rfl
  · exact Nat.zero_le _
  · exact Nat.zero_le _

/-- A run of the softirq timer in time. -/
theorem CountInv.timer_quiet (h : CountInv (s, g)) (hclock : g.clock ≤ t.now)
    (hlate : softGap s.cpu t.now < s.cfg.throttle) :
    CountInv (observe (step k) (Counts.next k) (s, g) (.timer t)) := by
  have hst : (step k s (.timer t)).cpu = _ := timerHandler_quiet k s.cfg s.cpu t hlate
  have hl : late s.cfg g.softSeen t.now = false := by
    rw [late_eq_false_iff, ← h.soft_last.1]
    exact hlate
  refine ⟨⟨?_, ?_, ?_, ?_, ?_⟩, ?_⟩ <;> simp only [observe, Counts.next_timer, hst, hl]
  · exact ⟨h.hard_last.1, UInt64.le_trans h.hard_last.2 hclock⟩
  · exact ⟨rfl, UInt64.le_refl _⟩
  · exact h.hard_total
  · exact h.soft_total
  · exact Nat.zero_le _
  · exact Nat.zero_le _

theorem CountInv.timer (h : CountInv (s, g)) (hclock : g.clock ≤ t.now) :
    CountInv (observe (step k) (Counts.next k) (s, g) (.timer t)) := by
  by_cases hlate : softGap s.cpu t.now < s.cfg.throttle
  · exact h.timer_quiet k hclock hlate
  · exact h.timer_late k hclock hlate

theorem CountInv.traceLatency (h : CountInv (s, g)) (latency : Option UInt64) :
    CountInv (observe (step k) (Counts.next k) (s, g) (.traceLatency latency)) := by
  by_cases h0 : latency = some 0
  · subst h0
    exact ⟨⟨h.hard_last, h.soft_last, total_clear _, total_clear _, h.more_le⟩, h.guarded⟩
  · have hnext : Counts.next k g s (.traceLatency latency) = g := by
      unfold Counts.next
      split <;> simp_all
    have hcpu : (step k s (.traceLatency latency)).cpu = s.cpu := by
      cases latency with
      | none => rfl
      | some v =>
          have hv : v ≠ 0 := fun hv => h0 (by rw [hv])
          simp only [step, traceLatencyWrite, if_neg hv]
          split <;> rfl
    refine ⟨⟨?_, ?_, ?_, ?_, ?_⟩, ?_⟩ <;> simp only [observe, hnext, hcpu]
    · exact h.hard_last
    · exact h.soft_last
    · exact h.hard_total
    · exact h.soft_total
    · exact h.more_le
    · exact h.guarded

end Step

theorem CountInv.step (k : Kernel) (w : State × Counts) (e : Event) (h : CountInv w)
    (hok : Sampling w e) : CountInv (observe (step k) (Counts.next k) w e) := by
  obtain ⟨s, g⟩ := w
  cases e with
  | hrtimer t =>
      by_cases hlate : gap s.cpu t.now < s.cfg.throttle
      · cases hd : s.cpu.softirqDelayed with
        | true => exact h.hrtimer_quiet k hok hlate (Or.inl hd)
        | false =>
            by_cases hs : s.cfg.traceIrqoffLatency ≤ softGap s.cpu t.now
            · exact h.hrtimer_early k hok hlate hd hs
            · exact h.hrtimer_quiet k hok hlate (Or.inr (UInt64.not_le.mp hs))
      · exact h.hrtimer_late k hlate
  | timer t => exact h.timer k hok
  | traceLatency latency => exact h.traceLatency k latency
  | enable enable now => exact hok.elim
  | samplingPeriod period => exact hok.elim

/-- The high-resolution handler counts nothing for softirqs, and nothing at all when it is not
late itself. -/
theorem hrtimerHandler_latencyCount (k : Kernel) (cfg : Config) (st : PerCpuStackTrace)
    (t : Tick) :
    (traceIrqoffHrtimerHandler k cfg st t).softirqTrace.latencyCount
        = st.softirqTrace.latencyCount
      ∧ (gap st t.now < cfg.throttle →
          (traceIrqoffHrtimerHandler k cfg st t).hardirqTrace.latencyCount
            = st.hardirqTrace.latencyCount) := by
  by_cases hlate : gap st t.now < cfg.throttle
  · by_cases hq : st.softirqDelayed = true ∨ softGap st t.now < cfg.traceIrqoffLatency
    · rw [hrtimerHandler_quiet k cfg st t hlate hq]
      exact ⟨rfl, fun _ => rfl⟩
    · push Not at hq
      rw [hrtimerHandler_early k cfg st t hlate (by simpa using hq.1) (UInt64.not_lt.mp hq.2)]
      exact ⟨(earlyRecord_kept k cfg st).2, fun _ => rfl⟩
  · rw [hrtimerHandler_hardirq k cfg st t hlate]
    exact ⟨rfl, fun hlt => absurd hlt hlate⟩

theorem CountInv.tickLaw (k : Kernel) (w : State × Counts) (e : Event) (h : CountInv w)
    (hok : Sampling w e) : TickLaw k w e := by
  obtain ⟨s, g⟩ := w
  have hsoft : s.cpu.softirqTrace.lastTimestamp ≤ g.clock := by
    rw [h.soft_last.1]
    exact h.soft_last.2
  cases e with
  | hrtimer t =>
      have hhard : s.cpu.hardirqTrace.lastTimestamp ≤ g.clock := by
        rw [h.hard_last.1]
        exact h.hard_last.2
      have hcount := hrtimerHandler_latencyCount k s.cfg s.cpu t
      refine ⟨UInt64.le_trans hhard hok, UInt64.le_trans hsoft hok, hcount.1, fun hl => ?_⟩
      rw [late_eq_false_iff, ← h.hard_last.1] at hl
      exact hcount.2 hl
  | timer t => exact UInt64.le_trans hsoft hok
  | traceLatency latency => trivial
  | enable enable now => trivial
  | samplingPeriod period => trivial

/-- **The counting law.** In every run that starts the timers on zeroed memory and continues
with ticks of both timers and writes of `trace_latency`, no delay wraps, each histogram counts
the late ticks of its timer since the last clear, and between two ticks of the low-resolution
timer at most one record marked `more` is saved for softirqs. A tick is late when its delay is
`2 * sampling_period` or more, computed as the code does in 64 bits. -/
theorem counting_law (k : Kernel) (enable : Bool) (cfg : Config) (now : UInt64)
    (es : List Event)
    (h : Steps (observe (step k) (Counts.next k)) Sampling
      (⟨enable, cfg, smpTimersStart PerCpuStackTrace.zero now⟩, Counts.start now) es) :
    CountingLaw (run (observe (step k) (Counts.next k))
        (⟨enable, cfg, smpTimersStart PerCpuStackTrace.zero now⟩, Counts.start now) es)
      ∧ Steps (observe (step k) (Counts.next k)) (TickLaw k)
          (⟨enable, cfg, smpTimersStart PerCpuStackTrace.zero now⟩, Counts.start now) es
      ∧ (cfg.samplingPeriod.toNat < 2 ^ 63 → ∀ since now, since ≤ now →
          (late cfg since now = true
            ↔ 2 * cfg.samplingPeriod.toNat ≤ now.toNat - since.toNat)) :=
  ⟨(inv_run (CountInv.step k) (CountInv.start enable cfg now) h).toCountingLaw,
    Steps.of_inv (CountInv.step k) (CountInv.tickLaw k) (CountInv.start enable cfg now) h,
    fun hcfg _ _ hle => late_iff_toNat hcfg hle⟩

/-- A tick at `now` on the stack `[1]` of a thread with pid `7`. -/
def tickAt (now : UInt64) : Tick :=
  ⟨now, ⟨⟨7, Comm.empty, false, taskRunning, 0⟩, some ⟨false⟩, ⟨[1], [1]⟩⟩⟩

/-- Softirqs off, seen by the high-resolution timer at 50 and reported by the other one at 60;
then interrupts off until 100; a clear; and a last tick. -/
def offRun : List Event :=
  [.hrtimer (tickAt 15), .hrtimer (tickAt 30), .hrtimer (tickAt 45), .hrtimer (tickAt 50),
    .timer (tickAt 60), .hrtimer (tickAt 100), .traceLatency (some 0), .hrtimer (tickAt 130)]

theorem counting_law_offRun :
    Steps (observe (step ⟨false, false⟩) (Counts.next ⟨false, false⟩)) Sampling
        (⟨true, ⟨10, 50⟩, smpTimersStart PerCpuStackTrace.zero 0⟩, Counts.start 0) offRun
      ∧ CountingLaw (run (observe (step ⟨false, false⟩) (Counts.next ⟨false, false⟩))
          (⟨true, ⟨10, 50⟩, smpTimersStart PerCpuStackTrace.zero 0⟩, Counts.start 0) offRun) := by
  have h : Steps (observe (step ⟨false, false⟩) (Counts.next ⟨false, false⟩)) Sampling
      (⟨true, ⟨10, 50⟩, smpTimersStart PerCpuStackTrace.zero 0⟩, Counts.start 0) offRun := by
    decide
  exact ⟨h, (counting_law _ _ _ _ _ h).1⟩

end UioLinuxSample.Irqoff
