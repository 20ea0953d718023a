import UioLinuxSample.Kernel
import UioLinuxSample.Lib.ShiftLoop

set_option autoImplicit false

/-! # `trace_irqoff.c`: the state of one CPU and its handlers

The tracer measures how long interrupts and softirqs stay off. On every CPU a high-resolution
timer ticks in hard interrupt context and a low-resolution timer in softirq context. A handler
that runs late by two sampling periods or more has found its context switched off: it counts
the delay in a histogram, and above `trace_irqoff_latency` it saves the stack (`saveTrace`).
While softirqs are off the low-resolution timer cannot report it, so the high-resolution one
also looks at the softirq timestamp and saves one early record, marked by `more` and guarded by
`softirq_delayed`.

As in the model of `trace_noschedule.c`, a handler is one step of one CPU and what it reads
from the kernel is an argument.
-/

namespace UioLinuxSample.Irqoff

/-! ## Constants -/

/-- `MAX_TRACE_ENTRIES`, `SZ_1K / sizeof(unsigned long)`. -/
def maxTraceEntries : Nat := 1024 / 8

/-- `PER_TRACE_ENTRIES_AVERAGE`. -/
def perTraceEntriesAverage : Nat := 8 + 8

/-- `MAX_STACE_TRACE_ENTRIES`. -/
def maxStaceTraceEntries : Nat := maxTraceEntries / perTraceEntriesAverage

/-- `MAX_LATENCY_RECORD`. -/
def maxLatencyRecord : Nat := 10

/-! ## The state of one CPU -/

/-- An element of `latency[]`: a bit field of 63 and 1 bits. -/
structure Latency where
  nsecs : UInt64
  more : Bool
  deriving DecidableEq

/-- The 63 bits of `nsecs` that a latency is stored in. -/
def nsecs63 (latency : UInt64) : UInt64 := latency % 0x8000000000000000

/-- `struct stack_trace_metadata`. -/
structure StackTraceMetadata where
  lastTimestamp : UInt64
  nrIrqoffTrace : Nat
  trace : Nat → StackEntry
  nrEntries : Nat
  entries : Nat → UInt64
  latencyCount : Nat → UInt64
  comms : Nat → Comm
  pids : Nat → Int
  latency : Nat → Latency

/-- A write of `last_timestamp`. -/
def StackTraceMetadata.stamp (m : StackTraceMetadata) (now : UInt64) : StackTraceMetadata :=
  { m with lastTimestamp := now }

def StackTraceMetadata.zero : StackTraceMetadata where
  lastTimestamp := 0
  nrIrqoffTrace := 0
  trace := fun _ => StackEntry.zero
  nrEntries := 0
  entries := fun _ => 0
  latencyCount := fun _ => 0
  comms := fun _ => Comm.empty
  pids := fun _ => 0
  latency := fun _ => ⟨0, false⟩

/-- `struct per_cpu_stack_trace`, without the timers. -/
structure PerCpuStackTrace where
  hardirqTrace : StackTraceMetadata
  softirqTrace : StackTraceMetadata
  softirqDelayed : Bool

/-- The zeroed memory of `alloc_percpu`. -/
def PerCpuStackTrace.zero : PerCpuStackTrace :=
  ⟨StackTraceMetadata.zero, StackTraceMetadata.zero, false⟩

/-- What a handler reads when it saves a stack: `current`, `get_irq_regs()` and the stack. -/
structure Capture where
  current : TaskStruct
  irqRegs : Option PtRegs
  unwound : Unwound

/-! ## Saving a record -/

/-- Both arrays of a record buffer have room. The entry array counts as full one entry early. -/
def HasRoom (m : StackTraceMetadata) : Prop :=
  m.nrIrqoffTrace < maxStaceTraceEntries ∧ m.nrEntries < maxTraceEntries - 1

instance (m : StackTraceMetadata) : Decidable (HasRoom m) := inferInstanceAs (Decidable (_ ∧ _))

/-- `save_trace` past its two capacity checks, on the buffer it has chosen. -/
def publish (k : Kernel) (m : StackTraceMetadata) (c : Capture) (regs : Option PtRegs)
    (more : Bool) (latency : UInt64) : StackTraceMetadata :=
  let nr := m.nrIrqoffTrace
  let stored := storeStackTrace k regs c.unwound m.entries m.nrEntries
    (maxTraceEntries - m.nrEntries)
  { m with
    comms := Function.update m.comms nr (strlcpy c.current.comm taskCommLen)
    pids := Function.update m.pids nr c.current.pid
    latency := Function.update m.latency nr ⟨nsecs63 latency, more⟩
    trace := Function.update m.trace nr stored.1
    entries := stored.2
    nrEntries := m.nrEntries + stored.1.nrEntries
    nrIrqoffTrace := nr + 1 }

/-- `save_trace` on the buffer it has chosen. A record that fills the entry array is published
and reported as a failure. -/
def saveTraceTo (k : Kernel) (m : StackTraceMetadata) (c : Capture) (regs : Option PtRegs)
    (more : Bool) (latency : UInt64) : Bool × StackTraceMetadata :=
  if m.nrIrqoffTrace ≥ maxStaceTraceEntries then (false, m)
  else if m.nrEntries ≥ maxTraceEntries - 1 then (false, m)
  else
    let m' := publish k m c regs more latency
    if m'.nrEntries ≥ maxTraceEntries - 1 then (false, m') else (true, m')

/-- `save_trace(regs, hardirq, latency)`. -/
def saveTrace (k : Kernel) (st : PerCpuStackTrace) (c : Capture) (regs : Option PtRegs)
    (hardirq : Bool) (latency : UInt64) : Bool × PerCpuStackTrace :=
  let more := !hardirq && regs.isSome
  if hardirq then
    let r := saveTraceTo k st.hardirqTrace c regs more latency
    (r.1, { st with hardirqTrace := r.2 })
  else
    let r := saveTraceTo k st.softirqTrace c regs more latency
    (r.1, { st with softirqTrace := r.2 })

theorem saveTraceTo_eq (k : Kernel) (m : StackTraceMetadata) (c : Capture)
    (regs : Option PtRegs) (more : Bool) (latency : UInt64) :
    saveTraceTo k m c regs more latency
      = if HasRoom m then
          (decide ((publish k m c regs more latency).nrEntries < maxTraceEntries - 1),
            publish k m c regs more latency)
        else (false, m) := by
  unfold saveTraceTo HasRoom
  by_cases h1 : m.nrIrqoffTrace < maxStaceTraceEntries
  · by_cases h2 : m.nrEntries < maxTraceEntries - 1
    · by_cases h3 : (publish k m c regs more latency).nrEntries < maxTraceEntries - 1
      · simp [h1, h2, h3, Nat.not_le.mpr]
      · simp [h1, h2, h3, Nat.not_le.mpr, Nat.not_lt.mp h3]
    · simp [h1, h2, Nat.not_le.mpr, Nat.not_lt.mp h2]
  · simp [h1, Nat.not_lt.mp h1]

/-- A save changes neither the timestamp nor the histogram of its buffer. -/
@[simp] theorem saveTraceTo_lastTimestamp (k : Kernel) (m : StackTraceMetadata) (c : Capture)
    (regs : Option PtRegs) (more : Bool) (latency : UInt64) :
    (saveTraceTo k m c regs more latency).2.lastTimestamp = m.lastTimestamp := by
  rw [saveTraceTo_eq]; split <;> rfl

@[simp] theorem saveTraceTo_latencyCount (k : Kernel) (m : StackTraceMetadata) (c : Capture)
    (regs : Option PtRegs) (more : Bool) (latency : UInt64) :
    (saveTraceTo k m c regs more latency).2.latencyCount = m.latencyCount := by
  rw [saveTraceTo_eq]; split <;> rfl

/-! ## The handlers -/

/-- `sampling_period` and `trace_irqoff_latency`, in nanoseconds. -/
structure Config where
  samplingPeriod : UInt64
  traceIrqoffLatency : UInt64

/-- The bucket `trace_irqoff_record` counts a delay in. -/
def latencyIndex (throttle delta : UInt64) : Nat :=
  let index := shiftWhile (fun d => decide (d > throttle)) 64 (delta >>> 1) 0
  if index ≥ maxLatencyRecord then maxLatencyRecord - 1 else index

/-- The bucket is the number of halvings that bring half the delay down to the throttle; the
last bucket takes all that need more. -/
theorem latencyIndex_spec (throttle delta : UInt64) :
    ∃ i, latencyIndex throttle delta = min i (maxLatencyRecord - 1)
      ∧ shifted (delta >>> 1) i ≤ throttle ∧ ∀ j < i, throttle < shifted (delta >>> 1) j := by
  have h0 : decide ((0 : UInt64) > throttle) = false := by simp
  obtain ⟨hend, hbefore⟩ :=
    shiftWhile_word (fun d => decide (d > throttle)) h0 (delta >>> 1)
  refine ⟨shiftWhile (fun d => decide (d > throttle)) 64 (delta >>> 1) 0, ?_, ?_, ?_⟩
  · unfold latencyIndex
    dsimp only
    split <;> omega
  · simpa using hend
  · intro j hj
    simpa using hbefore j hj

/-- `__this_cpu_inc` of a bucket. -/
def StackTraceMetadata.count (m : StackTraceMetadata) (index : Nat) : StackTraceMetadata :=
  { m with latencyCount := Function.update m.latencyCount index (m.latencyCount index + 1) }

/-- `trace_irqoff_record(delta, hardirq, skip)`. -/
def traceIrqoffRecord (k : Kernel) (cfg : Config) (st : PerCpuStackTrace) (c : Capture)
    (delta : UInt64) (hardirq skip : Bool) : Bool × PerCpuStackTrace :=
  let throttle := cfg.samplingPeriod <<< 1
  if delta < throttle then (false, st)
  else
    let index := latencyIndex throttle delta
    let st :=
      if hardirq then { st with hardirqTrace := st.hardirqTrace.count index }
      -- an early sighting is not counted: the low-resolution timer will count the same delay
      else if !skip then { st with softirqTrace := st.softirqTrace.count index }
      else st
    let st :=
      if delta ≥ cfg.traceIrqoffLatency then
        (saveTrace k st c (if skip then c.irqRegs else none) hardirq delta).2
      else st
    (true, st)

/-- The shortest delay that counts, `sampling_period << 1`. -/
def Config.throttle (cfg : Config) : UInt64 := cfg.samplingPeriod <<< 1

/-- The buffer after the last part of `trace_irqoff_record`: a stack is saved if the delay
reaches the reporting threshold. -/
def saveIfLong (k : Kernel) (cfg : Config) (m : StackTraceMetadata) (c : Capture)
    (regs : Option PtRegs) (more : Bool) (delta : UInt64) : StackTraceMetadata :=
  if delta ≥ cfg.traceIrqoffLatency then (saveTraceTo k m c regs more delta).2 else m

section Record

variable (k : Kernel) (cfg : Config) (st : PerCpuStackTrace) (m : StackTraceMetadata)
  (c : Capture) (regs : Option PtRegs) (more : Bool) {delta : UInt64}

@[simp] theorem saveIfLong_lastTimestamp :
    (saveIfLong k cfg m c regs more delta).lastTimestamp = m.lastTimestamp := by
  unfold saveIfLong; split <;> simp

@[simp] theorem saveIfLong_latencyCount :
    (saveIfLong k cfg m c regs more delta).latencyCount = m.latencyCount := by
  unfold saveIfLong; split <;> simp

/-- A short delay is ignored by every caller. -/
theorem traceIrqoffRecord_of_lt (hardirq skip : Bool) (h : delta < cfg.throttle) :
    traceIrqoffRecord k cfg st c delta hardirq skip = (false, st) := by
  unfold Config.throttle at h
  simp [traceIrqoffRecord, h]

/-- The call of the high-resolution handler for its own delay. -/
theorem traceIrqoffRecord_hardirq (h : ¬ delta < cfg.throttle) :
    traceIrqoffRecord k cfg st c delta true true
      = (true, { st with
          hardirqTrace := saveIfLong k cfg (st.hardirqTrace.count
            (latencyIndex cfg.throttle delta)) c c.irqRegs false delta }) := by
  unfold Config.throttle at h
  unfold traceIrqoffRecord saveIfLong
  by_cases hl : delta ≥ cfg.traceIrqoffLatency <;> simp [h, hl, saveTrace, Config.throttle]

/-- The call of the high-resolution handler for a softirq delay it sees early. -/
theorem traceIrqoffRecord_early (h : ¬ delta < cfg.throttle) :
    traceIrqoffRecord k cfg st c delta false true
      = (true, { st with
          softirqTrace := saveIfLong k cfg st.softirqTrace c c.irqRegs c.irqRegs.isSome delta }) := by
  unfold Config.throttle at h
  unfold traceIrqoffRecord saveIfLong
  by_cases hl : delta ≥ cfg.traceIrqoffLatency <;> simp [h, hl, saveTrace]

/-- The call of the low-resolution handler. -/
theorem traceIrqoffRecord_softirq (h : ¬ delta < cfg.throttle) :
    traceIrqoffRecord k cfg st c delta false false
      = (true, { st with
          softirqTrace := saveIfLong k cfg (st.softirqTrace.count
            (latencyIndex cfg.throttle delta)) c none false delta }) := by
  unfold Config.throttle at h
  unfold traceIrqoffRecord saveIfLong
  by_cases hl : delta ≥ cfg.traceIrqoffLatency <;> simp [h, hl, saveTrace, Config.throttle]

end Record

/-- What one timer tick reads. -/
structure Tick where
  now : UInt64
  capture : Capture

/-- `trace_irqoff_hrtimer_handler`. -/
def traceIrqoffHrtimerHandler (k : Kernel) (cfg : Config) (st : PerCpuStackTrace) (t : Tick) :
    PerCpuStackTrace :=
  let delta := t.now - st.hardirqTrace.lastTimestamp
  let st := { st with hardirqTrace := st.hardirqTrace.stamp t.now }
  let r := traceIrqoffRecord k cfg st t.capture delta true true
  if r.1 then
    { r.2 with softirqTrace := r.2.softirqTrace.stamp t.now }
  else if !r.2.softirqDelayed then
    -- softirqs may be off while this timer runs in time: look at their timestamp early
    let st := r.2
    let deltaSoft := t.now - st.softirqTrace.lastTimestamp
    if deltaSoft ≥ cfg.traceIrqoffLatency then
      (traceIrqoffRecord k cfg { st with softirqDelayed := true } t.capture deltaSoft false true).2
    else st
  else r.2

/-- `trace_irqoff_timer_handler`. -/
def traceIrqoffTimerHandler (k : Kernel) (cfg : Config) (st : PerCpuStackTrace) (t : Tick) :
    PerCpuStackTrace :=
  let delta := t.now - st.softirqTrace.lastTimestamp
  let st := { st with softirqTrace := st.softirqTrace.stamp t.now, softirqDelayed := false }
  (traceIrqoffRecord k cfg st t.capture delta false false).2

/-- The time since the last tick of the high-resolution timer. -/
def gap (st : PerCpuStackTrace) (now : UInt64) : UInt64 := now - st.hardirqTrace.lastTimestamp

/-- The time since softirqs were last seen to run. -/
def softGap (st : PerCpuStackTrace) (now : UInt64) : UInt64 :=
  now - st.softirqTrace.lastTimestamp

/-! ### What a tick does

A tick of the high-resolution timer takes one of three paths: it has found interrupts off, it
saves an early record for softirqs, or it only moves its timestamp. -/

section Handlers

variable (k : Kernel) (cfg : Config) (st : PerCpuStackTrace) (t : Tick)

theorem hrtimerHandler_hardirq (h : ¬ gap st t.now < cfg.throttle) :
    traceIrqoffHrtimerHandler k cfg st t
      = { st with
          hardirqTrace := saveIfLong k cfg
            ((st.hardirqTrace.stamp t.now).count
              (latencyIndex cfg.throttle (gap st t.now)))
            t.capture t.capture.irqRegs false (gap st t.now)
          softirqTrace := st.softirqTrace.stamp t.now } := by
  unfold traceIrqoffHrtimerHandler
  unfold gap at h ⊢
  dsimp only
  rw [traceIrqoffRecord_hardirq k cfg _ _ h]
  rfl

/-- The softirq buffer after an early record. -/
def earlyRecord : StackTraceMetadata :=
  if softGap st t.now < cfg.throttle then st.softirqTrace
  else saveIfLong k cfg st.softirqTrace t.capture t.capture.irqRegs t.capture.irqRegs.isSome
    (softGap st t.now)

theorem hrtimerHandler_early (h : gap st t.now < cfg.throttle) (hd : st.softirqDelayed = false)
    (hs : cfg.traceIrqoffLatency ≤ softGap st t.now) :
    traceIrqoffHrtimerHandler k cfg st t
      = { hardirqTrace := st.hardirqTrace.stamp t.now
          softirqTrace := earlyRecord k cfg st t
          softirqDelayed := true } := by
  unfold traceIrqoffHrtimerHandler earlyRecord
  unfold gap at h
  unfold softGap at hs ⊢
  dsimp only
  rw [traceIrqoffRecord_of_lt k cfg _ _ true true h]
  by_cases hlt : t.now - st.softirqTrace.lastTimestamp < cfg.throttle
  · simp [hd, hs, hlt, traceIrqoffRecord_of_lt k cfg _ _ false true hlt]
  · simp [hd, hs, hlt, traceIrqoffRecord_early k cfg _ _ hlt]

theorem hrtimerHandler_quiet (h : gap st t.now < cfg.throttle)
    (hq : st.softirqDelayed = true ∨ softGap st t.now < cfg.traceIrqoffLatency) :
    traceIrqoffHrtimerHandler k cfg st t
      = { st with hardirqTrace := st.hardirqTrace.stamp t.now } := by
  unfold traceIrqoffHrtimerHandler
  unfold gap at h
  unfold softGap at hq
  dsimp only
  rw [traceIrqoffRecord_of_lt k cfg _ _ true true h]
  rcases hq with hd | hs
  · simp [hd]
  · cases st.softirqDelayed <;> simp [UInt64.not_le.mpr hs]

theorem timerHandler_softirq (h : ¬ softGap st t.now < cfg.throttle) :
    traceIrqoffTimerHandler k cfg st t
      = { st with
          softirqTrace := saveIfLong k cfg
            ((st.softirqTrace.stamp t.now).count
              (latencyIndex cfg.throttle (softGap st t.now)))
            t.capture none false (softGap st t.now)
          softirqDelayed := false } := by
  unfold traceIrqoffTimerHandler
  unfold softGap at h ⊢
  dsimp only
  rw [traceIrqoffRecord_softirq k cfg _ _ h]

theorem timerHandler_quiet (h : softGap st t.now < cfg.throttle) :
    traceIrqoffTimerHandler k cfg st t
      = { st with
          softirqTrace := st.softirqTrace.stamp t.now
          softirqDelayed := false } := by
  unfold traceIrqoffTimerHandler
  unfold softGap at h
  dsimp only
  rw [traceIrqoffRecord_of_lt k cfg _ _ false false h]

end Handlers

/-- One buffer of `smp_clear_stack_trace`. -/
def StackTraceMetadata.clear (m : StackTraceMetadata) : StackTraceMetadata :=
  { m with
    nrEntries := 0
    nrIrqoffTrace := 0
    latencyCount := fun i => if i < maxLatencyRecord then 0 else m.latencyCount i }

/-- `smp_clear_stack_trace`. -/
def smpClearStackTrace (st : PerCpuStackTrace) : PerCpuStackTrace :=
  { st with hardirqTrace := st.hardirqTrace.clear, softirqTrace := st.softirqTrace.clear }

/-- `smp_timers_start`, which leaves `softirq_delayed` as it is. -/
def smpTimersStart (st : PerCpuStackTrace) (now : UInt64) : PerCpuStackTrace :=
  { st with
    hardirqTrace := st.hardirqTrace.stamp now
    softirqTrace := st.softirqTrace.stamp now }

/-! ## The module's globals and its files under `/proc` -/

structure State where
  traceEnable : Bool
  cfg : Config
  cpu : PerCpuStackTrace

/-- The module after `trace_irqoff_init`: sampling every 10 ms, reporting from 50 ms on. -/
def State.init : State where
  traceEnable := false
  cfg := ⟨10 * 1000 * 1000, 50 * 1000 * 1000⟩
  cpu := PerCpuStackTrace.zero

/-- `trace_latency_write`, in milliseconds; `none` is a text that is no number. -/
def traceLatencyWrite (s : State) (latency : Option UInt64) : Except Errno Unit × State :=
  match latency with
  | none => (.error .einval, s)
  | some latency =>
      if latency = 0 then (.ok (), { s with cpu := smpClearStackTrace s.cpu })
      else if latency < (s.cfg.samplingPeriod <<< 1) / (1000 * 1000) then (.error .einval, s)
      else (.ok (), { s with cfg := { s.cfg with traceIrqoffLatency := latency * 1000 * 1000 } })

/-- `enable_write`; the timers of the CPU start at `now`. -/
def enableWrite (s : State) (enable : Option Bool) (now : UInt64) : Except Errno Unit × State :=
  match enable with
  | none => (.error .einval, s)
  | some enable =>
      if enable = s.traceEnable then (.ok (), s)
      else
        let cpu := if enable then smpTimersStart s.cpu now else s.cpu
        (.ok (), { s with traceEnable := enable, cpu := cpu })

/-- `sampling_period_write`, in milliseconds. -/
def samplingPeriodWrite (s : State) (period : Option UInt64) : Except Errno Unit × State :=
  if s.traceEnable then (.error .einval, s)
  else
    match period with
    | none => (.error .einval, s)
    | some period =>
        let period := period * (1000 * 1000)
        let latency :=
          if period > s.cfg.traceIrqoffLatency >>> 1 then period <<< 1
          else s.cfg.traceIrqoffLatency
        (.ok (), { s with cfg := ⟨period, latency⟩ })

/-! ## Events -/

/-- What can happen on the CPU. -/
inductive Event where
  | hrtimer (t : Tick)
  | timer (t : Tick)
  | traceLatency (latency : Option UInt64)
  | enable (enable : Option Bool) (now : UInt64)
  | samplingPeriod (period : Option UInt64)

/-- The handler of an event, run to completion. -/
def step (k : Kernel) (s : State) : Event → State
  | .hrtimer t => { s with cpu := traceIrqoffHrtimerHandler k s.cfg s.cpu t }
  | .timer t => { s with cpu := traceIrqoffTimerHandler k s.cfg s.cpu t }
  | .traceLatency latency => (traceLatencyWrite s latency).2
  | .enable enable now => (enableWrite s enable now).2
  | .samplingPeriod period => (samplingPeriodWrite s period).2

end UioLinuxSample.Irqoff
