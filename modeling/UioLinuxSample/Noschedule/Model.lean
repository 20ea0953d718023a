import UioLinuxSample.Kernel
import UioLinuxSample.Lib.ShiftLoop

set_option autoImplicit false

/-! # `trace_noschedule.c`: the state of one CPU and its handlers

The tracer looks for threads that stay on a CPU in kernel mode without a context switch. On
every CPU a timer ticks (`traceNoschedHrtimerHandler`); a tick that finds the same stretch
longer than `duration_threshold` saves the stack (`rawStackTraceRecord`) and marks it pending in
`skip`. The next context switch (`probeSchedSwitch`) completes the pending record with the full
duration. The user can clear the records, switch the tracer on and off and set the threshold.

The model is one CPU together with the module's globals. A handler runs with interrupts
disabled, so it is one step; what it reads from the kernel (the clock, `current`, the register
frame, the run queue, the stack, the results of the tracepoint calls) is an argument.
-/

namespace UioLinuxSample.Noschedule

/-! ## Constants -/

/-- `MAX_TRACE_ENTRIES`, `SZ_1K / sizeof(void *)`. -/
def maxTraceEntries : Nat := 1024 / 8

/-- `PER_TRACE_ENTRIES_AVERAGE`. -/
def perTraceEntriesAverage : Nat := 8

/-- `MAX_STACE_TRACE_ENTRIES`. -/
def maxStaceTraceEntries : Nat := maxTraceEntries / perTraceEntriesAverage

/-- `DURATION_HISTOGRAM_ENTRY`. -/
def durationHistogramEntry : Nat := 12

/-- `sampling_period`: the module never writes it. -/
def samplingPeriod : UInt64 := 10 * 1000 * 1000

/-! ## The state of one CPU -/

/-- `struct per_cpu_stack_trace`, without the timer. -/
structure PerCpuStackTrace where
  lastTimestamp : UInt64
  skip : Option TaskStruct
  nrStackEntries : Nat
  nrEntries : Nat
  stackEntries : Nat → StackEntry
  entries : Nat → UInt64
  hist : Nat → UInt64
  comms : Nat → Comm
  pids : Nat → Int
  duration : Nat → UInt64

/-- The zeroed memory of `alloc_percpu`. -/
def PerCpuStackTrace.zero : PerCpuStackTrace where
  lastTimestamp := 0
  skip := none
  nrStackEntries := 0
  nrEntries := 0
  stackEntries := fun _ => StackEntry.zero
  entries := fun _ => 0
  hist := fun _ => 0
  comms := fun _ => Comm.empty
  pids := fun _ => 0
  duration := fun _ => 0

/-- What a stack record is made of at the moment it is saved. -/
structure Capture where
  current : TaskStruct
  regs : Option PtRegs
  unwound : Unwound

/-! ## Saving a record -/

/-- Both arrays of the record buffer have room. -/
def HasRoom (st : PerCpuStackTrace) : Prop :=
  st.nrStackEntries < maxStaceTraceEntries ∧ st.nrEntries < maxTraceEntries

instance (st : PerCpuStackTrace) : Decidable (HasRoom st) :=
  inferInstanceAs (Decidable (_ ∧ _))

/-- `__stack_trace_record` past its two capacity checks: the record is written and published. -/
def publish (k : Kernel) (st : PerCpuStackTrace) (c : Capture) (duration : UInt64) :
    PerCpuStackTrace :=
  let nr := st.nrStackEntries
  let stored := storeStackTrace k c.regs c.unwound st.entries st.nrEntries
    (maxTraceEntries - st.nrEntries)
  { st with
    comms := Function.update st.comms nr (strlcpy c.current.comm taskCommLen)
    pids := Function.update st.pids nr c.current.pid
    duration := Function.update st.duration nr duration
    stackEntries := Function.update st.stackEntries nr stored.1
    entries := stored.2
    nrEntries := st.nrEntries + stored.1.nrEntries
    nrStackEntries := nr + 1 }

/-- `__stack_trace_record`. A record that fills the entry array is published and reported as a
failure. -/
def rawStackTraceRecord (k : Kernel) (st : PerCpuStackTrace) (c : Capture) (duration : UInt64) :
    Bool × PerCpuStackTrace :=
  if st.nrStackEntries ≥ maxStaceTraceEntries then (false, st)
  else if st.nrEntries ≥ maxTraceEntries then (false, st)
  else
    let st' := publish k st c duration
    if st'.nrEntries ≥ maxTraceEntries then (false, st') else (true, st')

/-- `stack_trace_record`. -/
def stackTraceRecord (k : Kernel) (threshold : UInt64) (st : PerCpuStackTrace) (c : Capture)
    (delta : UInt64) : Bool × PerCpuStackTrace :=
  if delta ≥ threshold then rawStackTraceRecord k st c delta else (false, st)

@[simp] theorem publish_lastTimestamp (k : Kernel) (st : PerCpuStackTrace) (c : Capture)
    (d : UInt64) : (publish k st c d).lastTimestamp = st.lastTimestamp := rfl

@[simp] theorem publish_skip (k : Kernel) (st : PerCpuStackTrace) (c : Capture) (d : UInt64) :
    (publish k st c d).skip = st.skip := rfl

@[simp] theorem publish_nrStackEntries (k : Kernel) (st : PerCpuStackTrace) (c : Capture)
    (d : UInt64) : (publish k st c d).nrStackEntries = st.nrStackEntries + 1 := rfl

@[simp] theorem publish_duration (k : Kernel) (st : PerCpuStackTrace) (c : Capture)
    (d : UInt64) :
    (publish k st c d).duration = Function.update st.duration st.nrStackEntries d := rfl

/-- The stack a save of `c` publishes in the room that `st` has left. -/
def capturedStack (k : Kernel) (st : PerCpuStackTrace) (c : Capture) : List UInt64 :=
  k.captured c.regs c.unwound (maxTraceEntries - st.nrEntries)

theorem publish_nrEntries (k : Kernel) (st : PerCpuStackTrace) (c : Capture) (d : UInt64) :
    (publish k st c d).nrEntries = st.nrEntries + (capturedStack k st c).length := by
  simp only [publish, storeStackTrace_eq, capturedStack]

theorem rawStackTraceRecord_eq (k : Kernel) (st : PerCpuStackTrace) (c : Capture) (d : UInt64) :
    rawStackTraceRecord k st c d
      = if HasRoom st then
          (decide ((publish k st c d).nrEntries < maxTraceEntries), publish k st c d)
        else (false, st) := by
  unfold rawStackTraceRecord HasRoom
  by_cases h1 : st.nrStackEntries < maxStaceTraceEntries
  · by_cases h2 : st.nrEntries < maxTraceEntries
    · by_cases h3 : (publish k st c d).nrEntries < maxTraceEntries
      · simp [h1, h2, h3, Nat.not_le.mpr]
      · simp [h1, h2, h3, Nat.not_le.mpr, Nat.not_lt.mp h3]
    · simp [h1, h2, Nat.not_le.mpr, Nat.not_lt.mp h2]
  · simp [h1, Nat.not_lt.mp h1]

/-! ## The handlers -/

/-- `hist_update`. The loop is entered after its first turn, which is unconditional. -/
def histUpdate (st : PerCpuStackTrace) (delta : UInt64) : PerCpuStackTrace :=
  let step := samplingPeriod * 2
  if delta < step then st
  else
    let index := shiftWhile (fun d => decide (d ≥ step)) 64 (delta >>> 1) 0
    let index := if index ≥ durationHistogramEntry then durationHistogramEntry - 1 else index
    { st with hist := Function.update st.hist index (st.hist index + 1) }

/-- What one timer tick reads. -/
structure Tick where
  now : UInt64
  capture : Capture
  nrRunning : Nat

/-- The condition under which a tick counts: a thread other than idle, interrupted in kernel
mode, with another runnable thread behind it. -/
def Tick.busy (t : Tick) : Bool :=
  !t.capture.current.idle && t.capture.regs.any (fun regs => !regs.userMode)
    && !singleTaskRunning t.nrRunning

/-- `trace_nosched_hrtimer_handler`. -/
def traceNoschedHrtimerHandler (k : Kernel) (threshold : UInt64) (st : PerCpuStackTrace)
    (t : Tick) : PerCpuStackTrace :=
  if t.busy then
    let delta := t.now - st.lastTimestamp
    if st.skip.isNone then
      let saved := stackTraceRecord k threshold st t.capture delta
      -- a record that has filled the entry array is in `saved.2` although `saved.1` is false
      if saved.1 then { saved.2 with skip := some t.capture.current } else saved.2
    else st
  else { st with lastTimestamp := t.now }

/-- The tick saves a record. -/
def Saves (threshold : UInt64) (st : PerCpuStackTrace) (t : Tick) : Prop :=
  t.busy = true ∧ st.skip = none ∧ threshold ≤ t.now - st.lastTimestamp ∧ HasRoom st

instance (threshold : UInt64) (st : PerCpuStackTrace) (t : Tick) :
    Decidable (Saves threshold st t) :=
  inferInstanceAs (Decidable (_ ∧ _))

/-- The record a saving tick publishes. -/
def tickRecord (k : Kernel) (st : PerCpuStackTrace) (t : Tick) : PerCpuStackTrace :=
  publish k st t.capture (t.now - st.lastTimestamp)

section HrtimerHandler

variable (k : Kernel) {threshold : UInt64} {st : PerCpuStackTrace} {t : Tick}

theorem hrtimerHandler_of_not_busy (h : t.busy = false) :
    traceNoschedHrtimerHandler k threshold st t = { st with lastTimestamp := t.now } := by
  simp [traceNoschedHrtimerHandler, h]

/-- A tick that counts and saves nothing leaves the state as it is. -/
theorem hrtimerHandler_of_not_saves (hb : t.busy = true) (h : ¬ Saves threshold st t) :
    traceNoschedHrtimerHandler k threshold st t = st := by
  unfold traceNoschedHrtimerHandler
  cases hs : st.skip with
  | some p => simp [hb]
  | none =>
      by_cases ht : threshold ≤ t.now - st.lastTimestamp
      · have hroom : ¬ HasRoom st := fun hr => h ⟨hb, hs, ht, hr⟩
        simp [hb, stackTraceRecord, rawStackTraceRecord_eq, ht, hroom]
      · simp [hb, stackTraceRecord, ht]

/-- A tick that saves publishes its record, and marks it pending unless the record has filled
the entry array. -/
theorem hrtimerHandler_of_saves (h : Saves threshold st t) :
    traceNoschedHrtimerHandler k threshold st t
      = { tickRecord k st t with
          skip := if (tickRecord k st t).nrEntries < maxTraceEntries
            then some t.capture.current else none } := by
  obtain ⟨hb, hs, ht, hroom⟩ := h
  have hskip : (tickRecord k st t).skip = none := hs
  unfold traceNoschedHrtimerHandler
  simp only [hb, if_true, hs, Option.isNone_none, stackTraceRecord, ge_iff_le, ht,
    rawStackTraceRecord_eq, hroom, decide_eq_true_eq]
  change (if (tickRecord k st t).nrEntries < maxTraceEntries then
    { tickRecord k st t with skip := some t.capture.current } else tickRecord k st t) = _
  split
  · rfl
  · rw [← hskip]

end HrtimerHandler

/-- The index `nr_stack_entries - 1` at which `probe_sched_switch` writes `duration[]`, in
`unsigned int` arithmetic. -/
def durationIndex (st : PerCpuStackTrace) : Nat := (UInt32.ofNat st.nrStackEntries - 1).toNat

/-- What one context switch reads. -/
structure Switch where
  now : UInt64
  prev : TaskStruct
  nrRunning : Nat

/-- `probe_sched_switch` past the test of `trace_enable`. -/
def completeSwitch (st : PerCpuStackTrace) (w : Switch) : PerCpuStackTrace :=
  let last := st.lastTimestamp
  let st := { st with lastTimestamp := w.now }
  -- the record that waits is found by the counter, not by the task that `skip` holds
  let st :=
    if st.skip.isSome then
      { st with
        skip := none
        duration := Function.update st.duration (durationIndex st) (w.now - last) }
    else st
  if !w.prev.idle && !singleTaskRunning w.nrRunning then histUpdate st (w.now - last) else st

section CompleteSwitch

variable (st : PerCpuStackTrace) (w : Switch)

@[simp] theorem histUpdate_skip (d : UInt64) : (histUpdate st d).skip = st.skip := by
  unfold histUpdate; dsimp only; split <;> rfl

@[simp] theorem histUpdate_lastTimestamp (d : UInt64) :
    (histUpdate st d).lastTimestamp = st.lastTimestamp := by
  unfold histUpdate; dsimp only; split <;> rfl

@[simp] theorem histUpdate_nrStackEntries (d : UInt64) :
    (histUpdate st d).nrStackEntries = st.nrStackEntries := by
  unfold histUpdate; dsimp only; split <;> rfl

@[simp] theorem histUpdate_nrEntries (d : UInt64) :
    (histUpdate st d).nrEntries = st.nrEntries := by
  unfold histUpdate; dsimp only; split <;> rfl

@[simp] theorem histUpdate_duration (d : UInt64) :
    (histUpdate st d).duration = st.duration := by
  unfold histUpdate; dsimp only; split <;> rfl

@[simp] theorem completeSwitch_skip : (completeSwitch st w).skip = none := by
  cases hs : st.skip <;> simp [completeSwitch, hs, apply_ite PerCpuStackTrace.skip]

@[simp] theorem completeSwitch_lastTimestamp : (completeSwitch st w).lastTimestamp = w.now := by
  cases hs : st.skip <;> simp [completeSwitch, hs, apply_ite PerCpuStackTrace.lastTimestamp]

@[simp] theorem completeSwitch_nrStackEntries :
    (completeSwitch st w).nrStackEntries = st.nrStackEntries := by
  cases hs : st.skip <;> simp [completeSwitch, hs, apply_ite PerCpuStackTrace.nrStackEntries]

@[simp] theorem completeSwitch_nrEntries :
    (completeSwitch st w).nrEntries = st.nrEntries := by
  cases hs : st.skip <;> simp [completeSwitch, hs, apply_ite PerCpuStackTrace.nrEntries]

/-- A pending record gets its final duration, at the index the handler computes. -/
theorem completeSwitch_duration :
    (completeSwitch st w).duration
      = if st.skip.isSome then
          Function.update st.duration (durationIndex st) (w.now - st.lastTimestamp)
        else st.duration := by
  cases hs : st.skip <;>
    simp [completeSwitch, hs, apply_ite PerCpuStackTrace.duration, durationIndex]

end CompleteSwitch

/-- `probe_sched_switch`. -/
def probeSchedSwitch (enable : Bool) (st : PerCpuStackTrace) (w : Switch) : PerCpuStackTrace :=
  if !enable then st else completeSwitch st w

/-- `each_stack_trace_clear`. -/
def eachStackTraceClear (st : PerCpuStackTrace) : PerCpuStackTrace :=
  { st with
    nrEntries := 0
    nrStackEntries := 0
    hist := fun i => if i < durationHistogramEntry then 0 else st.hist i }

/-! ## The module's globals and its files under `/proc` -/

/-- The globals of the module, whether the timers are armed and the probe is registered, and
the state of the CPU. -/
structure State where
  traceEnable : Bool
  durationThreshold : UInt64
  hrtimerArmed : Bool
  tpRegistered : Bool
  cpu : PerCpuStackTrace

/-- The module after `trace_noschedule_init`. -/
def State.init : State where
  traceEnable := false
  durationThreshold := 50 * 1000 * 1000
  hrtimerArmed := false
  tpRegistered := false
  cpu := PerCpuStackTrace.zero

/-- `threshold_store`; `none` is a text that is no number. -/
def thresholdStore (s : State) (val : Option UInt64) : Except Errno Unit × State :=
  match val with
  | none => (.error .einval, s)
  | some val => (.ok (), { s with durationThreshold := val })

/-- `stack_trace_store`. -/
def stackTraceStore (s : State) (clear : Option Int) : Except Errno Unit × State :=
  match clear with
  | some 0 => (.ok (), { s with cpu := eachStackTraceClear s.cpu })
  | _ => (.error .einval, s)

/-- `each_hrtimer_start`. -/
def eachHrtimerStart (s : State) (now : UInt64) : State :=
  { s with hrtimerArmed := true, cpu := { s.cpu with lastTimestamp := now } }

/-- `trace_nosched_hrtimer_cancel`. -/
def traceNoschedHrtimerCancel (s : State) : State := { s with hrtimerArmed := false }

/-- `trace_nosched_register_tp`, when `tracepoint_probe_register` returns `ret`. There is one
tracepoint, so a failure has nothing to roll back. -/
def traceNoschedRegisterTp (s : State) (ret : Int) : Int × State :=
  let s := if ret = 0 then { s with tpRegistered := true } else s
  if ret ≠ 0 ∧ ret ≠ -Errno.eexist.code then (ret, s) else (0, s)

/-- `trace_nosched_unregister_tp`, when `tracepoint_probe_unregister` returns `ret`. -/
def traceNoschedUnregisterTp (s : State) (ret : Int) : Int × State :=
  let s := if ret = 0 then { s with tpRegistered := false } else s
  if ret ≠ 0 ∧ ret ≠ -Errno.enoent.code then (ret, s) else (0, s)

/-- What one write to `enable` reads: the parsed text, the clock when the timers start and the
results of the tracepoint calls. -/
structure EnableWrite where
  enable : Option Bool
  now : UInt64
  registerRet : Int
  unregisterRet : Int

/-- `enable_store`. -/
def enableStore (s : State) (w : EnableWrite) : Except Errno Unit × State :=
  match w.enable with
  | none => (.error .einval, s)
  | some enable =>
      if enable = s.traceEnable then (.ok (), s)
      else if enable then
        let r := traceNoschedRegisterTp s w.registerRet
        if r.1 = 0 then (.ok (), { eachHrtimerStart r.2 w.now with traceEnable := enable })
        else (.error .eagain, r.2)
      else
        let r := traceNoschedUnregisterTp (traceNoschedHrtimerCancel s) w.unregisterRet
        if r.1 ≠ 0 then (.error .eagain, r.2)
        else (.ok (), { r.2 with traceEnable := enable })

/-- A write to `enable` touches nothing of the CPU but the timestamp. -/
theorem enableStore_cpu (s : State) (w : EnableWrite) :
    (enableStore s w).2.cpu = s.cpu
      ∨ (enableStore s w).2.cpu = { s.cpu with lastTimestamp := w.now } := by
  have hreg : (traceNoschedRegisterTp s w.registerRet).2.cpu = s.cpu := by
    unfold traceNoschedRegisterTp; split_ifs <;> rfl
  have hunreg : (traceNoschedUnregisterTp (traceNoschedHrtimerCancel s) w.unregisterRet).2.cpu
      = s.cpu := by
    unfold traceNoschedUnregisterTp; split_ifs <;> rfl
  unfold enableStore
  cases w.enable with
  | none => exact Or.inl rfl
  | some enable =>
      dsimp only
      split_ifs
      · exact Or.inl rfl
      · right
        simp only [eachHrtimerStart, hreg]
      · exact Or.inl hreg
      · exact Or.inl hunreg
      · exact Or.inl hunreg

/-! ## Events -/

/-- What can happen on the CPU. -/
inductive Event where
  | tick (t : Tick)
  | schedSwitch (w : Switch)
  | stackTrace (clear : Option Int)
  | enable (w : EnableWrite)
  | threshold (val : Option UInt64)

/-- The handler of an event, run to completion. -/
def step (k : Kernel) (s : State) : Event → State
  | .tick t => { s with cpu := traceNoschedHrtimerHandler k s.durationThreshold s.cpu t }
  | .schedSwitch w => { s with cpu := probeSchedSwitch s.traceEnable s.cpu w }
  | .stackTrace clear => (stackTraceStore s clear).2
  | .enable w => (enableStore s w).2
  | .threshold val => (thresholdStore s val).2

end UioLinuxSample.Noschedule
