import UioLinuxSample.Noschedule.Model
import UioLinuxSample.Irqoff.Model
import UioLinuxSample.Lib.Run

set_option autoImplicit false

/-! # The stack-record buffers of `trace_irqoff.c` and `trace_noschedule.c`

Both tracers keep their stacks in the same way: a record takes its words from a shared array of
entries, starting where the last record ended, and a clear resets two counters. They differ in
their capacities, in when the entry array counts as full, and in the interface of the stack
saver, which on old kernels leaves an end marker that the next record overwrites.

Each buffer is a client of the arena of `Lib/Arena.lean`: a save refuses or publishes, a clear
clears (`toArena_bufferStep`). From the client rule follows what a reader of the records relies
on: the slices tile the entries in use, and record `i` as it is shown is what the `i`-th save
since the last clear has captured (`records_as_captured`).
-/

namespace UioLinuxSample

open Run

/-- A record as its file shows it, without the time. -/
abbrev ShownRecord := (Comm × Int) × List UInt64

/-- The slices of `n` records follow each other, do not overlap, and cover `[0, total)`. -/
structure Tiles (n total : Nat) (slice : Nat → Slice) : Prop where
  first : 0 < n → (slice 0).start = 0
  next : ∀ i, i + 1 < n → (slice (i + 1)).start = (slice i).start + (slice i).len
  disjoint : ∀ i j, i < j → j < n → (slice i).start + (slice i).len ≤ (slice j).start
  inside : ∀ i < n, (slice i).start + (slice i).len ≤ total
  cover : ∀ c < total, ∃ i < n, (slice i).start ≤ c ∧ c < (slice i).start + (slice i).len

theorem tiles_of_tiled {β α : Type*} {A : Arena β α} (h : A.Tiled) :
    Tiles A.nrRecs A.nrCells A.slices where
  first := fun hn => by rw [h.start_eq 0 hn]; rfl
  next := fun _ hi => h.next_start hi
  disjoint := fun _ _ hij hj => h.disjoint hij hj
  inside := fun _ hi => h.end_le hi
  cover := fun _ hc => h.cover hc

/-- What holds of a record buffer when `log` are the records captured since the last clear. -/
structure RecordsOk (maxRecs maxEntries nrRecs nrEntries : Nat) (slice : Nat → Slice)
    (shown log : List ShownRecord) : Prop where
  nrRecs_le : nrRecs ≤ maxRecs
  nrEntries_le : nrEntries ≤ maxEntries
  tiles : Tiles nrRecs nrEntries slice
  shown_eq : shown = log

/-- Every published record points into the entry array. -/
def Pointed (n : Nat) (entry : Nat → StackEntry) : Prop :=
  ∀ i < n, (entry i).entries.isSome = true

theorem Pointed.update {n : Nat} {entry : Nat → StackEntry} (h : Pointed n entry)
    (len off : Nat) : Pointed (n + 1) (Function.update entry n ⟨len, some off⟩) := by
  intro i hi
  by_cases hin : i = n
  · subst hin
    rw [Function.update_self]
    rfl
  · rw [Function.update_of_ne hin]
    exact h i (by omega)

/-- What a buffer shows is what its arena shows. -/
theorem shown_eq_arena {n : Nat} {entry : Nat → StackEntry} (h : Pointed n entry)
    (comms : Nat → Comm) (pids : Nat → Int) (mem : Nat → UInt64) :
    ((List.range n).map fun i => ((comms i, pids i), seqPrintStackTrace mem (entry i)))
      = (List.range n).map fun i => ((comms i, pids i), readCells mem (entry i).slice) := by
  refine List.map_congr_left fun i hi => ?_
  have hsome := h i (List.mem_range.mp hi)
  simp [seqPrintStackTrace, Option.isSome_iff_ne_none.mp hsome]

/-- The header of a record, written to its two arrays. -/
theorem update_pair (comms : Nat → Comm) (pids : Nat → Int) (n : Nat) (c : Comm) (p : Int) :
    (fun i => (Function.update comms n c i, Function.update pids n p i))
      = Function.update (fun i => (comms i, pids i)) n (c, p) := by
  funext i
  by_cases hi : i = n
  · subst hi; simp
  · simp [Function.update_of_ne hi]

theorem update_slice (entry : Nat → StackEntry) (n : Nat) (e : StackEntry) :
    (fun i => (Function.update entry n e i).slice)
      = Function.update (fun i => (entry i).slice) n e.slice := by
  funext i
  by_cases hi : i = n
  · subst hi; simp
  · simp [Function.update_of_ne hi]

/-- A save that has found room keeps within the words it has stored and within the arrays. -/
theorem push_fits {maxRecs maxEntries : Nat} {A : Arena (Comm × Int) UInt64} (k : Kernel)
    (regs : Option PtRegs) (u : Unwound) (head : Comm × Int) (hrecs : A.nrRecs < maxRecs)
    (hcells : A.nrCells < maxEntries) :
    (Arena.Action.push head (k.saved regs u (maxEntries - A.nrCells))
      (k.captured regs u (maxEntries - A.nrCells)).length).Fits maxRecs maxEntries A := by
  have hle := k.captured_length_le regs u (maxEntries - A.nrCells)
  exact ⟨k.captured_length_le_saved _ _ _, hrecs, by omega⟩

/-- What it adds to the log is the captured stack. -/
theorem push_log (k : Kernel) (regs : Option PtRegs) (u : Unwound) (n : Nat) (head : Comm × Int)
    (log : List ShownRecord) :
    (Arena.Action.push head (k.saved regs u n) (k.captured regs u n).length).log log
      = log ++ [(head, k.captured regs u n)] := by
  show log ++ [(head, (k.saved regs u n).take (k.captured regs u n).length)] = _
  rw [k.saved_take_captured]

/-! ## `trace_noschedule.c` -/

namespace Noschedule

def toArena (st : PerCpuStackTrace) : Arena (Comm × Int) UInt64 where
  nrRecs := st.nrStackEntries
  nrCells := st.nrEntries
  heads := fun i => (st.comms i, st.pids i)
  slices := fun i => (st.stackEntries i).slice
  cells := st.entries

/-- `stack_trace_show`, without the durations. -/
def stackTraceShow (st : PerCpuStackTrace) : List ShownRecord :=
  (List.range st.nrStackEntries).map fun i =>
    ((st.comms i, st.pids i), seqPrintStackTrace st.entries (st.stackEntries i))

/-- A call of `__stack_trace_record`, or a clear. -/
inductive BufferEvent where
  | save (c : Capture) (duration : UInt64)
  | clear

def bufferStep (k : Kernel) (st : PerCpuStackTrace) : BufferEvent → PerCpuStackTrace
  | .save c duration => (rawStackTraceRecord k st c duration).2
  | .clear => eachStackTraceClear st

/-- The records captured since the last clear. A save that passes the two capacity checks
captures one, also when it then reports that the array is full. -/
def recordLog (k : Kernel) (log : List ShownRecord) (st : PerCpuStackTrace) :
    BufferEvent → List ShownRecord
  | .save c _ =>
      if HasRoom st then
        log ++ [((c.current.comm, c.current.pid), capturedStack k st c)]
      else log
  | .clear => []

/-- What an event does to the arena. -/
def action (k : Kernel) (st : PerCpuStackTrace) : BufferEvent → Arena.Action (Comm × Int) UInt64
  | .save c _ =>
      if HasRoom st then
        .push (c.current.comm, c.current.pid)
          (k.saved c.regs c.unwound (maxTraceEntries - st.nrEntries)) (capturedStack k st c).length
      else .refuse
  | .clear => .clear

theorem toArena_publish (k : Kernel) (st : PerCpuStackTrace) (c : Capture) (d : UInt64) :
    toArena (publish k st c d)
      = (toArena st).push (c.current.comm, c.current.pid)
          (k.saved c.regs c.unwound (maxTraceEntries - st.nrEntries))
          (capturedStack k st c).length := by
  unfold toArena publish Arena.push capturedStack
  simp only [storeStackTrace_eq, strlcpy_taskCommLen, update_pair, update_slice]
  rfl

theorem toArena_bufferStep (k : Kernel) (st : PerCpuStackTrace) (e : BufferEvent) :
    toArena (bufferStep k st e) = (toArena st).act (action k st e) := by
  cases e with
  | clear => rfl
  | save c d =>
      simp only [bufferStep, action, rawStackTraceRecord_eq]
      split
      · exact toArena_publish k st c d
      · rfl

theorem action_fits (k : Kernel) (st : PerCpuStackTrace) (e : BufferEvent) :
    (action k st e).Fits maxStaceTraceEntries maxTraceEntries (toArena st) := by
  cases e with
  | clear => trivial
  | save c d =>
      simp only [action]
      split
      · next hroom => exact push_fits (A := toArena st) k _ _ _ hroom.1 hroom.2
      · trivial

theorem recordLog_eq (k : Kernel) (log : List ShownRecord) (st : PerCpuStackTrace)
    (e : BufferEvent) : recordLog k log st e = (action k st e).log log := by
  cases e with
  | clear => rfl
  | save c d =>
      simp only [recordLog, action]
      split
      · exact (push_log k _ _ _ _ log).symm
      · rfl

/-- The invariant of a buffer: its arena is good and its records point into it. -/
structure BufferInv (w : PerCpuStackTrace × List ShownRecord) : Prop where
  good : Arena.Good maxStaceTraceEntries maxTraceEntries (toArena w.1) w.2
  pointed : Pointed w.1.nrStackEntries w.1.stackEntries

theorem BufferInv.step (k : Kernel) (w : PerCpuStackTrace × List ShownRecord) (e : BufferEvent)
    (h : BufferInv w) : BufferInv (observe (bufferStep k) (recordLog k) w e) := by
  obtain ⟨st, log⟩ := w
  refine ⟨?_, ?_⟩
  · show Arena.Good _ _ (toArena (bufferStep k st e)) (recordLog k log st e)
    rw [toArena_bufferStep, recordLog_eq]
    exact h.good.act _ (action_fits k st e)
  · show Pointed (bufferStep k st e).nrStackEntries (bufferStep k st e).stackEntries
    cases e with
    | clear => exact fun i hi => absurd hi (Nat.not_lt_zero i)
    | save c d =>
        simp only [bufferStep, rawStackTraceRecord_eq]
        split
        · simp only [publish, storeStackTrace_eq]
          exact h.pointed.update _ _
        · exact h.pointed

theorem BufferInv.recordsOk {w : PerCpuStackTrace × List ShownRecord} (h : BufferInv w) :
    RecordsOk maxStaceTraceEntries maxTraceEntries w.1.nrStackEntries w.1.nrEntries
      (fun i => (w.1.stackEntries i).slice) (stackTraceShow w.1) w.2 where
  nrRecs_le := h.good.nrRecs_le
  nrEntries_le := h.good.nrCells_le
  tiles := tiles_of_tiled h.good.tiled
  shown_eq := by
    rw [← h.good.shown_eq]
    exact shown_eq_arena h.pointed _ _ _

theorem BufferInv.zero : BufferInv (PerCpuStackTrace.zero, []) where
  good := ⟨Nat.zero_le _, Nat.zero_le _, Arena.tiled_clear (toArena PerCpuStackTrace.zero), rfl⟩
  pointed := fun i hi => absurd hi (Nat.not_lt_zero i)

/-- A save never takes a captured record back. -/
theorem recordLog_save_extends (k : Kernel) (log : List ShownRecord) (st : PerCpuStackTrace)
    (c : Capture) (d : UInt64) : log <+: recordLog k log st (.save c d) := by
  show log <+: if HasRoom st then _ else log
  split
  · exact List.prefix_append _ _
  · exact List.prefix_rfl

/-- A save leaves what was shown before it in place. -/
theorem BufferInv.show_save {w : PerCpuStackTrace × List ShownRecord} (h : BufferInv w)
    (k : Kernel) (c : Capture) (d : UInt64) :
    stackTraceShow w.1 <+: stackTraceShow (bufferStep k w.1 (.save c d)) := by
  have hnext : stackTraceShow (bufferStep k w.1 (.save c d)) = recordLog k w.2 w.1 (.save c d) :=
    (h.step k w (.save c d)).recordsOk.shown_eq
  rw [h.recordsOk.shown_eq, hnext]
  exact recordLog_save_extends k w.2 w.1 c d

/-- Every run from the zeroed memory of `alloc_percpu`. -/
theorem BufferInv.run (k : Kernel) (es : List BufferEvent) :
    BufferInv (run (observe (bufferStep k) (recordLog k)) (PerCpuStackTrace.zero, []) es) :=
  inv_run (fun w e h _ => h.step k w e) BufferInv.zero (Steps.of_forall fun _ _ => trivial)

end Noschedule

/-! ## `trace_irqoff.c`

A CPU has two buffers here. `save_trace` chooses one of them and leaves the other alone, a clear
clears both, so the argument is made for one buffer and used twice. -/

namespace Irqoff

def toArena (m : StackTraceMetadata) : Arena (Comm × Int) UInt64 where
  nrRecs := m.nrIrqoffTrace
  nrCells := m.nrEntries
  heads := fun i => (m.comms i, m.pids i)
  slices := fun i => (m.trace i).slice
  cells := m.entries

/-- `trace_latency_show_one` on one buffer, without the latencies. -/
def traceLatencyShowOne (m : StackTraceMetadata) : List ShownRecord :=
  (List.range m.nrIrqoffTrace).map fun i =>
    ((m.comms i, m.pids i), seqPrintStackTrace m.entries (m.trace i))

/-- The stack that a save into `m` captures. -/
def capturedStack (k : Kernel) (m : StackTraceMetadata) (c : Capture) (regs : Option PtRegs) :
    List UInt64 :=
  k.captured regs c.unwound (maxTraceEntries - m.nrEntries)

/-- The records captured since the last clear, after one more save into `m`. -/
def saveLog (k : Kernel) (log : List ShownRecord) (m : StackTraceMetadata) (c : Capture)
    (regs : Option PtRegs) : List ShownRecord :=
  if HasRoom m then log ++ [((c.current.comm, c.current.pid), capturedStack k m c regs)] else log

/-- What a save does to the arena of its buffer. -/
def saveAction (k : Kernel) (m : StackTraceMetadata) (c : Capture) (regs : Option PtRegs) :
    Arena.Action (Comm × Int) UInt64 :=
  if HasRoom m then
    .push (c.current.comm, c.current.pid)
      (k.saved regs c.unwound (maxTraceEntries - m.nrEntries)) (capturedStack k m c regs).length
  else .refuse

section OneBuffer

variable (k : Kernel) (m : StackTraceMetadata) (c : Capture) (regs : Option PtRegs) (more : Bool)
  (latency : UInt64)

theorem toArena_publish :
    toArena (publish k m c regs more latency)
      = (toArena m).push (c.current.comm, c.current.pid)
          (k.saved regs c.unwound (maxTraceEntries - m.nrEntries))
          (capturedStack k m c regs).length := by
  unfold toArena publish Arena.push capturedStack
  simp only [storeStackTrace_eq, strlcpy_taskCommLen, update_pair, update_slice]
  rfl

theorem toArena_saveTraceTo :
    toArena (saveTraceTo k m c regs more latency).2
      = (toArena m).act (saveAction k m c regs) := by
  rw [saveTraceTo_eq]
  unfold saveAction
  split
  · exact toArena_publish k m c regs more latency
  · rfl

theorem saveAction_fits :
    (saveAction k m c regs).Fits maxStaceTraceEntries maxTraceEntries (toArena m) := by
  unfold saveAction
  split
  · next hroom =>
      -- this tracer stops one entry before the end of the array
      exact push_fits (A := toArena m) k _ _ _ hroom.1 (Nat.lt_of_lt_of_le hroom.2 (Nat.sub_le _ _))
  · trivial

theorem saveLog_eq (log : List ShownRecord) :
    saveLog k log m c regs = (saveAction k m c regs).log log := by
  unfold saveLog saveAction
  split
  · exact (push_log k _ _ _ _ log).symm
  · rfl

end OneBuffer

/-- The invariant of one buffer. -/
structure BufferInv (m : StackTraceMetadata) (log : List ShownRecord) : Prop where
  good : Arena.Good maxStaceTraceEntries maxTraceEntries (toArena m) log
  pointed : Pointed m.nrIrqoffTrace m.trace

theorem BufferInv.save {m : StackTraceMetadata} {log : List ShownRecord} (h : BufferInv m log)
    (k : Kernel) (c : Capture) (regs : Option PtRegs) (more : Bool) (latency : UInt64) :
    BufferInv (saveTraceTo k m c regs more latency).2 (saveLog k log m c regs) where
  good := by
    rw [toArena_saveTraceTo, saveLog_eq]
    exact h.good.act _ (saveAction_fits k m c regs)
  pointed := by
    rw [saveTraceTo_eq]
    split
    · simp only [publish, storeStackTrace_eq]
      exact h.pointed.update _ _
    · exact h.pointed

theorem BufferInv.clear {m : StackTraceMetadata} {log : List ShownRecord} (h : BufferInv m log) :
    BufferInv m.clear [] where
  good := h.good.act .clear trivial
  pointed := fun i hi => absurd hi (Nat.not_lt_zero i)

theorem BufferInv.zero : BufferInv StackTraceMetadata.zero [] where
  good := ⟨Nat.zero_le _, Nat.zero_le _, Arena.tiled_clear (toArena StackTraceMetadata.zero), rfl⟩
  pointed := fun i hi => absurd hi (Nat.not_lt_zero i)

theorem BufferInv.recordsOk {m : StackTraceMetadata} {log : List ShownRecord}
    (h : BufferInv m log) :
    RecordsOk maxStaceTraceEntries maxTraceEntries m.nrIrqoffTrace m.nrEntries
      (fun i => (m.trace i).slice) (traceLatencyShowOne m) log where
  nrRecs_le := h.good.nrRecs_le
  nrEntries_le := h.good.nrCells_le
  tiles := tiles_of_tiled h.good.tiled
  shown_eq := by
    rw [← h.good.shown_eq]
    exact shown_eq_arena h.pointed _ _ _

theorem saveLog_extends (k : Kernel) (log : List ShownRecord) (m : StackTraceMetadata)
    (c : Capture) (regs : Option PtRegs) : log <+: saveLog k log m c regs := by
  unfold saveLog
  split
  · exact List.prefix_append _ _
  · exact List.prefix_rfl

theorem BufferInv.show_save {m : StackTraceMetadata} {log : List ShownRecord}
    (h : BufferInv m log) (k : Kernel) (c : Capture) (regs : Option PtRegs) (more : Bool)
    (latency : UInt64) :
    traceLatencyShowOne m <+: traceLatencyShowOne (saveTraceTo k m c regs more latency).2 := by
  rw [h.recordsOk.shown_eq, (h.save k c regs more latency).recordsOk.shown_eq]
  exact saveLog_extends k log m c regs

/-- A call of `save_trace`, or a clear. -/
inductive BufferEvent where
  | save (c : Capture) (regs : Option PtRegs) (hardirq : Bool) (latency : UInt64)
  | clear

def bufferStep (k : Kernel) (st : PerCpuStackTrace) : BufferEvent → PerCpuStackTrace
  | .save c regs hardirq latency => (saveTrace k st c regs hardirq latency).2
  | .clear => smpClearStackTrace st

/-- The records captured since the last clear, for interrupts and for softirqs. -/
structure Logs where
  hardirq : List ShownRecord
  softirq : List ShownRecord

def recordLogs (k : Kernel) (logs : Logs) (st : PerCpuStackTrace) : BufferEvent → Logs
  | .save c regs hardirq _ =>
      if hardirq then { logs with hardirq := saveLog k logs.hardirq st.hardirqTrace c regs }
      else { logs with softirq := saveLog k logs.softirq st.softirqTrace c regs }
  | .clear => ⟨[], []⟩

/-- Both buffers of a CPU. -/
structure CpuInv (w : PerCpuStackTrace × Logs) : Prop where
  hardirq : BufferInv w.1.hardirqTrace w.2.hardirq
  softirq : BufferInv w.1.softirqTrace w.2.softirq

theorem CpuInv.step (k : Kernel) (w : PerCpuStackTrace × Logs) (e : BufferEvent)
    (h : CpuInv w) : CpuInv (observe (bufferStep k) (recordLogs k) w e) := by
  cases e with
  | clear => exact ⟨h.hardirq.clear, h.softirq.clear⟩
  | save c regs hardirq latency =>
      cases hardirq with
      | true => exact ⟨h.hardirq.save k c regs _ latency, h.softirq⟩
      | false => exact ⟨h.hardirq, h.softirq.save k c regs _ latency⟩

/-- A call of `save_trace` leaves what both buffers showed before it in place. -/
theorem CpuInv.show_save {w : PerCpuStackTrace × Logs} (h : CpuInv w) (k : Kernel) (c : Capture)
    (regs : Option PtRegs) (hardirq : Bool) (latency : UInt64) :
    traceLatencyShowOne w.1.hardirqTrace
        <+: traceLatencyShowOne (bufferStep k w.1 (.save c regs hardirq latency)).hardirqTrace ∧
      traceLatencyShowOne w.1.softirqTrace
        <+: traceLatencyShowOne (bufferStep k w.1 (.save c regs hardirq latency)).softirqTrace := by
  cases hardirq with
  | true => exact ⟨h.hardirq.show_save k c regs _ latency, List.prefix_rfl⟩
  | false => exact ⟨List.prefix_rfl, h.softirq.show_save k c regs _ latency⟩

theorem CpuInv.run (k : Kernel) (es : List BufferEvent) :
    CpuInv (run (observe (bufferStep k) (recordLogs k)) (PerCpuStackTrace.zero, ⟨[], []⟩) es) :=
  inv_run (fun w e h _ => h.step k w e) ⟨BufferInv.zero, BufferInv.zero⟩
    (Steps.of_forall fun _ _ => trivial)

end Irqoff

/-- **Both tracers show what they captured.** After every sequence of saves and clears, on both
stack interfaces: the counters are within the arrays, the slices of the records tile the
entries in use, and the records shown are those captured since the last clear, in order. A
further save extends what is shown and changes none of it. -/
theorem records_as_captured (k : Kernel) :
    (∀ es : List Noschedule.BufferEvent,
      let w := run (observe (Noschedule.bufferStep k) (Noschedule.recordLog k))
        (Noschedule.PerCpuStackTrace.zero, []) es
      RecordsOk Noschedule.maxStaceTraceEntries Noschedule.maxTraceEntries w.1.nrStackEntries
          w.1.nrEntries (fun i => (w.1.stackEntries i).slice)
          (Noschedule.stackTraceShow w.1) w.2 ∧
        ∀ c d, Noschedule.stackTraceShow w.1
          <+: Noschedule.stackTraceShow (Noschedule.bufferStep k w.1 (.save c d))) ∧
    (∀ es : List Irqoff.BufferEvent,
      let w := run (observe (Irqoff.bufferStep k) (Irqoff.recordLogs k))
        (Irqoff.PerCpuStackTrace.zero, ⟨[], []⟩) es
      RecordsOk Irqoff.maxStaceTraceEntries Irqoff.maxTraceEntries
          w.1.hardirqTrace.nrIrqoffTrace w.1.hardirqTrace.nrEntries
          (fun i => (w.1.hardirqTrace.trace i).slice)
          (Irqoff.traceLatencyShowOne w.1.hardirqTrace) w.2.hardirq ∧
        RecordsOk Irqoff.maxStaceTraceEntries Irqoff.maxTraceEntries
          w.1.softirqTrace.nrIrqoffTrace w.1.softirqTrace.nrEntries
          (fun i => (w.1.softirqTrace.trace i).slice)
          (Irqoff.traceLatencyShowOne w.1.softirqTrace) w.2.softirq ∧
        ∀ c regs hardirq latency,
          let st := Irqoff.bufferStep k w.1 (.save c regs hardirq latency)
          Irqoff.traceLatencyShowOne w.1.hardirqTrace
              <+: Irqoff.traceLatencyShowOne st.hardirqTrace ∧
            Irqoff.traceLatencyShowOne w.1.softirqTrace
              <+: Irqoff.traceLatencyShowOne st.softirqTrace) := by
  refine ⟨fun es => ?_, fun es => ?_⟩
  · have h := Noschedule.BufferInv.run k es
    exact ⟨h.recordsOk, fun c d => h.show_save k c d⟩
  · have h := Irqoff.CpuInv.run k es
    exact ⟨h.hardirq.recordsOk, h.softirq.recordsOk, h.show_save k⟩

end UioLinuxSample
