import UioLinuxSample.Kernel
import UioLinuxSample.Lib.ShiftLoop

set_option autoImplicit false

/-! # `trace_runqlat.c`: the tracer of one task's time on the run queue

The tracer follows one pid. From the moment its task becomes runnable (`rq_start`) it watches
the switches on the CPU the task is queued on, and every time another task gives that CPU up,
`record_task` appends an entry with the time since `run_start` to the open trace entry. When
the task is switched in at last, `record_task_commit` counts the latency in a histogram and
keeps the open trace entry if the latency reaches the threshold, or gives its task entries back.

Each probe runs under `info->lock`, so it is one atomic step here and the checks that the source
repeats after taking the lock are made once. What a probe reads from the kernel is an argument:
the clock, the CPU it runs on, and the tasks of the tracepoint.

A probe returns the calls of `record_task` and `record_task_commit` it has made, each with the
`info` it was made on, so that properties of the single calls can be stated.
-/

namespace UioLinuxSample.Runqlat

/-! ## Constants -/

/-- `MAX_TRACE_ENTRIES`. -/
def maxTraceEntries : Nat := 128

/-- `PER_TRACE_ENTRY_TASKS`. -/
def perTraceEntryTasks : Nat := 16

/-- `MAX_TRACE_ENTRY_TASKS`. -/
def maxTraceEntryTasks : Nat := maxTraceEntries * perTraceEntryTasks

/-- `THRESHOLD_DEFAULT`, in nanoseconds. -/
def thresholdDefault : UInt64 := 20 * 1000 * 1000

/-- `INVALID_PID`. -/
def invalidPid : Int := -1

/-- `INVALID_CPU`. -/
def invalidCpu : Int := -1

/-- `LATENCY_HISTOGRAM_ENTRY`. -/
def latencyHistogramEntry : Nat := 12

/-! ## The state -/

/-- `struct task_entry`. -/
structure TaskEntry where
  runtime : UInt64
  pid : Int
  comm : Comm
  deriving DecidableEq

def TaskEntry.zero : TaskEntry := ⟨0, 0, Comm.empty⟩

/-- `struct trace_entry`. The pointer is an offset into `task_entries`, `none` for `NULL`. -/
structure TraceEntry where
  latency : UInt64
  nrTasks : Nat
  entries : Option Nat
  deriving DecidableEq

def TraceEntry.zero : TraceEntry := ⟨0, 0, none⟩

/-- `struct runqlat_info`, without the lock. -/
structure Info where
  cpu : Int
  pid : Int
  rqStart : UInt64
  runStart : UInt64
  threshold : UInt64
  curr : Option TaskStruct
  latencyHist : Nat → UInt64
  sumLat : UInt64
  nrTrace : Nat
  traceEntries : Nat → TraceEntry
  nrTask : Nat
  taskEntries : Nat → TaskEntry

/-- The static initialiser, with the zeroed arrays that `trace_runqlat_init` allocates. -/
def Info.init : Info where
  cpu := invalidCpu
  pid := invalidPid
  rqStart := 0
  runStart := 0
  threshold := thresholdDefault
  curr := none
  latencyHist := fun _ => 0
  sumLat := 0
  nrTrace := 0
  traceEntries := fun _ => TraceEntry.zero
  nrTask := 0
  taskEntries := fun _ => TaskEntry.zero

/-- `trace_entries + nr_trace`, the entry that is being filled. -/
def Info.openEntry (info : Info) : TraceEntry := info.traceEntries info.nrTrace

/-! ## Recording -/

/-- `runqlat_info_reset`. -/
def runqlatInfoReset (info : Info) : Info :=
  { info with rqStart := 0, runStart := 0, cpu := invalidCpu, curr := none }

/-- The reset of a tracer that has run out of entries. -/
def forceDisable (info : Info) : Info := { runqlatInfoReset info with pid := invalidPid }

/-- `trace->entries` when `record_task` tests it. -/
def Info.openStart (info : Info) : Option Nat :=
  if info.openEntry.nrTasks = 0 then some info.nrTask else info.openEntry.entries

/-- The condition of the `WARN_ON_ONCE` in `record_task`. -/
def Info.Warns (info : Info) : Prop :=
  info.openStart.map Int.ofNat ≠ some ((info.nrTask : Int) - info.openEntry.nrTasks)

/-- `record_task` up to its limit check. -/
def appendTask (info : Info) (p : TaskStruct) (runtime : UInt64) : Info :=
  { info with
    traceEntries := Function.update info.traceEntries info.nrTrace
      { info.openEntry with entries := info.openStart, nrTasks := info.openEntry.nrTasks + 1 }
    taskEntries := Function.update info.taskEntries info.nrTask
      ⟨runtime, p.pid, strncpy p.comm taskCommLen⟩
    nrTask := info.nrTask + 1 }

/-- `record_task(info, p, runtime)`. -/
def recordTask (info : Info) (p : TaskStruct) (runtime : UInt64) : Info :=
  let info := appendTask info p runtime
  if info.nrTask ≥ maxTraceEntryTasks then forceDisable info else info

/-- The bucket `latency_histogram_store` counts a latency of `delta` milliseconds in. -/
def latencyIndex (delta : UInt64) : Nat :=
  let index := shiftWhile (fun d => decide (d > 0)) 64 (delta >>> 1) 0
  if index ≥ latencyHistogramEntry then latencyHistogramEntry - 1 else index

/-- The bucket is the number of bits of half the latency; the last bucket takes all that have
more. -/
theorem latencyIndex_spec (delta : UInt64) :
    ∃ i, latencyIndex delta = min i (latencyHistogramEntry - 1)
      ∧ shifted (delta >>> 1) i = 0 ∧ ∀ j < i, shifted (delta >>> 1) j ≠ 0 := by
  have h0 : decide ((0 : UInt64) > 0) = false := by decide
  obtain ⟨hend, hbefore⟩ := shiftWhile_word (fun d => decide (d > 0)) h0 (delta >>> 1)
  refine ⟨shiftWhile (fun d => decide (d > 0)) 64 (delta >>> 1) 0, ?_, ?_, ?_⟩
  · exact capped_eq_min (by decide) _
  · simpa using hend
  · intro j hj
    exact UInt64.pos_iff_ne_zero.mp (of_decide_eq_true (hbefore j hj))

/-- `latency_histogram_store`. -/
def latencyHistogramStore (info : Info) (delta : UInt64) : Info :=
  let delta := delta / 1000000
  let index := latencyIndex delta
  { info with
    sumLat := info.sumLat + delta
    latencyHist := Function.update info.latencyHist index (info.latencyHist index + 1) }

/-- The branch of `record_task_commit` that keeps the open entry. -/
def keepTrace (info : Info) (latency : UInt64) : Info :=
  let info := { info with
    traceEntries := Function.update info.traceEntries info.nrTrace
      { info.openEntry with latency := latency }
    nrTrace := info.nrTrace + 1 }
  if info.nrTrace ≥ maxTraceEntries then forceDisable info else info

/-- The branch of `record_task_commit` that gives the open entry back. -/
def dropTrace (info : Info) : Info :=
  { info with
    -- `unsigned int` arithmetic
    nrTask := (UInt32.ofNat info.nrTask - UInt32.ofNat info.openEntry.nrTasks).toNat
    traceEntries := Function.update info.traceEntries info.nrTrace
      { info.openEntry with nrTasks := 0, entries := none } }

/-- `record_task_commit(info, latency)`. -/
def recordTaskCommit (info : Info) (latency : UInt64) : Bool × Info :=
  let info := latencyHistogramStore info latency
  if info.openEntry.nrTasks = 0 then (false, info)
  else if latency ≥ info.threshold then (true, keepTrace info latency)
  else (true, dropTrace info)

/-! ## The probes -/

/-- A call made by a probe, with the `info` it was made on. -/
inductive Call where
  | recordTask (info : Info) (p : TaskStruct) (runtime : UInt64)
  | recordTaskCommit (info : Info) (latency : UInt64)

/-- `if (info->run_start) record_task(info, p, now - info->run_start);` -/
def recordSince (info : Info) (p : TaskStruct) (now : UInt64) : Info × List Call :=
  if info.runStart ≠ 0 then
    (recordTask info p (now - info.runStart), [.recordTask info p (now - info.runStart)])
  else (info, [])

/-- `if (!is_idle_task(next)) info->curr = next;` -/
def updateCurr (info : Info) (next : TaskStruct) : Info :=
  if !next.idle then { info with curr := some next } else info

/-- `sched_wakeup` and `sched_wakeup_new`. -/
structure Wakeup where
  now : UInt64
  p : TaskStruct

/-- `probe_sched_wakeup`. -/
def probeSchedWakeup (info : Info) (e : Wakeup) : Info :=
  if e.p.pid ≠ info.pid then info
  else { info with rqStart := e.now, runStart := e.now, cpu := e.p.cpu }

/-- `sched_switch` on `cpu`. -/
structure Switch where
  now : UInt64
  cpu : Int
  prev : TaskStruct
  next : TaskStruct

/-- `probe_sched_switch` on the CPU that the tracer watches. -/
def watchedSwitch (info : Info) (e : Switch) : Info × List Call :=
  let info := updateCurr info e.next
  if info.pid = e.next.pid then
    let r := recordSince info e.prev e.now
    -- `rq_start` is read after `record_task`
    let latency := e.now - r.1.rqStart
    ((recordTaskCommit r.1 latency).2, r.2 ++ [.recordTaskCommit r.1 latency])
  else if info.pid = e.prev.pid then
    if e.prev.state = taskRunning then
      ({ info with rqStart := e.now, runStart := e.now }, [])
    else (runqlatInfoReset info, [])
  else
    let r := recordSince info e.prev e.now
    ({ r.1 with runStart := e.now }, r.2)

/-- `probe_sched_switch`. -/
def probeSchedSwitch (info : Info) (e : Switch) : Info × List Call :=
  if info.pid = invalidPid then (info, [])
  else if info.cpu ≠ invalidCpu ∧ info.cpu ≠ e.cpu then (info, [])
  else if info.cpu = invalidCpu then
    if info.pid ≠ e.prev.pid ∨ e.prev.state ≠ taskRunning then (info, [])
    else
      (updateCurr { info with rqStart := e.now, runStart := e.now, cpu := e.prev.cpu } e.next, [])
  else watchedSwitch info e

/-- `sched_migrate_task` to `cpu`. The probe reads the name of the task `info->curr` points to
when it runs: `currComm`. -/
structure Migrate where
  now : UInt64
  p : TaskStruct
  cpu : Int
  currComm : Comm

/-- `probe_sched_migrate_task`. -/
def probeSchedMigrateTask (info : Info) (e : Migrate) : Info × List Call :=
  if e.p.pid ≠ info.pid ∨ info.cpu = invalidCpu then (info, [])
  else
    let r :=
      match info.curr with
      | some curr => recordSince info { curr with comm := e.currComm } e.now
      | none => (info, [])
    ({ r.1 with cpu := e.cpu, runStart := e.now }, r.2)

/-! ## The files under `/proc` -/

/-- The start of a session in `trace_pid_store`: both arrays and the histogram are zeroed,
`sum_lat` is not. -/
def sessionClear (info : Info) : Info :=
  { info with
    nrTrace := 0
    nrTask := 0
    traceEntries := fun i => if i < maxTraceEntries then TraceEntry.zero else info.traceEntries i
    taskEntries := fun i => if i < maxTraceEntryTasks then TaskEntry.zero else info.taskEntries i
    latencyHist := fun i => if i < latencyHistogramEntry then 0 else info.latencyHist i }

/-- `trace_pid_store`; `none` is a text that is no number. -/
def tracePidStore (info : Info) (pid : Option Int) : Except Errno Unit × Info :=
  match pid with
  | none => (.error .einval, info)
  | some pid =>
      if info.pid ≠ invalidPid ∧ pid ≠ invalidPid then (.error .eperm, info)
      else if info.pid = pid then (.ok (), info)
      else
        let info := if pid ≠ invalidPid then sessionClear info else info
        (.ok (), { runqlatInfoReset info with pid := pid })

/-- `threshold_store`. -/
def thresholdStore (info : Info) (threshold : Option UInt64) : Except Errno Unit × Info :=
  match threshold with
  | none => (.error .einval, info)
  | some threshold => (.ok (), { info with threshold := threshold })

/-- What `runqlat_show` prints of a trace entry: latency and run times in microseconds. -/
structure ShownTrace where
  latency : UInt64
  runqlen : Nat
  tasks : List TaskEntry
  deriving DecidableEq

/-- One turn of the outer loop of `runqlat_show`. -/
def showTrace (info : Info) (i : Nat) : ShownTrace :=
  let entry := info.traceEntries i
  { latency := entry.latency / 1000
    runqlen := entry.nrTasks
    tasks := (List.range entry.nrTasks).map fun j =>
      let task := info.taskEntries (entry.entries.getD 0 + j)
      { task with runtime := task.runtime / 1000 } }

/-- `runqlat_show`. -/
def runqlatShow (info : Info) : Except Errno (List ShownTrace) :=
  if info.pid ≠ invalidCpu then .error .eperm
  else .ok ((List.range info.nrTrace).map (showTrace info))

/-! ## Events -/

/-- What can happen to the tracer. -/
inductive Event where
  | wakeup (e : Wakeup)
  | schedSwitch (e : Switch)
  | migrate (e : Migrate)
  | tracePid (pid : Option Int)
  | threshold (threshold : Option UInt64)

/-- The handler of an event, run to completion, with the calls it has made. -/
def handle (info : Info) : Event → Info × List Call
  | .wakeup e => (probeSchedWakeup info e, [])
  | .schedSwitch e => probeSchedSwitch info e
  | .migrate e => probeSchedMigrateTask info e
  | .tracePid pid => ((tracePidStore info pid).2, [])
  | .threshold threshold => ((thresholdStore info threshold).2, [])

def step (info : Info) (e : Event) : Info := (handle info e).1

/-- The calls of `record_task` and `record_task_commit` that a step makes. -/
def calls (info : Info) (e : Event) : List Call := (handle info e).2

end UioLinuxSample.Runqlat
