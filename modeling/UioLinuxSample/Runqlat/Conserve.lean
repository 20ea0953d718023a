import UioLinuxSample.Runqlat.Latency
import Mathlib.Data.UInt

set_option autoImplicit false

/-! # Waiting time is conserved

For a committed trace entry, the run times of its task entries add up to its latency, in 64-bit
arithmetic. The sum telescopes: while the task waits, the run times recorded so far add up to
`run_start - rq_start`, and a switch adds `now - run_start` and moves `run_start` to `now`. What
makes the first term right is that the open entry is empty whenever the task does not wait
(`Balanced.idle`).

A migration of the waiting task records `curr`, or nothing at all, so the law is about runs
without one.
-/

namespace UioLinuxSample.Runqlat

open Run

/-! ## Sums of run times -/

/-- The run times of `n` task entries from `start` on. -/
def runtimes (tasks : Nat → TaskEntry) (start n : Nat) : UInt64 :=
  ∑ j ∈ Finset.range n, (tasks (start + j)).runtime

/-- The run times recorded in the open entry. -/
def openSum (info : Info) : UInt64 :=
  runtimes info.taskEntries (base info.traceEntries info.nrTrace) info.openEntry.nrTasks

/-- The run times of the task entries of trace entry `i`. -/
def entrySum (info : Info) (i : Nat) : UInt64 :=
  runtimes info.taskEntries ((info.traceEntries i).entries.getD 0) (info.traceEntries i).nrTasks

theorem runtimes_update {tasks : Nat → TaskEntry} {start n k : Nat} (h : start + n ≤ k)
    (t : TaskEntry) : runtimes (Function.update tasks k t) start n = runtimes tasks start n := by
  refine Finset.sum_congr rfl fun j hj => ?_
  have hne : start + j ≠ k := by
    have := Finset.mem_range.mp hj
    omega
  rw [Function.update_of_ne hne]

theorem runtimes_succ (tasks : Nat → TaskEntry) (start n : Nat) :
    runtimes tasks start (n + 1) = runtimes tasks start n + (tasks (start + n)).runtime :=
  Finset.sum_range_succ _ _

theorem openSum_of_empty {info : Info} (h : info.openEntry.nrTasks = 0) : openSum info = 0 := by
  unfold openSum
  rw [h]
  rfl

section Calls

variable {info : Info}

/-- The next free task entry is right behind those of the open entry. -/
theorem Wf.nrTask_eq_open (h : Wf info) (hn : info.nrTrace < maxTraceEntries) :
    info.nrTask = base info.traceEntries info.nrTrace + info.openEntry.nrTasks := by
  have heq := h.layout.nrTask_eq
  rw [openTasks_of_lt hn] at heq
  exact heq

theorem openSum_appendTask (h : Wf info) (hn : info.nrTrace < maxTraceEntries) (p : TaskStruct)
    (runtime : UInt64) : openSum (appendTask info p runtime) = openSum info + runtime := by
  have hnr := h.nrTask_eq_open hn
  have hopen : (appendTask info p runtime).openEntry.nrTasks = info.openEntry.nrTasks + 1 := by
    show (Function.update info.traceEntries info.nrTrace _ info.nrTrace).nrTasks = _
    rw [Function.update_self]
  have hbase : base (appendTask info p runtime).traceEntries info.nrTrace
      = base info.traceEntries info.nrTrace :=
    base_update info.traceEntries (Nat.le_refl _) _
  unfold openSum
  rw [hopen]
  show runtimes (Function.update info.taskEntries info.nrTask _) (base _ info.nrTrace) _ = _
  rw [hbase, runtimes_succ, runtimes_update (Nat.le_of_eq hnr.symm), ← hnr, Function.update_self]

/-- The task entries of a committed entry are below the next free one. -/
theorem entrySum_appendTask (h : Wf info) {i : Nat} (hi : i < info.nrTrace) (p : TaskStruct)
    (runtime : UInt64) : entrySum (appendTask info p runtime) i = entrySum info i := by
  have hentry : (appendTask info p runtime).traceEntries i = info.traceEntries i :=
    Function.update_of_ne (Nat.ne_of_lt hi) _ _
  have hend := base_end_le info.traceEntries hi
  have hnr := h.layout.nrTask_eq
  unfold entrySum
  rw [hentry, (h.layout.committed i hi).2, Option.getD_some]
  exact runtimes_update (by omega) _

/-- An entry other than the open one is not touched by a write to the open one. -/
theorem entrySum_update {info' : Info} {t : TraceEntry}
    (hentries : info'.traceEntries = Function.update info.traceEntries info.nrTrace t)
    (htasks : info'.taskEntries = info.taskEntries) {i : Nat} (hi : i ≠ info.nrTrace) :
    entrySum info' i = entrySum info i := by
  unfold entrySum
  rw [hentries, htasks, Function.update_of_ne hi]

theorem keepTrace_taskEntries (info : Info) (latency : UInt64) :
    (keepTrace info latency).taskEntries = info.taskEntries := by
  unfold keepTrace
  dsimp only
  split <;> rfl

/-- A committed entry has the sum that the open one had. -/
theorem entrySum_keepTrace (h : Wf info) (hn : info.nrTrace < maxTraceEntries)
    (hpos : 0 < info.openEntry.nrTasks) (latency : UInt64) :
    entrySum (keepTrace info latency) info.nrTrace = openSum info := by
  unfold entrySum openSum
  rw [keepTrace_traceEntries, keepTrace_taskEntries, Function.update_self]
  show runtimes _ (info.openEntry.entries.getD 0) _ = _
  rw [show info.openEntry.entries = _ from h.layout.opened hn hpos, Option.getD_some]

end Calls

/-! ## The committed entries -/

/-- The trace entry that is open when a call of `record_task` takes the last task entry. -/
def Call.limited? : Call → Option Nat
  | .recordTask info _ _ =>
      if info.nrTask + 1 ≥ maxTraceEntryTasks then some info.nrTrace else none
  | .recordTaskCommit _ _ => none

/-- The scheduler, and the entries of this session whose last call of `record_task` has hit the
limit. -/
structure WaitHistory where
  sched : Sched
  limited : List Nat

def WaitHistory.next (h : WaitHistory) (info : Info) (e : Event) : WaitHistory where
  sched := h.sched.next e
  limited :=
    if startsSession info e then []
    else h.limited ++ (calls info e).filterMap Call.limited?

/-- The law for the committed entries. -/
def Conserved (info : Info) (limited : List Nat) : Prop :=
  ∀ i < info.nrTrace, i ∉ limited → entrySum info i = (info.traceEntries i).latency

theorem Conserved.mono {info : Info} {limited : List Nat} (h : Conserved info limited)
    (more : List Nat) : Conserved info (limited ++ more) :=
  fun i hi hnot => h i hi fun hmem => hnot (List.mem_append_left _ hmem)

theorem Conserved.of_same {info info' : Info} {limited : List Nat} (h : Conserved info limited)
    (hnr : info'.nrTrace = info.nrTrace) (hentries : info'.traceEntries = info.traceEntries)
    (htasks : info'.taskEntries = info.taskEntries) : Conserved info' limited := by
  unfold Conserved entrySum
  rw [hnr, hentries, htasks]
  exact h

theorem Conserved.appendTask {info : Info} {limited : List Nat} (h : Conserved info limited)
    (hwf : Wf info) (p : TaskStruct) (runtime : UInt64) :
    Conserved (appendTask info p runtime) limited := by
  intro i hi hnot
  have hentry : (Runqlat.appendTask info p runtime).traceEntries i = info.traceEntries i :=
    Function.update_of_ne (Nat.ne_of_lt hi) _ _
  rw [entrySum_appendTask hwf hi, hentry]
  exact h i hi hnot

theorem recordTask_taskEntries (info : Info) (p : TaskStruct) (runtime : UInt64) :
    (recordTask info p runtime).taskEntries = (appendTask info p runtime).taskEntries := by
  unfold recordTask
  dsimp only
  split <;> rfl

theorem Conserved.recordSince {info : Info} {limited : List Nat} (h : Conserved info limited)
    (hwf : Wf info) (p : TaskStruct) (now : UInt64) :
    Conserved (recordSince info p now).1 limited := by
  unfold Runqlat.recordSince
  split
  · exact (h.appendTask hwf p (now - info.runStart)).of_same (recordTask_nrTrace _ _ _)
      (recordTask_traceEntries _ _ _) (recordTask_taskEntries _ _ _)
  · exact h

/-- A commit keeps the law if the open entry satisfies it, or need not. -/
theorem Conserved.commit {info : Info} {limited : List Nat} (h : Conserved info limited)
    (hwf : Wf info) (hn : info.nrTrace < maxTraceEntries) {latency : UInt64}
    (hopen : info.nrTrace ∉ limited → openSum info = latency) :
    Conserved (recordTaskCommit info latency).2 limited := by
  have hstore : Conserved (latencyHistogramStore info latency) limited := h.of_same rfl rfl rfl
  have hwf' : Wf (latencyHistogramStore info latency) := ⟨hwf.layout, hwf.strict, hwf.no_curr⟩
  unfold recordTaskCommit
  dsimp only
  split
  · exact hstore
  · next hne =>
      split
      · -- kept: the open entry becomes the last committed one
        intro i hi hnot
        rw [keepTrace_nrTrace] at hi
        rcases Nat.lt_or_eq_of_le (Nat.le_of_lt_succ hi) with hlt | rfl
        · have hne' := Nat.ne_of_lt hlt
          rw [entrySum_update (keepTrace_traceEntries _ _) (keepTrace_taskEntries _ _) hne',
            keepTrace_traceEntries, Function.update_of_ne hne']
          exact hstore i hlt hnot
        · rw [entrySum_keepTrace hwf' hn (Nat.pos_of_ne_zero hne), keepTrace_traceEntries,
            Function.update_self]
          exact hopen hnot
      · -- dropped: only the open entry is written, which no committed one is
        intro i hi hnot
        have hne' : i ≠ info.nrTrace := Nat.ne_of_lt hi
        have hentries : (dropTrace (latencyHistogramStore info latency)).traceEntries
            = Function.update info.traceEntries info.nrTrace _ := rfl
        rw [entrySum_update hentries rfl hne', hentries, Function.update_of_ne hne']
        exact h i hi hnot

/-! ## The open entry -/

/-- What the open entry holds: the time since `rq_start` up to `run_start` while the traced task
waits, and nothing while it does not. -/
structure OpenOk (info : Info) (s : Sched) : Prop where
  waiting : info.pid ≠ invalidPid → info.cpu ≠ invalidCpu →
    s.task info.pid = .queued info.cpu → openSum info = info.runStart - info.rqStart
  idle : info.pid ≠ invalidPid →
    ¬ (info.cpu ≠ invalidCpu ∧ s.task info.pid = .queued info.cpu) → info.openEntry.nrTasks = 0

theorem openOk_of_off {info : Info} {s : Sched} (h : info.pid = invalidPid) : OpenOk info s where
  waiting := fun hne => absurd h hne
  idle := fun hne => absurd h hne

/-- An empty entry at the beginning of a wait, or outside of one. -/
theorem openOk_of_empty {info : Info} {s : Sched} (h : info.openEntry.nrTasks = 0)
    (hstart : info.runStart = info.rqStart) : OpenOk info s where
  waiting := by
    intro _ _ _
    rw [openSum_of_empty h, hstart, UInt64.sub_self]
  idle := fun _ _ => h

theorem openOk_of_unwatched {info : Info} {s : Sched} (hcpu : info.cpu = invalidCpu)
    (h : info.openEntry.nrTasks = 0) : OpenOk info s where
  waiting := fun _ hne => absurd hcpu hne
  idle := fun _ _ => h

theorem openOk_of_running {info : Info} {s : Sched} {cpu : Int}
    (hrunning : s.task info.pid = .running cpu)
    (h : info.pid ≠ invalidPid → info.openEntry.nrTasks = 0) : OpenOk info s where
  waiting := by
    intro _ _ hqueued
    rw [hrunning] at hqueued
    exact absurd hqueued (by simp)
  idle := fun hpid _ => h hpid

theorem OpenOk.unwatched {info : Info} {s : Sched} (h : OpenOk info s)
    (hpid : info.pid ≠ invalidPid) (hcpu : info.cpu = invalidCpu) :
    info.openEntry.nrTasks = 0 :=
  h.idle hpid fun hand => hand.1 hcpu

theorem OpenOk.running {info : Info} {s : Sched} (h : OpenOk info s)
    (hpid : info.pid ≠ invalidPid) {cpu : Int} (hrunning : s.task info.pid = .running cpu) :
    info.openEntry.nrTasks = 0 := by
  refine h.idle hpid fun hand => ?_
  rw [hrunning] at hand
  exact absurd hand.2 (by simp)

theorem Wf.updateCurr {info : Info} (h : Wf info) (hpid : info.pid ≠ invalidPid)
    (next : TaskStruct) : Wf (updateCurr info next) := by
  unfold Runqlat.updateCurr
  split
  · exact ⟨h.layout, h.strict, fun heq => absurd heq hpid⟩
  · exact h

@[simp] theorem updateCurr_taskEntries (info : Info) (next : TaskStruct) :
    (updateCurr info next).taskEntries = info.taskEntries := by
  unfold updateCurr
  split <;> rfl

@[simp] theorem updateCurr_openEntry (info : Info) (next : TaskStruct) :
    (updateCurr info next).openEntry = info.openEntry := by
  unfold updateCurr
  split <;> rfl

@[simp] theorem openSum_updateCurr (info : Info) (next : TaskStruct) :
    openSum (updateCurr info next) = openSum info := by
  unfold updateCurr
  split <;> rfl

/-- After a commit there is nothing in the open entry. -/
theorem commit_open_empty {info : Info} (h : Wf info) (latency : UInt64)
    (hpid : (recordTaskCommit info latency).2.pid ≠ invalidPid) :
    (recordTaskCommit info latency).2.openEntry.nrTasks = 0 := by
  unfold recordTaskCommit at hpid ⊢
  dsimp only at hpid ⊢
  split at hpid
  · next hzero => rw [if_pos hzero]; exact hzero
  · next hne =>
      rw [if_neg hne]
      split at hpid
      · next hlong =>
          rw [if_pos hlong]
          unfold keepTrace at hpid ⊢
          dsimp only at hpid ⊢
          split at hpid
          · exact absurd rfl hpid
          · next hroom =>
              rw [if_neg hroom]
              exact h.layout.fresh_update _ _ (Nat.lt_succ_self _) (Nat.not_le.mp hroom)
      · next hshort =>
          rw [if_neg hshort]
          show (Function.update info.traceEntries info.nrTrace _ info.nrTrace).nrTasks = 0
          rw [Function.update_self]

/-! ## Steps -/

/-- The traced task is the one that leaves the CPU it runs on, and is not migrated while it is
queued. -/
def Undisturbed (info : Info) (s : Sched) : Event → Prop
  | .schedSwitch e =>
      info.pid ≠ invalidPid → s.task info.pid = .running e.cpu → e.prev.pid = info.pid
  | .migrate e => Traced info e.p.pid → s.task e.p.pid = .sleeping
  | _ => True

instance (info : Info) (s : Sched) : ∀ e : Event, Decidable (Undisturbed info s e)
  | .schedSwitch _ => inferInstanceAs (Decidable (_ → _ → _))
  | .migrate _ => inferInstanceAs (Decidable (_ → _))
  | .wakeup _ => inferInstanceAs (Decidable True)
  | .tracePid _ => inferInstanceAs (Decidable True)
  | .threshold _ => inferInstanceAs (Decidable True)

/-- With room for one more entry, the open entry then holds the time up to `now`. -/
theorem recordSince_of_room {info : Info} (hwf : Wf info) (hpid : info.pid ≠ invalidPid)
    (hrun : info.runStart ≠ 0) (hsum : openSum info = info.runStart - info.rqStart)
    (hroom : info.nrTask + 1 < maxTraceEntryTasks) (p : TaskStruct) (now : UInt64) :
    openSum (recordSince info p now).1 = now - info.rqStart ∧
      SameControl info (recordSince info p now).1 ∧
      (recordSince info p now).2.filterMap Call.limited? = [] := by
  have hn := (hwf.strict hpid).1
  rw [recordSince_of_ne hrun, recordTask_of_lt hroom]
  refine ⟨?_, ⟨rfl, rfl, rfl, rfl, rfl⟩, ?_⟩
  · rw [openSum_appendTask hwf hn, hsum]
    grind
  · simp [Call.limited?, hroom]

/-- Without it, the tracer is disabled and the open entry is marked. -/
theorem recordSince_of_full {info : Info} (hrun : info.runStart ≠ 0)
    (hfull : info.nrTask + 1 = maxTraceEntryTasks) (p : TaskStruct) (now : UInt64) :
    (recordSince info p now).1.pid = invalidPid ∧
      (recordSince info p now).2.filterMap Call.limited? = [info.nrTrace] := by
  rw [recordSince_of_ne hrun, recordTask_of_full hfull]
  exact ⟨rfl, by simp [Call.limited?, hfull]⟩

/-- What the steps preserve. -/
structure Balanced (w : Info × WaitHistory) : Prop where
  sound : Sound w.1
  placed : Placed w.1 w.2.sched
  conserved : Conserved w.1 w.2.limited
  opened : OpenOk w.1 w.2.sched

/-- The two parts of the invariant that are about run times, after a probe. -/
structure Balances (s : Sched) (limited : List Nat) (r : Info × List Call) : Prop where
  conserved : Conserved r.1 (limited ++ r.2.filterMap Call.limited?)
  opened : OpenOk r.1 s

theorem balances_none {info : Info} {s : Sched} {limited : List Nat}
    (hconserved : Conserved info limited) (hopen : OpenOk info s) :
    Balances s limited (info, []) :=
  ⟨hconserved.mono _, hopen⟩

section Switch

variable {info : Info} {h : WaitHistory} {e : Switch}

/-- A switch on the queue of the waiting task: either it takes the last task entry and disables
the tracer, or the open entry holds the time up to the switch. -/
theorem Balanced.charged (hb : Balanced (info, h)) (hpid : info.pid ≠ invalidPid)
    (hwatch : info.cpu ≠ invalidCpu) (hqueued : h.sched.task info.pid = .queued info.cpu) :
    Wf (chargePrev info e).1 ∧ Conserved (chargePrev info e).1 h.limited ∧
      (((chargePrev info e).1.pid = invalidPid ∧
          (chargePrev info e).2.filterMap Call.limited? = [info.nrTrace]) ∨
        (openSum (chargePrev info e).1 = e.now - info.rqStart ∧
          SameControl (updateCurr info e.next) (chargePrev info e).1 ∧
          (chargePrev info e).2.filterMap Call.limited? = [])) := by
  obtain ⟨_, _, hrun⟩ := hb.placed.waiting hpid hwatch hqueued
  have hsum : openSum info = info.runStart - info.rqStart := hb.opened.waiting hpid hwatch hqueued
  have ht : info.nrTask < maxTraceEntryTasks := (hb.sound.wf.strict hpid).2
  have hpid' : (updateCurr info e.next).pid ≠ invalidPid := by rwa [updateCurr_pid]
  have hrun' : (updateCurr info e.next).runStart ≠ 0 := by rwa [updateCurr_runStart]
  have hwf : Wf (updateCurr info e.next) := hb.sound.wf.updateCurr hpid e.next
  have hconserved : Conserved (updateCurr info e.next) h.limited :=
    hb.conserved.of_same (updateCurr_nrTrace _ _) (updateCurr_traceEntries _ _)
      (updateCurr_taskEntries _ _)
  unfold chargePrev
  refine ⟨?_, hconserved.recordSince hwf e.prev e.now, ?_⟩
  · rw [recordSince_of_ne hrun']
    exact hwf.recordTask hpid' _ _
  · by_cases hfull : info.nrTask + 1 = maxTraceEntryTasks
    · have hmark := recordSince_of_full hrun' (by rwa [updateCurr_nrTask]) e.prev e.now
      rw [updateCurr_nrTrace] at hmark
      exact .inl hmark
    · have hnow := recordSince_of_room hwf hpid' hrun'
        (by rw [openSum_updateCurr, updateCurr_runStart, updateCurr_rqStart]; exact hsum)
        (by rw [updateCurr_nrTask]; omega) e.prev e.now
      rw [updateCurr_rqStart] at hnow
      exact .inr hnow

/-- The wait ends: the open entry is committed with the sum of its run times as its latency. -/
theorem Balanced.switchIn (hb : Balanced (info, h)) (hok : Consistent info h.sched (.schedSwitch e))
    (hpid : info.pid ≠ invalidPid) (hcpu : info.cpu = e.cpu) (hnext : info.pid = e.next.pid)
    (hqueued : h.sched.task info.pid = .queued info.cpu) :
    Balances (h.sched.next (.schedSwitch e)) h.limited
      ((recordTaskCommit (chargePrev info e).1 (e.now - (chargePrev info e).1.rqStart)).2,
        (chargePrev info e).2 ++
          [.recordTaskCommit (chargePrev info e).1 (e.now - (chargePrev info e).1.rqStart)]) := by
  have hwatch : info.cpu ≠ invalidCpu := hcpu ▸ hok.2.1
  obtain ⟨hwf, hconserved, hcases⟩ := hb.charged (e := e) hpid hwatch hqueued
  have hn : (chargePrev info e).1.nrTrace < maxTraceEntries := by
    rw [chargePrev_nrTrace]
    exact (hb.sound.wf.strict hpid).1
  have hmarks : ∀ (c : Info) (l : UInt64),
      [Call.recordTaskCommit c l].filterMap Call.limited? = [] := fun _ _ => rfl
  have hcontrol := recordTaskCommit_control (chargePrev info e).1
    (e.now - (chargePrev info e).1.rqStart)
  rcases hcases with ⟨hoff, hmark⟩ | ⟨hnow, hsame, hmark⟩
  · -- the charge has turned the tracer off and marked the entry that is committed here
    refine ⟨?_, openOk_of_off ?_⟩
    · rw [List.filterMap_append, hmark, hmarks, List.append_nil]
      refine (hconserved.mono _).commit hwf hn fun hnot => absurd ?_ hnot
      rw [chargePrev_nrTrace]
      exact List.mem_append_right _ (List.mem_singleton_self _)
    · rcases hcontrol with hoff' | hctl
      · exact hoff'
      · exact hctl.pid.trans hoff
  · refine ⟨?_, ?_⟩
    · rw [List.filterMap_append, hmark, hmarks]
      refine (hconserved.mono _).commit hwf hn fun _ => ?_
      rw [hnow, hsame.rqStart, updateCurr_rqStart]
    · -- the task runs now, so the entry must be empty
      rcases hcontrol with hoff | hctl
      · exact openOk_of_off hoff
      · have hrunning : (h.sched.next (.schedSwitch e)).task info.pid = .running e.cpu := by
          rw [hnext]
          exact h.sched.next_task_in e
        have hpid' := (hctl.pid.trans hsame.pid).trans (updateCurr_pid info e.next)
        rw [← hpid'] at hrunning
        exact openOk_of_running hrunning (commit_open_empty hwf _)

/-- Two other tasks change places while the traced one waits. -/
theorem Balanced.other (hb : Balanced (info, h)) (hok : Consistent info h.sched (.schedSwitch e))
    (hpid : info.pid ≠ invalidPid) (hcpu : info.cpu = e.cpu) (hnext : info.pid ≠ e.next.pid)
    (hprev : info.pid ≠ e.prev.pid) (hqueued : h.sched.task info.pid = .queued info.cpu) :
    Balances (h.sched.next (.schedSwitch e)) h.limited
      ({ (chargePrev info e).1 with runStart := e.now }, (chargePrev info e).2) := by
  have hwatch : info.cpu ≠ invalidCpu := hcpu ▸ hok.2.1
  obtain ⟨_, hconserved, hcases⟩ := hb.charged (e := e) hpid hwatch hqueued
  refine ⟨(hconserved.mono _).of_same rfl rfl rfl, ?_⟩
  rcases hcases with ⟨hoff, _⟩ | ⟨hnow, hsame, _⟩
  · exact openOk_of_off hoff
  · have hrq := hsame.rqStart.trans (updateCurr_rqStart info e.next)
    have hcpu' := hsame.cpu.trans (updateCurr_cpu info e.next)
    have hpid' := hsame.pid.trans (updateCurr_pid info e.next)
    refine ⟨fun _ _ _ => ?_, fun _ hidle => absurd ⟨?_, ?_⟩ hidle⟩
    · show openSum (chargePrev info e).1 = e.now - (chargePrev info e).1.rqStart
      rw [hnow, hrq]
    · show (chargePrev info e).1.cpu ≠ invalidCpu
      rwa [hcpu']
    · show (h.sched.next (.schedSwitch e)).task (chargePrev info e).1.pid
        = .queued (chargePrev info e).1.cpu
      rw [hpid', hcpu', Sched.next_task_other hnext hprev]
      exact hqueued

theorem Balanced.schedSwitch (hb : Balanced (info, h))
    (hok : Consistent info h.sched (.schedSwitch e))
    (hund : Undisturbed info h.sched (.schedSwitch e)) :
    Balances (h.sched.next (.schedSwitch e)) h.limited (probeSchedSwitch info e) := by
  have hpath := switchPath hb.placed hok
  have hempty : ∀ next : TaskStruct, info.openEntry.nrTasks = 0 →
      (updateCurr info next).openEntry.nrTasks = 0 := by
    intro next hzero
    rwa [updateCurr_openEntry]
  have hcurr : Conserved (updateCurr info e.next) h.limited :=
    hb.conserved.of_same (updateCurr_nrTrace _ _) (updateCurr_traceEntries _ _)
      (updateCurr_taskEntries _ _)
  generalize probeSchedSwitch info e = r at hpath
  cases hpath with
  | ignored hprev hcpu =>
      refine balances_none hb.conserved ?_
      rcases hcpu with hoff | hunwatched | ⟨_, hprev, hnext⟩
      · exact openOk_of_off hoff
      · by_cases hpid : info.pid = invalidPid
        · exact openOk_of_off hpid
        · exact openOk_of_unwatched hunwatched (hb.opened.unwatched hpid hunwatched)
      · have htask := Sched.next_task_other (s := h.sched) hnext hprev
        refine ⟨?_, ?_⟩
        · rw [htask]; exact hb.opened.waiting
        · rw [htask]; exact hb.opened.idle
  | begin hpid hcpu hprev hstate =>
      refine balances_none (hb.conserved.of_same ?_ ?_ ?_) (openOk_of_empty ?_ ?_)
      · exact updateCurr_nrTrace _ _
      · exact updateCurr_traceEntries _ _
      · exact updateCurr_taskEntries _ _
      · rw [updateCurr_openEntry]
        exact hb.opened.unwatched hpid hcpu
      · rw [updateCurr_runStart, updateCurr_rqStart]
  | switchIn hpid hcpu hnext hqueued => exact hb.switchIn hok hpid hcpu hnext hqueued
  | preempt hpid hcpu hprev hstate hrunning =>
      refine balances_none (hcurr.of_same rfl rfl rfl) (openOk_of_empty ?_ rfl)
      exact hempty e.next (hb.opened.running hpid hrunning)
  | sleep hpid hcpu hprev hstate =>
      refine balances_none (hcurr.of_same rfl rfl rfl) (openOk_of_unwatched rfl ?_)
      have hrunning := (hok.2.2.2 ⟨hpid, hprev.symm⟩).1
      rw [← hprev] at hrunning
      exact hempty e.next (hb.opened.running hpid hrunning)
  | other hpid hcpu hnext hprev =>
      -- if the traced task ran here, it would be the one to leave
      have hqueued : h.sched.task info.pid = .queued info.cpu := by
        rcases hb.placed.place hpid (hcpu ▸ hok.2.1) with hq | hr
        · exact hq
        · have hr' : h.sched.task info.pid = .running e.cpu := by
            rw [← hcpu]
            exact hr
          exact absurd (hund hpid hr').symm hprev
      exact hb.other hok hpid hcpu hnext hprev hqueued

end Switch

theorem Balanced.wakeup {info : Info} {h : WaitHistory} {e : Wakeup} (hb : Balanced (info, h))
    (hok : Consistent info h.sched (.wakeup e)) :
    Balances (h.sched.next (.wakeup e)) h.limited (probeSchedWakeup info e, []) := by
  unfold probeSchedWakeup
  by_cases hp : e.p.pid = info.pid
  · rw [if_neg (not_not.mpr hp)]
    refine balances_none (hb.conserved.of_same rfl rfl rfl) ?_
    by_cases hpid : info.pid = invalidPid
    · exact openOk_of_off hpid
    · -- a sleeping task is not watched
      refine openOk_of_empty (hb.opened.idle hpid fun hand => ?_) rfl
      have hsleeping := (hok.2 ⟨hpid, hp⟩).1
      rw [hp, hand.2] at hsleeping
      exact absurd hsleeping (by simp)
  · rw [if_pos hp]
    have htask : (h.sched.next (.wakeup e)).task info.pid = h.sched.task info.pid :=
      Function.update_of_ne (Ne.symm hp) _ _
    refine balances_none hb.conserved ⟨?_, ?_⟩
    · rw [htask]; exact hb.opened.waiting
    · rw [htask]; exact hb.opened.idle

theorem Balanced.migrate {info : Info} {h : WaitHistory} {e : Migrate} (hb : Balanced (info, h))
    (hund : Undisturbed info h.sched (.migrate e)) :
    Balances (h.sched.next (.migrate e)) h.limited (probeSchedMigrateTask info e) := by
  by_cases hp : e.p.pid = info.pid
  · by_cases hpid : info.pid = invalidPid
    · -- no pid is traced: there is no `curr`, and nothing is recorded
      have hcurr := hb.sound.wf.no_curr hpid
      unfold probeSchedMigrateTask
      split
      · exact balances_none hb.conserved (openOk_of_off hpid)
      · rw [hcurr]
        exact balances_none (hb.conserved.of_same rfl rfl rfl) (openOk_of_off hpid)
    · have hsleeping := hund ⟨hpid, hp⟩
      rw [hp] at hsleeping
      have hunwatched : info.cpu = invalidCpu := by
        by_contra hwatch
        rcases hb.placed.place hpid hwatch with hq | hr
        · exact absurd (hsleeping.symm.trans hq) (by simp)
        · exact absurd (hsleeping.symm.trans hr) (by simp)
      rw [migrate_ignored (.inr hunwatched)]
      exact balances_none hb.conserved
        (openOk_of_unwatched hunwatched (hb.opened.unwatched hpid hunwatched))
  · rw [migrate_ignored (.inl hp)]
    have htask : (h.sched.next (.migrate e)).task info.pid = h.sched.task info.pid :=
      Function.update_of_ne (Ne.symm hp) _ _
    refine balances_none hb.conserved ⟨?_, ?_⟩
    · rw [htask]; exact hb.opened.waiting
    · rw [htask]; exact hb.opened.idle

/-- A session starts and stops with nothing in the open entry that could be committed. -/
theorem Balanced.tracePid {info : Info} {h : WaitHistory} (hb : Balanced (info, h))
    (pid : Option Int) :
    Conserved (tracePidStore info pid).2 (h.next info (.tracePid pid)).limited ∧
      OpenOk (tracePidStore info pid).2 h.sched := by
  have hlimited : (h.next info (.tracePid pid)).limited
      = if startsSession info (.tracePid pid) then [] else h.limited := by
    simp [WaitHistory.next, calls, handle]
  rw [hlimited]
  rcases tracePid_cases info pid with ⟨hsame, hno⟩ | ⟨hstop, hno⟩ | ⟨_, _, hstart, hyes⟩
  · rw [hsame, hno]
    exact ⟨hb.conserved, hb.opened⟩
  · rw [hstop, hno]
    exact ⟨hb.conserved.of_same rfl rfl rfl, openOk_of_off rfl⟩
  · rw [hstart, hyes]
    exact ⟨fun i hi => absurd hi (Nat.not_lt_zero i), openOk_of_unwatched rfl rfl⟩

/-- The tracer with the history of the waits. -/
def waitStep : Info × WaitHistory → Event → Info × WaitHistory :=
  observe step WaitHistory.next

/-- **What one step preserves.** -/
theorem Balanced.step {w : Info × WaitHistory} {e : Event} (hb : Balanced w)
    (hok : Consistent w.1 w.2.sched e) (hund : Undisturbed w.1 w.2.sched e) :
    Balanced (waitStep w e) := by
  obtain ⟨info, h⟩ := w
  have hsound := hb.sound.step e
  have hplaced := hb.placed.step hok
  cases e with
  | wakeup e =>
      have hr := hb.wakeup hok
      exact ⟨hsound, hplaced, hr.conserved, hr.opened⟩
  | schedSwitch e =>
      have hr := hb.schedSwitch hok hund
      exact ⟨hsound, hplaced, hr.conserved, hr.opened⟩
  | migrate e =>
      have hr := hb.migrate hund
      exact ⟨hsound, hplaced, hr.conserved, hr.opened⟩
  | tracePid pid => exact ⟨hsound, hplaced, (hb.tracePid pid).1, (hb.tracePid pid).2⟩
  | threshold threshold =>
      cases threshold with
      | none =>
          have hr := balances_none hb.conserved hb.opened
          exact ⟨hsound, hplaced, hr.conserved, hr.opened⟩
      | some _ =>
          refine ⟨hsound, hplaced, ?_, ⟨hb.opened.waiting, hb.opened.idle⟩⟩
          exact (hb.conserved.mono _).of_same rfl rfl rfl

theorem balanced_init (s : Sched) : Balanced (Info.init, ⟨s, []⟩) where
  sound := sound_init
  placed := placed_of_unwatched (.inl rfl)
  conserved := fun i hi => absurd hi (Nat.not_lt_zero i)
  opened := openOk_of_off rfl

/-- **Waiting time is conserved.** In every consistent run in which the traced task is not
migrated while it is queued, the run times of a committed entry add up to its latency, unless
the switch that committed it took the last task entry. -/
theorem waiting_time_conserved (s : Sched) (es : List Event)
    (hok : Steps waitStep (fun w e => Consistent w.1 w.2.sched e ∧ Undisturbed w.1 w.2.sched e)
      (Info.init, ⟨s, []⟩) es) :
    let w := run waitStep (Info.init, ⟨s, []⟩) es
    ∀ i < w.1.nrTrace, i ∉ w.2.limited →
      entrySum w.1 i = (w.1.traceEntries i).latency := by
  have hb : Balanced (run waitStep (Info.init, ⟨s, []⟩) es) :=
    inv_run (fun _ _ h hc => Balanced.step h hc.1 hc.2) (balanced_init s) hok
  exact hb.conserved

/-- Two waits of pid 7: the first ends after two turns, the second begins with a preemption. -/
def twoWaits : List Event :=
  turns 2 ++ [turnIn 2, .schedSwitch ⟨9, 0, runnable 7, runnable 1⟩,
    .schedSwitch ⟨14, 0, runnable 1, runnable 7⟩]

theorem waiting_time_conserved_twoWaits :
    let w := run waitStep (Info.init, ⟨twoBusy, []⟩) twoWaits
    w.1.nrTrace = 2 ∧ w.2.limited = [] ∧
      entrySum w.1 0 = (w.1.traceEntries 0).latency ∧
      entrySum w.1 1 = (w.1.traceEntries 1).latency := by
  have hok : Steps waitStep
      (fun w e => Consistent w.1 w.2.sched e ∧ Undisturbed w.1 w.2.sched e)
      (Info.init, ⟨twoBusy, []⟩) twoWaits := by decide +kernel
  have hlaw := waiting_time_conserved twoBusy twoWaits hok
  exact ⟨by decide +kernel, by decide +kernel, hlaw 0 (by decide +kernel) (by decide +kernel),
    hlaw 1 (by decide +kernel) (by decide +kernel)⟩

end UioLinuxSample.Runqlat
