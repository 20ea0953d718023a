import UioLinuxSample.Runqlat.Layout

set_option autoImplicit false

/-! # The scheduler behind the tracepoints

The probes see tracepoints; what they mean is a fact about the scheduler. The history variable
`Sched` follows every task by its pid: where it is, and when it was last enqueued. A run is
consistent (`Consistent`) if the events of the traced task fit its state: it is woken when it
sleeps, switched in where it is queued, switched out where it runs, and not migrated while it
runs. Nothing is asked of other tasks.

In a consistent run the tracer knows where the traced task is (`Placed`), and a switch takes one
of a few paths (`SwitchPath`). The properties of the latencies and of the recorded run times are
proved over these paths.
-/

namespace UioLinuxSample.Runqlat

open Run

/-! ## The history -/

/-- Where a task is. -/
inductive TaskState where
  | sleeping
  | queued (cpu : Int)
  | running (cpu : Int)
  deriving DecidableEq

/-- The state of a task that `sched_migrate_task` moves. -/
def TaskState.moved (cpu : Int) : TaskState → TaskState
  | .queued _ => .queued cpu
  | t => t

def TaskState.isRunning : TaskState → Bool
  | .running _ => true
  | _ => false

/-- The scheduler as the events have left it. -/
structure Sched where
  clock : UInt64
  task : Int → TaskState
  /-- The time of the last wakeup, or of the last switch that preempted the task. -/
  enqueued : Int → UInt64

/-- The state in which a switch leaves the task that gives up the CPU. -/
def Switch.left (e : Switch) : TaskState :=
  if e.prev.state = taskRunning then .queued e.cpu else .sleeping

def Sched.next (s : Sched) : Event → Sched
  | .wakeup e =>
      { clock := e.now
        task := Function.update s.task e.p.pid (.queued e.p.cpu)
        enqueued := Function.update s.enqueued e.p.pid e.now }
  | .schedSwitch e =>
      { clock := e.now
        task := Function.update (Function.update s.task e.prev.pid e.left) e.next.pid
          (.running e.cpu)
        enqueued :=
          if e.prev.state = taskRunning then Function.update s.enqueued e.prev.pid e.now
          else s.enqueued }
  | .migrate e =>
      { s with
        clock := e.now
        task := Function.update s.task e.p.pid ((s.task e.p.pid).moved e.cpu) }
  | _ => s

/-- `pid` is the pid that is traced. -/
def Traced (info : Info) (pid : Int) : Prop := info.pid ≠ invalidPid ∧ pid = info.pid

instance (info : Info) (pid : Int) : Decidable (Traced info pid) :=
  inferInstanceAs (Decidable (_ ∧ _))

/-- The event fits the state of the traced task, and the clock is positive. -/
def Consistent (info : Info) (s : Sched) : Event → Prop
  | .wakeup e =>
      e.now ≠ 0 ∧ (Traced info e.p.pid → s.task e.p.pid = .sleeping ∧ e.p.cpu ≠ invalidCpu)
  | .schedSwitch e =>
      e.now ≠ 0 ∧ e.cpu ≠ invalidCpu ∧
        (Traced info e.next.pid → s.task e.next.pid = .queued e.cpu) ∧
        (Traced info e.prev.pid → s.task e.prev.pid = .running e.cpu ∧ e.prev.cpu = e.cpu)
  | .migrate e =>
      e.now ≠ 0 ∧ e.cpu ≠ invalidCpu ∧
        (Traced info e.p.pid → (s.task e.p.pid).isRunning = false)
  | _ => True

instance (info : Info) (s : Sched) : ∀ e : Event, Decidable (Consistent info s e)
  | .wakeup _ => inferInstanceAs (Decidable (_ ∧ (_ → _)))
  | .schedSwitch _ => inferInstanceAs (Decidable (_ ∧ _ ∧ (_ → _) ∧ (_ → _)))
  | .migrate _ => inferInstanceAs (Decidable (_ ∧ _ ∧ (_ → _)))
  | .tracePid _ => inferInstanceAs (Decidable True)
  | .threshold _ => inferInstanceAs (Decidable True)

/-- The clock does not go back. -/
def ClockForward (s : Sched) : Event → Prop
  | .wakeup e => s.clock ≤ e.now
  | .schedSwitch e => s.clock ≤ e.now
  | .migrate e => s.clock ≤ e.now
  | _ => True

instance (s : Sched) : ∀ e : Event, Decidable (ClockForward s e)
  | .wakeup _ => inferInstanceAs (Decidable (_ ≤ _))
  | .schedSwitch _ => inferInstanceAs (Decidable (_ ≤ _))
  | .migrate _ => inferInstanceAs (Decidable (_ ≤ _))
  | .tracePid _ => inferInstanceAs (Decidable True)
  | .threshold _ => inferInstanceAs (Decidable True)

section History

variable {s : Sched} {e : Switch} {pid : Int}

theorem Sched.next_task_in (s : Sched) (e : Switch) :
    (s.next (.schedSwitch e)).task e.next.pid = .running e.cpu :=
  Function.update_self _ _ _

theorem Sched.next_task_out (h : e.prev.pid ≠ e.next.pid) :
    (s.next (.schedSwitch e)).task e.prev.pid = e.left := by
  show Function.update (Function.update s.task e.prev.pid e.left) e.next.pid _ e.prev.pid = _
  rw [Function.update_of_ne h, Function.update_self]

theorem Sched.next_task_other (hn : pid ≠ e.next.pid) (hp : pid ≠ e.prev.pid) :
    (s.next (.schedSwitch e)).task pid = s.task pid := by
  show Function.update (Function.update s.task e.prev.pid e.left) e.next.pid _ pid = _
  rw [Function.update_of_ne hn, Function.update_of_ne hp]

/-- A switch enqueues no task but the one it preempts. -/
theorem Sched.next_enqueued_other (hp : pid ≠ e.prev.pid) :
    (s.next (.schedSwitch e)).enqueued pid = s.enqueued pid := by
  show (if e.prev.state = taskRunning then Function.update s.enqueued e.prev.pid e.now
    else s.enqueued) pid = _
  split
  · rw [Function.update_of_ne hp]
  · rfl

theorem Sched.next_enqueued_out (h : e.prev.state = taskRunning) :
    (s.next (.schedSwitch e)).enqueued e.prev.pid = e.now := by
  show (if e.prev.state = taskRunning then Function.update s.enqueued e.prev.pid e.now
    else s.enqueued) e.prev.pid = _
  rw [if_pos h, Function.update_self]

end History

/-! ## Where the tracer believes the task to be -/

/-- While it watches a CPU, the tracer has the right one; and while the task waits, `rq_start`
is the time it was enqueued at. -/
structure Placed (info : Info) (s : Sched) : Prop where
  place : info.pid ≠ invalidPid → info.cpu ≠ invalidCpu →
    s.task info.pid = .queued info.cpu ∨ s.task info.pid = .running info.cpu
  waiting : info.pid ≠ invalidPid → info.cpu ≠ invalidCpu → s.task info.pid = .queued info.cpu →
    info.rqStart = s.enqueued info.pid ∧ info.rqStart ≠ 0 ∧ info.runStart ≠ 0

/-- Nothing is claimed of a tracer that watches no CPU. -/
theorem placed_of_unwatched {info : Info} {s : Sched}
    (h : info.pid = invalidPid ∨ info.cpu = invalidCpu) : Placed info s where
  place := fun hp hc => absurd h (not_or.mpr ⟨hp, hc⟩)
  waiting := fun hp hc => absurd h (not_or.mpr ⟨hp, hc⟩)

/-- What a switch on the watched CPU charges to the task that leaves it. -/
def chargePrev (info : Info) (e : Switch) : Info × List Call :=
  recordSince (updateCurr info e.next) e.prev e.now

/-- The paths of `probe_sched_switch` in a consistent run, with what each of them leaves. -/
inductive SwitchPath (info : Info) (s : Sched) (e : Switch) : Info × List Call → Prop
  /-- The switch is of no concern: no pid is traced, or another CPU is watched, or none is and
  the traced task is not preempted. -/
  | ignored (hprev : info.pid ≠ invalidPid → info.pid = e.prev.pid → e.left = .sleeping)
      (hcpu : info.pid = invalidPid ∨ info.cpu = invalidCpu ∨
        (info.cpu ≠ e.cpu ∧ info.pid ≠ e.prev.pid ∧ info.pid ≠ e.next.pid)) :
      SwitchPath info s e (info, [])
  /-- The traced task is preempted and the tracer begins to watch. -/
  | begin (hpid : info.pid ≠ invalidPid) (hcpu : info.cpu = invalidCpu)
      (hprev : info.pid = e.prev.pid) (hstate : e.prev.state = taskRunning) :
      SwitchPath info s e
        (updateCurr { info with rqStart := e.now, runStart := e.now, cpu := e.cpu } e.next, [])
  | switchIn (hpid : info.pid ≠ invalidPid) (hcpu : info.cpu = e.cpu)
      (hnext : info.pid = e.next.pid) (hqueued : s.task info.pid = .queued info.cpu) :
      SwitchPath info s e
        ((recordTaskCommit (chargePrev info e).1
            (e.now - (chargePrev info e).1.rqStart)).2,
          (chargePrev info e).2 ++
            [.recordTaskCommit (chargePrev info e).1
              (e.now - (chargePrev info e).1.rqStart)])
  | preempt (hpid : info.pid ≠ invalidPid) (hcpu : info.cpu = e.cpu)
      (hprev : info.pid = e.prev.pid) (hstate : e.prev.state = taskRunning)
      (hrunning : s.task info.pid = .running info.cpu) :
      SwitchPath info s e
        ({ updateCurr info e.next with rqStart := e.now, runStart := e.now }, [])
  | sleep (hpid : info.pid ≠ invalidPid) (hcpu : info.cpu = e.cpu)
      (hprev : info.pid = e.prev.pid) (hstate : e.prev.state ≠ taskRunning) :
      SwitchPath info s e (runqlatInfoReset (updateCurr info e.next), [])
  /-- Two other tasks change places on the watched CPU. -/
  | other (hpid : info.pid ≠ invalidPid) (hcpu : info.cpu = e.cpu)
      (hnext : info.pid ≠ e.next.pid) (hprev : info.pid ≠ e.prev.pid) :
      SwitchPath info s e
        ({ (chargePrev info e).1 with runStart := e.now },
          (chargePrev info e).2)

@[simp] theorem updateCurr_cpu (info : Info) (next : TaskStruct) :
    (updateCurr info next).cpu = info.cpu := by
  unfold updateCurr
  split <;> rfl

@[simp] theorem updateCurr_rqStart (info : Info) (next : TaskStruct) :
    (updateCurr info next).rqStart = info.rqStart := by
  unfold updateCurr
  split <;> rfl

@[simp] theorem updateCurr_runStart (info : Info) (next : TaskStruct) :
    (updateCurr info next).runStart = info.runStart := by
  unfold updateCurr
  split <;> rfl

@[simp] theorem updateCurr_nrTask (info : Info) (next : TaskStruct) :
    (updateCurr info next).nrTask = info.nrTask := by
  unfold updateCurr
  split <;> rfl

@[simp] theorem updateCurr_traceEntries (info : Info) (next : TaskStruct) :
    (updateCurr info next).traceEntries = info.traceEntries := by
  unfold updateCurr
  split <;> rfl

theorem recordSince_of_ne {info : Info} (h : info.runStart ≠ 0) (p : TaskStruct) (now : UInt64) :
    recordSince info p now
      = (recordTask info p (now - info.runStart), [.recordTask info p (now - info.runStart)]) :=
  if_pos h

theorem recordTask_of_lt {info : Info} (h : info.nrTask + 1 < maxTraceEntryTasks)
    (p : TaskStruct) (runtime : UInt64) :
    recordTask info p runtime = appendTask info p runtime :=
  if_neg (Nat.not_le.mpr h)

theorem recordTask_of_full {info : Info} (h : info.nrTask + 1 = maxTraceEntryTasks)
    (p : TaskStruct) (runtime : UInt64) :
    recordTask info p runtime = forceDisable (appendTask info p runtime) :=
  if_pos (Nat.le_of_eq h.symm)

/-- Two places of one task are the same CPU. -/
theorem Placed.cpu_eq {info : Info} {s : Sched} (h : Placed info s)
    (hpid : info.pid ≠ invalidPid) (hwatch : info.cpu ≠ invalidCpu) {cpu : Int}
    (hat : s.task info.pid = .queued cpu ∨ s.task info.pid = .running cpu) : info.cpu = cpu := by
  rcases h.place hpid hwatch with hq | hr
  · rw [hq] at hat
    simpa using hat
  · rw [hr] at hat
    simpa using hat

/-- The probe on the watched CPU. -/
theorem switchPath_watched {info : Info} {s : Sched} {e : Switch}
    (hok : Consistent info s (.schedSwitch e)) (hpid : info.pid ≠ invalidPid)
    (hcpu : info.cpu = e.cpu) : SwitchPath info s e (watchedSwitch info e) := by
  obtain ⟨_, _, hin, hout⟩ := hok
  have hsame : (updateCurr info e.next).pid = info.pid := updateCurr_pid info e.next
  unfold watchedSwitch
  dsimp only
  by_cases hnext : info.pid = e.next.pid
  · rw [if_pos (hsame.trans hnext)]
    refine .switchIn hpid hcpu hnext ?_
    rw [hnext, hcpu]
    exact hin ⟨hpid, hnext.symm⟩
  · rw [if_neg (hsame ▸ hnext)]
    by_cases hprev : info.pid = e.prev.pid
    · rw [if_pos (hsame.trans hprev)]
      by_cases hstate : e.prev.state = taskRunning
      · rw [if_pos hstate]
        refine .preempt hpid hcpu hprev hstate ?_
        rw [hprev, hcpu]
        exact (hout ⟨hpid, hprev.symm⟩).1
      · rw [if_neg hstate]
        exact .sleep hpid hcpu hprev hstate
    · rw [if_neg (hsame ▸ hprev)]
      exact .other hpid hcpu hnext hprev

/-- **A switch in a consistent run takes one of the paths.** -/
theorem switchPath {info : Info} {s : Sched} {e : Switch} (h : Placed info s)
    (hok : Consistent info s (.schedSwitch e)) :
    SwitchPath info s e (probeSchedSwitch info e) := by
  obtain ⟨_, hvalid, hin, hout⟩ := id hok
  unfold probeSchedSwitch
  by_cases hpid : info.pid = invalidPid
  · rw [if_pos hpid]
    exact .ignored (fun hne => absurd hpid hne) (.inl hpid)
  rw [if_neg hpid]
  by_cases hunwatched : info.cpu = invalidCpu
  · -- unwatched: only the preemption of the traced task itself starts a wait
    rw [if_neg (fun hand => hand.1 hunwatched), if_pos hunwatched]
    by_cases hstart : info.pid = e.prev.pid ∧ e.prev.state = taskRunning
    · obtain ⟨hprev, hstate⟩ := hstart
      rw [if_neg (by simp [hprev, hstate]), (hout ⟨hpid, hprev.symm⟩).2]
      exact .begin hpid hunwatched hprev hstate
    · rw [if_pos (by rwa [not_and_or] at hstart)]
      refine .ignored (fun _ hprev => ?_) (.inr (.inl hunwatched))
      exact if_neg fun hstate => hstart ⟨hprev, hstate⟩
  · by_cases hcpu : info.cpu = e.cpu
    · rw [if_neg (fun hand => hand.2 hcpu), if_neg hunwatched]
      exact switchPath_watched hok hpid hcpu
    · -- the task is on the watched CPU, so a switch elsewhere cannot be about it
      have hprev : info.pid ≠ e.prev.pid := fun heq =>
        hcpu (h.cpu_eq hpid hunwatched (.inr (heq ▸ (hout ⟨hpid, heq.symm⟩).1)))
      have hnext : info.pid ≠ e.next.pid := fun heq =>
        hcpu (h.cpu_eq hpid hunwatched (.inl (heq ▸ hin ⟨hpid, heq.symm⟩)))
      rw [if_pos ⟨hunwatched, hcpu⟩]
      exact .ignored (fun _ heq => absurd heq hprev) (.inr (.inr ⟨hcpu, hprev, hnext⟩))

/-! ## The tracer keeps its place -/

/-- The fields the probes steer by are unchanged. -/
structure SameControl (info info' : Info) : Prop where
  pid : info'.pid = info.pid
  cpu : info'.cpu = info.cpu
  rqStart : info'.rqStart = info.rqStart
  runStart : info'.runStart = info.runStart
  curr : info'.curr = info.curr

/-- `record_task` either disables the tracer or leaves its control fields alone. -/
theorem recordTask_control (info : Info) (p : TaskStruct) (runtime : UInt64) :
    (recordTask info p runtime).pid = invalidPid ∨
      SameControl info (recordTask info p runtime) := by
  unfold recordTask
  dsimp only
  split
  · exact .inl rfl
  · exact .inr ⟨rfl, rfl, rfl, rfl, rfl⟩

theorem recordSince_control (info : Info) (p : TaskStruct) (now : UInt64) :
    (recordSince info p now).1.pid = invalidPid ∨
      SameControl info (recordSince info p now).1 := by
  unfold recordSince
  split
  · exact recordTask_control _ _ _
  · exact .inr ⟨rfl, rfl, rfl, rfl, rfl⟩

theorem chargePrev_control (info : Info) (e : Switch) :
    (chargePrev info e).1.pid = invalidPid ∨
      SameControl (updateCurr info e.next) (chargePrev info e).1 :=
  recordSince_control _ _ _

@[simp] theorem chargePrev_nrTrace (info : Info) (e : Switch) :
    (chargePrev info e).1.nrTrace = info.nrTrace :=
  (recordSince_nrTrace _ _ _).trans (updateCurr_nrTrace _ _)

theorem recordTaskCommit_control (info : Info) (latency : UInt64) :
    (recordTaskCommit info latency).2.pid = invalidPid ∨
      SameControl info (recordTaskCommit info latency).2 := by
  unfold recordTaskCommit keepTrace
  dsimp only
  split
  · exact .inr ⟨rfl, rfl, rfl, rfl, rfl⟩
  · split
    · split
      · exact .inl rfl
      · exact .inr ⟨rfl, rfl, rfl, rfl, rfl⟩
    · exact .inr ⟨rfl, rfl, rfl, rfl, rfl⟩

theorem placed_of_running {info : Info} {s : Sched}
    (h : s.task info.pid = .running info.cpu) : Placed info s where
  place := fun _ _ => .inr h
  waiting := by
    intro _ _ hq
    rw [h] at hq
    exact absurd hq (by simp)

theorem placed_of_queued {info : Info} {s : Sched} (h : s.task info.pid = .queued info.cpu)
    (hrq : info.rqStart = s.enqueued info.pid) (hpos : info.rqStart ≠ 0)
    (hrun : info.runStart ≠ 0) : Placed info s where
  place := fun _ _ => .inl h
  waiting := fun _ _ _ => ⟨hrq, hpos, hrun⟩

/-- The traced task is not switched out and in at once. -/
theorem Consistent.prev_ne_next {info : Info} {s : Sched} {e : Switch}
    (hok : Consistent info s (.schedSwitch e)) (hpid : info.pid ≠ invalidPid)
    (hprev : info.pid = e.prev.pid) : e.prev.pid ≠ e.next.pid := by
  intro heq
  obtain ⟨_, _, hin, hout⟩ := hok
  have hq := hin ⟨hpid, by rw [hprev, heq]⟩
  have hr := (hout ⟨hpid, hprev.symm⟩).1
  rw [heq, hq] at hr
  exact absurd hr (by simp)

/-- The traced task is preempted and both of its times are set. -/
theorem placed_of_preempted {info info' : Info} {s : Sched} {e : Switch}
    (hok : Consistent info s (.schedSwitch e)) (hpid : info.pid ≠ invalidPid)
    (hprev : info.pid = e.prev.pid) (hstate : e.prev.state = taskRunning)
    (hsame : info'.pid = info.pid) (hcpu : info'.cpu = e.cpu) (hrq : info'.rqStart = e.now)
    (hrun : info'.runStart = e.now) : Placed info' (s.next (.schedSwitch e)) := by
  refine placed_of_queued ?_ ?_ ?_ ?_
  · rw [hsame, hprev, hcpu, Sched.next_task_out (hok.prev_ne_next hpid hprev)]
    exact if_pos hstate
  · rw [hsame, hprev, hrq, Sched.next_enqueued_out hstate]
  · rw [hrq]; exact hok.1
  · rw [hrun]; exact hok.1

theorem Placed.schedSwitch {info : Info} {s : Sched} {e : Switch} (h : Placed info s)
    (hok : Consistent info s (.schedSwitch e)) :
    Placed (probeSchedSwitch info e).1 (s.next (.schedSwitch e)) := by
  have hpath := switchPath h hok
  generalize probeSchedSwitch info e = r at hpath
  cases hpath with
  | ignored hprev hcpu =>
      rcases hcpu with hpid | hunwatched | ⟨_, hprev, hnext⟩
      · exact placed_of_unwatched (.inl hpid)
      · exact placed_of_unwatched (.inr hunwatched)
      · have htask := Sched.next_task_other (s := s) hnext hprev
        refine ⟨?_, ?_⟩
        · rw [htask]
          exact h.place
        · rw [htask, Sched.next_enqueued_other hprev]
          exact h.waiting
  | begin hpid hcpu hprev hstate =>
      exact placed_of_preempted hok hpid hprev hstate (by simp) (by simp) (by simp) (by simp)
  | switchIn hpid hcpu hnext hqueued =>
      -- the charge or the commit may turn the tracer off; otherwise the task runs here now
      rcases recordTaskCommit_control (chargePrev info e).1
          (e.now - (chargePrev info e).1.rqStart) with hoff | hcommit
      · exact placed_of_unwatched (.inl hoff)
      · rcases chargePrev_control info e with hoff | hrec
        · exact placed_of_unwatched (.inl (hcommit.pid.trans hoff))
        · refine placed_of_running ?_
          rw [hcommit.pid, hrec.pid, updateCurr_pid, hcommit.cpu, hrec.cpu, updateCurr_cpu, hnext,
            hcpu]
          exact s.next_task_in e
  | preempt hpid hcpu hprev hstate hrunning =>
      exact placed_of_preempted hok hpid hprev hstate (updateCurr_pid info e.next)
        ((updateCurr_cpu info e.next).trans hcpu) rfl rfl
  | sleep hpid hcpu hprev hstate => exact placed_of_unwatched (.inr rfl)
  | other hpid hcpu hnext hprev =>
      rcases chargePrev_control info e with hoff | hrec
      · exact placed_of_unwatched (.inl hoff)
      · have htask := Sched.next_task_other (s := s) hnext hprev
        have hpid' := hrec.pid.trans (updateCurr_pid info e.next)
        have hcpu' := hrec.cpu.trans (updateCurr_cpu info e.next)
        have hrq' := hrec.rqStart.trans (updateCurr_rqStart info e.next)
        refine ⟨?_, ?_⟩
        · show _ → _ → (s.next (.schedSwitch e)).task _ = .queued _ ∨ _ = TaskState.running _
          dsimp only
          rw [hpid', hcpu', htask]
          exact h.place
        · dsimp only
          rw [hpid', hcpu', hrq', htask, Sched.next_enqueued_other hprev]
          -- the wait goes on from the same start; only `run_start` has moved, to this switch
          intro _ hwatch hq
          obtain ⟨hrq, hpos, _⟩ := h.waiting hpid hwatch hq
          exact ⟨hrq, hpos, hok.1⟩

theorem Placed.wakeup {info : Info} {s : Sched} {e : Wakeup} (h : Placed info s)
    (hok : Consistent info s (.wakeup e)) :
    Placed (probeSchedWakeup info e) (s.next (.wakeup e)) := by
  unfold probeSchedWakeup
  by_cases hp : e.p.pid = info.pid
  · rw [if_neg (not_not.mpr hp)]
    have htask : (s.next (.wakeup e)).task info.pid = .queued e.p.cpu := by
      rw [← hp]
      exact Function.update_self _ _ _
    have henq : (s.next (.wakeup e)).enqueued info.pid = e.now := by
      rw [← hp]
      exact Function.update_self _ _ _
    exact placed_of_queued htask henq.symm hok.1 hok.1
  · rw [if_pos hp]
    have htask : (s.next (.wakeup e)).task info.pid = s.task info.pid :=
      Function.update_of_ne (Ne.symm hp) _ _
    have henq : (s.next (.wakeup e)).enqueued info.pid = s.enqueued info.pid :=
      Function.update_of_ne (Ne.symm hp) _ _
    refine ⟨?_, ?_⟩
    · rw [htask]; exact h.place
    · rw [htask, henq]; exact h.waiting

/-- What the migrate probe leaves when it is about the watched task. -/
theorem migrate_control {info : Info} {e : Migrate} (hp : e.p.pid = info.pid)
    (hwatch : info.cpu ≠ invalidCpu) :
    (probeSchedMigrateTask info e).1.pid = invalidPid ∨
      ((probeSchedMigrateTask info e).1.pid = info.pid ∧
        (probeSchedMigrateTask info e).1.cpu = e.cpu ∧
        (probeSchedMigrateTask info e).1.rqStart = info.rqStart ∧
        (probeSchedMigrateTask info e).1.runStart = e.now ∧
        (probeSchedMigrateTask info e).1.curr = info.curr) := by
  unfold probeSchedMigrateTask
  rw [if_neg (not_or.mpr ⟨not_not.mpr hp, hwatch⟩)]
  cases hcurr : info.curr with
  | none => exact .inr ⟨rfl, rfl, rfl, rfl, hcurr⟩
  | some curr =>
      rcases recordSince_control info { curr with comm := e.currComm } e.now with hoff | hrec
      · exact .inl hoff
      · exact .inr ⟨hrec.pid, rfl, hrec.rqStart, rfl, hrec.curr.trans hcurr⟩

theorem migrate_ignored {info : Info} {e : Migrate}
    (h : e.p.pid ≠ info.pid ∨ info.cpu = invalidCpu) :
    probeSchedMigrateTask info e = (info, []) :=
  if_pos h

theorem Placed.migrate {info : Info} {s : Sched} {e : Migrate} (h : Placed info s)
    (hok : Consistent info s (.migrate e)) :
    Placed (probeSchedMigrateTask info e).1 (s.next (.migrate e)) := by
  by_cases hp : e.p.pid = info.pid
  · by_cases hwatch : info.cpu = invalidCpu
    · rw [migrate_ignored (.inr hwatch)]
      exact placed_of_unwatched (.inr hwatch)
    · rcases migrate_control hp hwatch with hoff | ⟨hpid', hcpu', hrq', hrun', _⟩
      · exact placed_of_unwatched (.inl hoff)
      · by_cases hpid : info.pid = invalidPid
        · exact placed_of_unwatched (.inl (hpid'.trans hpid))
        · -- the watched task does not run, so it is queued and moves to the new queue
          have hqueued : s.task info.pid = .queued info.cpu := by
            rcases h.place hpid hwatch with hq | hr
            · exact hq
            · have hnot := hok.2.2 ⟨hpid, hp⟩
              rw [hp, hr] at hnot
              exact absurd hnot (by simp [TaskState.isRunning])
          obtain ⟨hrq, hpos, _⟩ := h.waiting hpid hwatch hqueued
          have htask : (s.next (.migrate e)).task info.pid = .queued e.cpu := by
            rw [← hp]
            show Function.update s.task e.p.pid _ e.p.pid = _
            rw [Function.update_self, hp, hqueued]
            rfl
          refine placed_of_queued ?_ ?_ ?_ ?_
          · rw [hpid', hcpu', htask]
          · rw [hrq', hpid']; exact hrq
          · rw [hrq']; exact hpos
          · rw [hrun']; exact hok.1
  · rw [migrate_ignored (.inl hp)]
    have htask : (s.next (.migrate e)).task info.pid = s.task info.pid :=
      Function.update_of_ne (Ne.symm hp) _ _
    refine ⟨?_, ?_⟩
    · rw [htask]; exact h.place
    · rw [htask]; exact h.waiting

theorem Placed.tracePid {info : Info} {s : Sched} (h : Placed info s) (pid : Option Int) :
    Placed (tracePidStore info pid).2 s := by
  rcases tracePid_cases info pid with ⟨hsame, _⟩ | ⟨hstop, _⟩ | ⟨_, _, hstart, _⟩
  · rw [hsame]
    exact h
  · rw [hstop]
    exact placed_of_unwatched (.inr rfl)
  · rw [hstart]
    exact placed_of_unwatched (.inr rfl)

/-- **The tracer keeps its place** through every consistent step. -/
theorem Placed.step {info : Info} {s : Sched} {e : Event} (h : Placed info s)
    (hok : Consistent info s e) : Placed (step info e) (s.next e) := by
  cases e with
  | wakeup e => exact h.wakeup hok
  | schedSwitch e => exact h.schedSwitch hok
  | migrate e => exact h.migrate hok
  | tracePid pid => exact h.tracePid pid
  | threshold threshold =>
      cases threshold with
      | none => exact h
      | some _ => exact ⟨h.place, h.waiting⟩

end UioLinuxSample.Runqlat
