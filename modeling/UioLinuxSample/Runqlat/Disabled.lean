import UioLinuxSample.Runqlat.Latency

set_option autoImplicit false

/-! # Is a disabled tracer reset?

The tracer is off when `pid` is `INVALID_PID`, by a write of `-1` or because an array has filled
up, and `runqlat_info_reset` is called each time. A full task array is found inside
`record_task`, though, and two of its callers go on to assign control fields: the switch between
two other tasks sets `run_start`, and a migration sets `cpu` and `run_start`. A tracer disabled
there keeps a time, and after a migration a CPU too (`disabledReset_step_iff`).
-/

namespace UioLinuxSample.Runqlat

open Run

/-! ## The property -/

/-- If the tracer is disabled, its control fields are reset. -/
def DisabledReset (info : Info) : Prop :=
  info.pid = invalidPid →
    info.cpu = invalidCpu ∧ info.rqStart = 0 ∧ info.runStart = 0 ∧ info.curr = none

instance (info : Info) : Decidable (DisabledReset info) :=
  inferInstanceAs (Decidable (_ → _ ∧ _))

/-- The next `record_task` takes the last task entry. -/
def LastEntry (info : Info) : Prop := maxTraceEntryTasks ≤ info.nrTask + 1

instance (info : Info) : Decidable (LastEntry info) := inferInstanceAs (Decidable (_ ≤ _))

/-- The fields a probe assigns after the tracer was disabled get the values of a reset. The
probes assign after `record_task` has taken the last task entry, and `probe_sched_wakeup` for a
task whose pid is `INVALID_PID`, which no task has. -/
def AssignsReset (info : Info) : Event → Prop
  | .wakeup e =>
      info.pid = invalidPid → e.p.pid = invalidPid → e.now = 0 ∧ e.p.cpu = invalidCpu
  | .schedSwitch e =>
      info.pid ≠ invalidPid → info.cpu = e.cpu → info.cpu ≠ invalidCpu →
        info.pid ≠ e.next.pid → info.pid ≠ e.prev.pid → info.runStart ≠ 0 → LastEntry info →
          e.now = 0
  | .migrate e =>
      info.pid ≠ invalidPid → e.p.pid = info.pid → info.cpu ≠ invalidCpu →
        info.curr.isSome = true → info.runStart ≠ 0 → LastEntry info →
          e.now = 0 ∧ e.cpu = invalidCpu
  | _ => True

/-! ## The two recording functions -/

/-- Disabled and reset. -/
structure IsReset (info : Info) : Prop where
  pid : info.pid = invalidPid
  cpu : info.cpu = invalidCpu
  rqStart : info.rqStart = 0
  runStart : info.runStart = 0
  curr : info.curr = none

theorem IsReset.disabledReset {info : Info} (h : IsReset info) : DisabledReset info :=
  fun _ => ⟨h.cpu, h.rqStart, h.runStart, h.curr⟩

theorem disabledReset_of_enabled {info : Info} (h : info.pid ≠ invalidPid) : DisabledReset info :=
  fun heq => absurd heq h

theorem SameControl.isReset {info info' : Info} (h : SameControl info info')
    (hr : IsReset info) : IsReset info' :=
  ⟨h.pid.trans hr.pid, h.cpu.trans hr.cpu, h.rqStart.trans hr.rqStart,
    h.runStart.trans hr.runStart, h.curr.trans hr.curr⟩

/-- `record_task` resets the tracer exactly when it takes the last task entry. -/
theorem recordTask_last (info : Info) (p : TaskStruct) (runtime : UInt64) :
    (LastEntry info ∧ IsReset (recordTask info p runtime)) ∨
      (¬ LastEntry info ∧ SameControl info (recordTask info p runtime)) := by
  unfold recordTask
  dsimp only
  by_cases hlast : LastEntry info
  · rw [if_pos (show (appendTask info p runtime).nrTask ≥ maxTraceEntryTasks from hlast)]
    exact .inl ⟨hlast, rfl, rfl, rfl, rfl, rfl⟩
  · rw [if_neg (show ¬ (appendTask info p runtime).nrTask ≥ maxTraceEntryTasks from hlast)]
    exact .inr ⟨hlast, rfl, rfl, rfl, rfl, rfl⟩

theorem recordSince_last (info : Info) (p : TaskStruct) (now : UInt64) :
    (info.runStart ≠ 0 ∧ LastEntry info ∧ IsReset (recordSince info p now).1) ∨
      (¬ (info.runStart ≠ 0 ∧ LastEntry info) ∧ SameControl info (recordSince info p now).1) := by
  unfold recordSince
  by_cases hrun : info.runStart ≠ 0
  · rw [if_pos hrun]
    rcases recordTask_last info p (now - info.runStart) with ⟨hlast, hreset⟩ | ⟨hroom, hsame⟩
    · exact .inl ⟨hrun, hlast, hreset⟩
    · exact .inr ⟨fun hand => hroom hand.2, hsame⟩
  · rw [if_neg hrun]
    exact .inr ⟨fun hand => hrun hand.1, rfl, rfl, rfl, rfl, rfl⟩

/-- The call takes the last entry of an array. -/
def Call.Fills : Call → Prop
  | .recordTask info _ _ => LastEntry info
  | .recordTaskCommit info latency =>
      info.openEntry.nrTasks ≠ 0 ∧ info.threshold ≤ latency ∧ maxTraceEntries ≤ info.nrTrace + 1

/-- `record_task_commit` resets the tracer only when it takes the last trace entry. -/
theorem recordTaskCommit_last (info : Info) (latency : UInt64) :
    ((Call.recordTaskCommit info latency).Fills ∧ IsReset (recordTaskCommit info latency).2)
      ∨ SameControl info (recordTaskCommit info latency).2 := by
  unfold recordTaskCommit keepTrace
  dsimp only
  split
  · exact .inr ⟨rfl, rfl, rfl, rfl, rfl⟩
  · next hne =>
      split
      · next hlong =>
          split
          · next hfull => exact .inl ⟨⟨hne, hlong, hfull⟩, rfl, rfl, rfl, rfl, rfl⟩
          · exact .inr ⟨rfl, rfl, rfl, rfl, rfl⟩
      · exact .inr ⟨rfl, rfl, rfl, rfl, rfl⟩

/-! ## One step -/

section Step

variable {info : Info}

/-- The branch of the switch probe for two other tasks. -/
theorem disabledReset_other_iff {e : Switch} (hpid : info.pid ≠ invalidPid) :
    DisabledReset { (chargePrev info e).1 with runStart := e.now }
      ↔ (info.runStart ≠ 0 → LastEntry info → e.now = 0) := by
  have hlast : LastEntry (updateCurr info e.next) ↔ LastEntry info := by
    unfold LastEntry
    rw [updateCurr_nrTask]
  rcases recordSince_last (updateCurr info e.next) e.prev e.now with
    ⟨hrun, hfull, hreset⟩ | ⟨hroom, hsame⟩
  · rw [updateCurr_runStart] at hrun
    constructor
    · intro h _ _
      exact (h hreset.pid).2.2.1
    · intro h _
      exact ⟨hreset.cpu, hreset.rqStart, h hrun (hlast.mp hfull), hreset.curr⟩
  · rw [updateCurr_runStart, hlast] at hroom
    refine iff_of_true (disabledReset_of_enabled ?_) fun hrun hfull => absurd ⟨hrun, hfull⟩ hroom
    show (chargePrev info e).1.pid ≠ invalidPid
    rw [show (chargePrev info e).1.pid = _ from hsame.pid, updateCurr_pid]
    exact hpid

/-- A switch-in may disable the tracer in both of its calls, and assigns nothing after them. -/
theorem disabledReset_switchIn {e : Switch} (hpid : info.pid ≠ invalidPid) (latency : UInt64) :
    DisabledReset (recordTaskCommit (chargePrev info e).1 latency).2 := by
  rcases recordTaskCommit_last (chargePrev info e).1 latency with ⟨-, hreset⟩ | hcommit
  · exact hreset.disabledReset
  · rcases recordSince_last (updateCurr info e.next) e.prev e.now with
      ⟨-, -, hreset⟩ | ⟨-, hsame⟩
    · exact (hcommit.isReset hreset).disabledReset
    · refine disabledReset_of_enabled ?_
      rw [hcommit.pid, show (chargePrev info e).1.pid = _ from hsame.pid, updateCurr_pid]
      exact hpid

theorem disabledReset_watchedSwitch_iff {e : Switch} (hpid : info.pid ≠ invalidPid) :
    DisabledReset (watchedSwitch info e).1
      ↔ (info.pid ≠ e.next.pid → info.pid ≠ e.prev.pid → info.runStart ≠ 0 → LastEntry info →
        e.now = 0) := by
  have hcurr : (updateCurr info e.next).pid = info.pid := updateCurr_pid info e.next
  unfold watchedSwitch
  dsimp only
  rw [hcurr]
  by_cases hnext : info.pid = e.next.pid
  · rw [if_pos hnext]
    exact iff_of_true (disabledReset_switchIn hpid _) fun hne => absurd hnext hne
  · rw [if_neg hnext]
    by_cases hprev : info.pid = e.prev.pid
    · rw [if_pos hprev]
      refine iff_of_true (disabledReset_of_enabled ?_) fun _ hne => absurd hprev hne
      -- preempted or asleep, the task is still the one that is traced
      split
      · exact hpid
      · exact fun heq => hpid (hcurr.symm.trans heq)
    · rw [if_neg hprev]
      exact (disabledReset_other_iff hpid).trans
        ⟨fun h _ _ => h, fun h => h hnext hprev⟩

theorem disabledReset_schedSwitch_iff (h : DisabledReset info) (e : Switch) :
    DisabledReset (probeSchedSwitch info e).1 ↔ AssignsReset info (.schedSwitch e) := by
  unfold probeSchedSwitch
  by_cases hpid : info.pid = invalidPid
  · rw [if_pos hpid]
    exact iff_of_true h fun hne => absurd hpid hne
  rw [if_neg hpid]
  by_cases hother : info.cpu ≠ invalidCpu ∧ info.cpu ≠ e.cpu
  · rw [if_pos hother]
    exact iff_of_true h fun _ heq => absurd heq hother.2
  rw [if_neg hother]
  by_cases hunwatched : info.cpu = invalidCpu
  · rw [if_pos hunwatched]
    refine iff_of_true (disabledReset_of_enabled ?_) fun _ _ hne => absurd hunwatched hne
    split
    · exact hpid
    · show (updateCurr _ e.next).pid ≠ invalidPid
      rw [updateCurr_pid]
      exact hpid
  · rw [if_neg hunwatched, disabledReset_watchedSwitch_iff hpid]
    have hcpu : info.cpu = e.cpu := by
      by_contra hne
      exact hother ⟨hunwatched, hne⟩
    exact ⟨fun h _ _ _ => h, fun h => h hpid hcpu hunwatched⟩

theorem disabledReset_wakeup_iff (h : DisabledReset info) (e : Wakeup) :
    DisabledReset (probeSchedWakeup info e) ↔ AssignsReset info (.wakeup e) := by
  unfold probeSchedWakeup
  by_cases hp : e.p.pid = info.pid
  · rw [if_neg (not_not.mpr hp)]
    constructor
    · intro hd hpid _
      obtain ⟨hcpu, hrq, -⟩ := hd hpid
      exact ⟨hrq, hcpu⟩
    · intro ha hpid
      obtain ⟨hnow, hcpu⟩ := ha hpid (hp.trans hpid)
      exact ⟨hcpu, hnow, hnow, (h hpid).2.2.2⟩
  · rw [if_pos hp]
    exact iff_of_true h fun hpid hp' => absurd (hp'.trans hpid.symm) hp

theorem disabledReset_migrate_iff (h : DisabledReset info) (e : Migrate) :
    DisabledReset (probeSchedMigrateTask info e).1 ↔ AssignsReset info (.migrate e) := by
  unfold probeSchedMigrateTask
  by_cases hignored : e.p.pid ≠ info.pid ∨ info.cpu = invalidCpu
  · rw [if_pos hignored]
    refine iff_of_true h fun _ hp hwatch => ?_
    rcases hignored with hne | hunwatched
    · exact absurd hp hne
    · exact absurd hunwatched hwatch
  rw [if_neg hignored]
  obtain ⟨hp, hwatch⟩ := not_or.mp hignored
  -- a watching tracer is not disabled, or else it would be reset
  have hpid : info.pid ≠ invalidPid := fun heq => hwatch (h heq).1
  cases hcurr : info.curr with
  | none =>
      refine iff_of_true (disabledReset_of_enabled hpid) fun _ _ _ hsome => ?_
      rw [hcurr] at hsome
      cases hsome
  | some curr =>
      rcases recordSince_last info { curr with comm := e.currComm } e.now with
        ⟨hrun, hfull, hreset⟩ | ⟨hroom, hsame⟩
      · constructor
        · intro hd _ _ _ _ _ _
          obtain ⟨hcpu, -, hnow, -⟩ := hd hreset.pid
          exact ⟨hnow, hcpu⟩
        · intro ha _
          obtain ⟨hnow, hcpu⟩ := ha hpid (not_not.mp hp) hwatch (by rw [hcurr]; rfl) hrun hfull
          exact ⟨hcpu, hreset.rqStart, hnow, hreset.curr⟩
      · refine iff_of_true (disabledReset_of_enabled ?_) fun _ _ _ _ hrun hfull =>
          absurd ⟨hrun, hfull⟩ hroom
        exact fun heq => hpid (hsame.pid.symm.trans heq)

/-- **What keeps a disabled tracer reset.** -/
theorem disabledReset_step_iff (info : Info) (e : Event) (h : DisabledReset info) :
    DisabledReset (step info e) ↔ AssignsReset info e := by
  cases e with
  | wakeup e => exact disabledReset_wakeup_iff h e
  | schedSwitch e => exact disabledReset_schedSwitch_iff h e
  | migrate e => exact disabledReset_migrate_iff h e
  | threshold threshold =>
      refine iff_of_true ?_ trivial
      cases threshold <;> exact h
  | tracePid pid =>
      refine iff_of_true ?_ trivial
      show DisabledReset (tracePidStore info pid).2
      rcases tracePid_cases info pid with ⟨hsame, -⟩ | ⟨hstop, -⟩ | ⟨new, hnew, hstart, -⟩
      · rw [hsame]
        exact h
      · rw [hstop]
        exact fun _ => ⟨rfl, rfl, rfl, rfl⟩
      · rw [hstart]
        exact disabledReset_of_enabled hnew

end Step

/-! ## Whole runs -/

/-- **When a disabled tracer is reset.** In every run, every state reached that is disabled is
reset, if and only if no probe assigns a time or a CPU to a tracer that `record_task` has just
disabled. -/
theorem disabled_reset_iff (es : List Event) :
    Steps step (fun info e => DisabledReset (step info e)) Info.init es
      ↔ Steps step AssignsReset Info.init es :=
  Steps.iff_of_kept (fun _ _ _ hd => hd) disabledReset_step_iff
    fun _ => ⟨rfl, rfl, rfl, rfl⟩

/-- If there is one free task entry left, the next turn disables the tracer and leaves its time in
`run_start`. -/
theorem not_disabledReset_turn {n : Nat} (hn : n + 1 = maxTraceEntryTasks) :
    ¬ Steps step (fun info e => DisabledReset (step info e)) Info.init (turns n ++ [turn n]) := by
  intro hall
  have hlt : n < maxTraceEntryTasks := by omega
  obtain ⟨hwaits, -⟩ := waits_turns hlt
  have hpre := (steps_append.mp hall).1
  have hinfo : (run latencyStep (Info.init, ⟨twoBusy, []⟩) (turns n)).1
      = run step Info.init (turns n) := run_observe_fst _ _
  have hreset : DisabledReset (run step Info.init (turns n)) :=
    inv_run (fun _ _ _ hd => hd) (fun _ => ⟨rfl, rfl, rfl, rfl⟩) hpre
  have hassign := (disabledReset_step_iff _ _ hreset).mp (steps_append.mp hall).2.1
  rw [← hinfo] at hassign
  refine time_ne_zero hlt (hassign ?_ hwaits.cpu ?_ ?_ ?_ hwaits.runStart ?_)
  · rw [hwaits.pid]
    decide
  · rw [hwaits.cpu]
    decide
  · rw [hwaits.pid]
    exact turnOf_ne (n + 1)
  · rw [hwaits.pid]
    exact turnOf_ne n
  · unfold LastEntry
    rw [hwaits.nrTask]
    omega

/-- Pid 7 waits for 2048 turns of two other tasks. The last turn fills the task entries, and the
tracer it disables has `run_start` set to the time of that turn. -/
theorem disabled_not_reset_when_full :
    ¬ Steps step (fun info e => DisabledReset (step info e)) Info.init
      (turns 2047 ++ [turn 2047]) :=
  not_disabledReset_turn rfl

end UioLinuxSample.Runqlat
