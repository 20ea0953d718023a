import UioLinuxSample.Runqlat.Latency

set_option autoImplicit false

/-! # Is the right task blamed?

A task entry charges the time from `run_start` to now to a task. It is right if that task was
the current one on the CPU where the traced task was queued, during all of that time. The switch
probe charges `prev`, which is the task that leaves the CPU. The migrate probe has no such
argument and charges the cached `info->curr`, which only switches on the watched CPU refresh, and
only those to a task other than the idle one. After a migration the cache is about the CPU that
the task has left, until the next switch on the new one: a second migration before it charges
the wrong task (`stale_curr_blames_wrong`). If the cache is empty or fresh at every migration,
all entries are right (`blames_right_of_known`).
-/

namespace UioLinuxSample.Runqlat

open Run

/-! ## The current task of every CPU -/

/-- The scheduler, the current task of every CPU, and for every task how it came to its queue. -/
structure BlameHistory where
  sched : Sched
  /-- The pid of the current task of a CPU. -/
  cur : Int → Int
  /-- When the current task of a CPU was switched in. -/
  since : Int → UInt64
  /-- When the task with this pid came to the queue it is on. -/
  arrived : Int → UInt64
  /-- The task switched in by the last switch on that queue's CPU since then. -/
  lastNext : Int → Option TaskStruct

/-- All CPUs have run their current tasks from the beginning. -/
def BlameHistory.start (s : Sched) (cur : Int → Int) : BlameHistory where
  sched := s
  cur := cur
  since := fun _ => 0
  arrived := fun _ => 0
  lastNext := fun _ => none

def BlameHistory.next (h : BlameHistory) (_ : Info) : Event → BlameHistory
  | .wakeup e =>
      { h with
        sched := h.sched.next (.wakeup e)
        arrived := Function.update h.arrived e.p.pid e.now
        lastNext := Function.update h.lastNext e.p.pid none }
  | .schedSwitch e =>
      { sched := h.sched.next (.schedSwitch e)
        cur := Function.update h.cur e.cpu e.next.pid
        since := Function.update h.since e.cpu e.now
        arrived := Function.update h.arrived e.prev.pid e.now
        lastNext := fun pid =>
          if pid = e.prev.pid ∨ h.sched.task pid = .queued e.cpu then some e.next
          else h.lastNext pid }
  | .migrate e =>
      { h with
        sched := h.sched.next (.migrate e)
        arrived := Function.update h.arrived e.p.pid e.now
        lastNext := Function.update h.lastNext e.p.pid none }
  | .tracePid _ => h
  | .threshold _ => h

/-- A switch is made by the current task of its CPU, and the traced task, where it runs, is the
current one. -/
def OneCurrent (info : Info) (h : BlameHistory) : Event → Prop
  | .schedSwitch e =>
      e.prev.pid = h.cur e.cpu ∧
        (info.pid ≠ invalidPid → h.sched.task info.pid = .running e.cpu → e.prev.pid = info.pid)
  | _ => True

instance (info : Info) (h : BlameHistory) : ∀ e : Event, Decidable (OneCurrent info h e)
  | .schedSwitch _ => inferInstanceAs (Decidable (_ ∧ (_ → _ → _)))
  | .wakeup _ => inferInstanceAs (Decidable True)
  | .migrate _ => inferInstanceAs (Decidable True)
  | .tracePid _ => inferInstanceAs (Decidable True)
  | .threshold _ => inferInstanceAs (Decidable True)

/-- The event fits the scheduler. -/
def Scheduled (info : Info) (h : BlameHistory) (e : Event) : Prop :=
  Consistent info h.sched e ∧ ClockForward h.sched e ∧ OneCurrent info h e

instance (info : Info) (h : BlameHistory) (e : Event) : Decidable (Scheduled info h e) :=
  inferInstanceAs (Decidable (_ ∧ _ ∧ _))

/-- A migration of the watched task finds `curr` empty, or refreshed by the last switch on the
queue's CPU since the task came there. -/
def CurrKnown (info : Info) (h : BlameHistory) : Event → Prop
  | .migrate e =>
      Traced info e.p.pid → info.cpu ≠ invalidCpu →
        info.curr = none ∨ (h.lastNext e.p.pid).any (fun next => !next.idle) = true
  | _ => True

instance (info : Info) (h : BlameHistory) : ∀ e : Event, Decidable (CurrKnown info h e)
  | .migrate _ => inferInstanceAs (Decidable (_ → _ → _))
  | .schedSwitch _ => inferInstanceAs (Decidable True)
  | .wakeup _ => inferInstanceAs (Decidable True)
  | .tracePid _ => inferInstanceAs (Decidable True)
  | .threshold _ => inferInstanceAs (Decidable True)

/-- The entry of a call names the task that was current on the CPU where `pid` was queued, from
`run_start` to `now`. -/
def Blames (h : BlameHistory) (pid : Int) (now : UInt64) : Call → Prop
  | .recordTask info p runtime =>
      match h.sched.task pid with
      | .queued cpu =>
          p.pid = h.cur cpu ∧ h.since cpu ≤ info.runStart ∧ h.arrived pid ≤ info.runStart ∧
            info.runStart ≤ now ∧ runtime = now - info.runStart
      | _ => False
  | .recordTaskCommit _ _ => True

instance (h : BlameHistory) (pid : Int) (now : UInt64) :
    ∀ c : Call, Decidable (Blames h pid now c)
  | .recordTask info p runtime =>
      match htask : h.sched.task pid with
      | .queued cpu =>
          decidable_of_iff (p.pid = h.cur cpu ∧ h.since cpu ≤ info.runStart ∧
            h.arrived pid ≤ info.runStart ∧ info.runStart ≤ now ∧ runtime = now - info.runStart)
            (by simp [Blames, htask])
      | .sleeping => .isFalse (by simp [Blames, htask])
      | .running _ => .isFalse (by simp [Blames, htask])
  | .recordTaskCommit _ _ => .isTrue trivial

/-- Every entry that the step appends blames the right task. -/
def BlamesRight (info : Info) (h : BlameHistory) (e : Event) : Prop :=
  ∀ c ∈ calls info e, Blames h info.pid e.time c

instance (info : Info) (h : BlameHistory) (e : Event) : Decidable (BlamesRight info h e) :=
  inferInstanceAs (Decidable (∀ c ∈ _, _))

/-! ## What is known while the task waits -/

structure WaitKnown (info : Info) (h : BlameHistory) : Prop where
  since_le : h.since info.cpu ≤ info.runStart
  arrived_le : h.arrived info.pid ≤ info.runStart
  runStart_le : info.runStart ≤ h.sched.clock
  curr : ∀ next, h.lastNext info.pid = some next → next.idle = false →
    ∃ q, info.curr = some q ∧ q.pid = h.cur info.cpu

structure Aware (w : Info × BlameHistory) : Prop where
  sound : Sound w.1
  placed : Placed w.1 w.2.sched
  since_le : ∀ cpu, w.2.since cpu ≤ w.2.sched.clock
  waiting : w.1.pid ≠ invalidPid → w.1.cpu ≠ invalidCpu →
    w.2.sched.task w.1.pid = .queued w.1.cpu → WaitKnown w.1 w.2

/-- A charge that is made on the queue of the waiting task. -/
theorem WaitKnown.blames {info i : Info} {h : BlameHistory} (hk : WaitKnown info h)
    (hqueued : h.sched.task info.pid = .queued info.cpu) {now : UInt64}
    (hclock : h.sched.clock ≤ now) {p : TaskStruct} (hp : p.pid = h.cur info.cpu)
    (hrun : i.runStart = info.runStart) :
    Blames h info.pid now (.recordTask i p (now - i.runStart)) := by
  show match h.sched.task info.pid with
    | .queued cpu => _ ∧ h.since cpu ≤ _ ∧ _
    | _ => False
  rw [hqueued, hrun]
  exact ⟨hp, hk.since_le, hk.arrived_le, UInt64.le_trans hk.runStart_le hclock, rfl⟩

theorem mem_recordSince {info : Info} {p : TaskStruct} {now : UInt64} {c : Call}
    (h : c ∈ (recordSince info p now).2) : c = .recordTask info p (now - info.runStart) := by
  unfold recordSince at h
  split at h
  · exact List.mem_singleton.mp h
  · exact absurd h List.not_mem_nil

/-- The switch probe charges the task that leaves the CPU. -/
theorem WaitKnown.charged {info : Info} {h : BlameHistory} {e : Switch}
    (hk : WaitKnown info h) (hqueued : h.sched.task info.pid = .queued info.cpu)
    (hclock : h.sched.clock ≤ e.now) (hprev : e.prev.pid = h.cur info.cpu) :
    ∀ c ∈ (chargePrev info e).2, Blames h info.pid e.now c := by
  intro c hc
  rw [mem_recordSince hc]
  exact hk.blames hqueued hclock hprev (updateCurr_runStart _ _)

/-! ## Switches -/

theorem updateCurr_curr (info : Info) {next : TaskStruct} (h : next.idle = false) :
    (updateCurr info next).curr = some next := by
  unfold updateCurr
  simp [h]

section Switch

variable {info info' : Info} {h : BlameHistory} {e : Switch}

/-- After a switch on the watched CPU the cache is fresh, or the CPU is idle. -/
theorem waitKnown_of_switch (hcpu : info'.cpu = e.cpu) (hrun : info'.runStart = e.now)
    (harrived : (h.next info (.schedSwitch e)).arrived info'.pid ≤ e.now)
    (hlast : (h.next info (.schedSwitch e)).lastNext info'.pid = some e.next)
    (hcurr : e.next.idle = false → info'.curr = some e.next) :
    WaitKnown info' (h.next info (.schedSwitch e)) where
  since_le := by
    rw [hcpu, hrun]
    show Function.update h.since e.cpu e.now e.cpu ≤ e.now
    rw [Function.update_self]
    exact UInt64.le_refl _
  arrived_le := by
    rw [hrun]
    exact harrived
  runStart_le := by
    rw [hrun]
    exact UInt64.le_refl _
  curr := by
    intro next heq hidle
    obtain rfl : e.next = next := Option.some_inj.mp (hlast.symm.trans heq)
    refine ⟨e.next, hcurr hidle, ?_⟩
    rw [hcpu]
    show e.next.pid = Function.update h.cur e.cpu e.next.pid e.cpu
    rw [Function.update_self]

/-- The traced task is preempted: it comes to the queue with this switch. -/
theorem waitKnown_of_preempted (hprev : info'.pid = e.prev.pid) (hcpu : info'.cpu = e.cpu)
    (hrun : info'.runStart = e.now) (hcurr : e.next.idle = false → info'.curr = some e.next) :
    WaitKnown info' (h.next info (.schedSwitch e)) := by
  refine waitKnown_of_switch hcpu hrun ?_ (if_pos (.inl hprev)) hcurr
  rw [hprev]
  show Function.update h.arrived e.prev.pid e.now e.prev.pid ≤ e.now
  rw [Function.update_self]
  exact UInt64.le_refl _

/-- A switch on another CPU changes nothing of what is known. -/
theorem WaitKnown.elsewhere (hk : WaitKnown info h)
    (hqueued : h.sched.task info.pid = .queued info.cpu) (hclock : h.sched.clock ≤ e.now)
    (hcpu : info.cpu ≠ e.cpu) (hprev : info.pid ≠ e.prev.pid) :
    WaitKnown info (h.next info (.schedSwitch e)) where
  since_le := by
    show Function.update h.since e.cpu e.now info.cpu ≤ _
    rw [Function.update_of_ne hcpu]
    exact hk.since_le
  arrived_le := by
    show Function.update h.arrived e.prev.pid e.now info.pid ≤ _
    rw [Function.update_of_ne hprev]
    exact hk.arrived_le
  runStart_le := UInt64.le_trans hk.runStart_le hclock
  curr := by
    have hlast : (h.next info (.schedSwitch e)).lastNext info.pid = h.lastNext info.pid := by
      refine if_neg (not_or.mpr ⟨hprev, ?_⟩)
      rw [hqueued]
      simpa using hcpu
    have hcur : (h.next info (.schedSwitch e)).cur info.cpu = h.cur info.cpu :=
      Function.update_of_ne hcpu _ _
    rw [hlast, hcur]
    exact hk.curr

/-- If the traced task ran on the watched CPU, it would be the one to leave. -/
theorem Aware.queued_of_other (ha : Aware (info, h)) (hone : OneCurrent info h (.schedSwitch e))
    (hpid : info.pid ≠ invalidPid) (hwatch : info.cpu ≠ invalidCpu) (hcpu : info.cpu = e.cpu)
    (hprev : info.pid ≠ e.prev.pid) : h.sched.task info.pid = .queued info.cpu := by
  rcases ha.placed.place hpid hwatch with hq | hr
  · exact hq
  · have hr' : h.sched.task info.pid = .running e.cpu := by
      rw [← hcpu]
      exact hr
    exact absurd (hone.2 hpid hr').symm hprev

theorem Aware.schedSwitch (ha : Aware (info, h)) (hok : Scheduled info h (.schedSwitch e))
    (hpid' : (probeSchedSwitch info e).1.pid ≠ invalidPid)
    (hwatch' : (probeSchedSwitch info e).1.cpu ≠ invalidCpu)
    (hqueued' : (h.sched.next (.schedSwitch e)).task (probeSchedSwitch info e).1.pid
      = .queued (probeSchedSwitch info e).1.cpu) :
    WaitKnown (probeSchedSwitch info e).1 (h.next info (.schedSwitch e)) := by
  obtain ⟨hcons, hclock, hone⟩ := hok
  have hpath := switchPath ha.placed hcons
  generalize probeSchedSwitch info e = r at hpath hpid' hwatch' hqueued' ⊢
  cases hpath with
  | ignored hprev hcpu =>
      rcases hcpu with hoff | hunwatched | ⟨hother, hprev, hnext⟩
      · exact absurd hoff hpid'
      · exact absurd hunwatched hwatch'
      · rw [Sched.next_task_other hnext hprev] at hqueued'
        exact (ha.waiting hpid' hwatch' hqueued').elsewhere hqueued' hclock hother hprev
  | begin hpid hcpu hprev hstate =>
      exact waitKnown_of_preempted ((updateCurr_pid _ _).trans hprev) (updateCurr_cpu _ _)
        (updateCurr_runStart _ _) (updateCurr_curr _)
  | switchIn hpid hcpu hnext hqueued =>
      -- the task runs after this switch
      rcases recordTaskCommit_control (chargePrev info e).1
          (e.now - (chargePrev info e).1.rqStart) with hoff | hctl
      · exact absurd hoff hpid'
      · rcases chargePrev_control info e with hoff | hsame
        · exact absurd (hctl.pid.trans hoff) hpid'
        · have hp := (hctl.pid.trans hsame.pid).trans ((updateCurr_pid _ _).trans hnext)
          rw [hp, Sched.next_task_in] at hqueued'
          exact absurd hqueued' (by simp)
  | preempt hpid hcpu hprev hstate hrunning =>
      exact waitKnown_of_preempted ((updateCurr_pid _ _).trans hprev)
        ((updateCurr_cpu _ _).trans hcpu) rfl (updateCurr_curr _)
  | sleep hpid hcpu hprev hstate => exact absurd rfl hwatch'
  | other hpid hcpu hnext hprev =>
      have hwatch : info.cpu ≠ invalidCpu := hcpu ▸ hcons.2.1
      have hqueued := ha.queued_of_other hone hpid hwatch hcpu hprev
      have hk := ha.waiting hpid hwatch hqueued
      rcases chargePrev_control info e with hoff | hsame
      · exact absurd hoff hpid'
      · have hp : (chargePrev info e).1.pid = info.pid := hsame.pid.trans (updateCurr_pid _ _)
        refine waitKnown_of_switch ((hsame.cpu.trans (updateCurr_cpu _ _)).trans hcpu) rfl ?_ ?_
          fun hidle => hsame.curr.trans (updateCurr_curr _ hidle)
        · show Function.update h.arrived e.prev.pid e.now (chargePrev info e).1.pid ≤ e.now
          rw [hp, Function.update_of_ne hprev]
          exact UInt64.le_trans hk.arrived_le (UInt64.le_trans hk.runStart_le hclock)
        · refine if_pos (.inr ?_)
          show h.sched.task (chargePrev info e).1.pid = _
          rw [hp, ← hcpu]
          exact hqueued

theorem Aware.blames_schedSwitch (ha : Aware (info, h)) (hok : Scheduled info h (.schedSwitch e)) :
    BlamesRight info h (.schedSwitch e) := by
  obtain ⟨hcons, hclock, hone⟩ := hok
  have hpath := switchPath ha.placed hcons
  show ∀ c ∈ (probeSchedSwitch info e).2, Blames h info.pid e.now c
  generalize probeSchedSwitch info e = r at hpath
  cases hpath with
  | ignored hprev hcpu => exact fun _ hc => absurd hc List.not_mem_nil
  | begin hpid hcpu hprev hstate => exact fun _ hc => absurd hc List.not_mem_nil
  | switchIn hpid hcpu hnext hqueued =>
      have hk := ha.waiting hpid (hcpu ▸ hcons.2.1) hqueued
      intro c hc
      rcases List.mem_append.mp hc with hc | hc
      · exact hk.charged hqueued hclock (hcpu ▸ hone.1) c hc
      · rw [List.mem_singleton.mp hc]
        trivial
  | preempt hpid hcpu hprev hstate hrunning => exact fun _ hc => absurd hc List.not_mem_nil
  | sleep hpid hcpu hprev hstate => exact fun _ hc => absurd hc List.not_mem_nil
  | other hpid hcpu hnext hprev =>
      have hwatch : info.cpu ≠ invalidCpu := hcpu ▸ hcons.2.1
      have hqueued := ha.queued_of_other hone hpid hwatch hcpu hprev
      exact (ha.waiting hpid hwatch hqueued).charged hqueued hclock (hcpu ▸ hone.1)

end Switch

/-! ## The other events -/

/-- The traced task has just come to a queue, by a wakeup or a migration. -/
theorem waitKnown_of_arrival {info : Info} {h : BlameHistory} {now : UInt64}
    (hsince : h.since info.cpu ≤ now) (hrun : info.runStart = now)
    (harrived : h.arrived info.pid = now) (hclock : h.sched.clock = now)
    (hlast : h.lastNext info.pid = none) : WaitKnown info h where
  since_le := by rw [hrun]; exact hsince
  arrived_le := by rw [hrun, harrived]; exact UInt64.le_refl _
  runStart_le := by rw [hrun, hclock]; exact UInt64.le_refl _
  curr := by
    intro next heq
    rw [hlast] at heq
    exact absurd heq (by simp)

/-- An event of another task leaves what is known, on a later clock. -/
theorem WaitKnown.of_same {info : Info} {h h' : BlameHistory} (hk : WaitKnown info h)
    (hcur : h'.cur = h.cur) (hsince : h'.since = h.since)
    (harrived : h'.arrived info.pid = h.arrived info.pid)
    (hlast : h'.lastNext info.pid = h.lastNext info.pid)
    (hclock : h.sched.clock ≤ h'.sched.clock) : WaitKnown info h' where
  since_le := by rw [hsince]; exact hk.since_le
  arrived_le := by rw [harrived]; exact hk.arrived_le
  runStart_le := UInt64.le_trans hk.runStart_le hclock
  curr := by rw [hlast, hcur]; exact hk.curr

theorem Aware.wakeup {info : Info} {h : BlameHistory} {e : Wakeup} (ha : Aware (info, h))
    (hclock : h.sched.clock ≤ e.now)
    (hpid' : (probeSchedWakeup info e).pid ≠ invalidPid)
    (hwatch' : (probeSchedWakeup info e).cpu ≠ invalidCpu)
    (hqueued' : (h.sched.next (.wakeup e)).task (probeSchedWakeup info e).pid
      = .queued (probeSchedWakeup info e).cpu) :
    WaitKnown (probeSchedWakeup info e) (h.next info (.wakeup e)) := by
  by_cases hp : e.p.pid = info.pid
  · have hprobe : probeSchedWakeup info e
        = { info with rqStart := e.now, runStart := e.now, cpu := e.p.cpu } :=
      if_neg (not_not.mpr hp)
    rw [hprobe]
    refine waitKnown_of_arrival (UInt64.le_trans (ha.since_le _) hclock) rfl ?_ rfl ?_
    · show Function.update h.arrived e.p.pid e.now info.pid = e.now
      rw [hp, Function.update_self]
    · show Function.update h.lastNext e.p.pid none info.pid = none
      rw [hp, Function.update_self]
  · have hprobe : probeSchedWakeup info e = info := if_pos hp
    have htask : (h.sched.next (.wakeup e)).task info.pid = h.sched.task info.pid :=
      Function.update_of_ne (Ne.symm hp) _ _
    rw [hprobe] at hpid' hwatch' hqueued' ⊢
    rw [htask] at hqueued'
    exact (ha.waiting hpid' hwatch' hqueued').of_same rfl rfl
      (Function.update_of_ne (Ne.symm hp) _ _) (Function.update_of_ne (Ne.symm hp) _ _) hclock

theorem Aware.migrate {info : Info} {h : BlameHistory} {e : Migrate} (ha : Aware (info, h))
    (hclock : h.sched.clock ≤ e.now)
    (hpid' : (probeSchedMigrateTask info e).1.pid ≠ invalidPid)
    (hwatch' : (probeSchedMigrateTask info e).1.cpu ≠ invalidCpu)
    (hqueued' : (h.sched.next (.migrate e)).task (probeSchedMigrateTask info e).1.pid
      = .queued (probeSchedMigrateTask info e).1.cpu) :
    WaitKnown (probeSchedMigrateTask info e).1 (h.next info (.migrate e)) := by
  by_cases hp : e.p.pid = info.pid
  · by_cases hwatch : info.cpu = invalidCpu
    · rw [migrate_ignored (.inr hwatch)] at hwatch'
      exact absurd hwatch hwatch'
    · rcases migrate_control hp hwatch with hoff | ⟨hpid, _, _, hrun, _⟩
      · exact absurd hoff hpid'
      · refine waitKnown_of_arrival (UInt64.le_trans (ha.since_le _) hclock) hrun ?_ rfl ?_
        · rw [hpid, ← hp]
          show Function.update h.arrived e.p.pid e.now e.p.pid = e.now
          rw [Function.update_self]
        · rw [hpid, ← hp]
          show Function.update h.lastNext e.p.pid none e.p.pid = none
          rw [Function.update_self]
  · have htask : (h.sched.next (.migrate e)).task info.pid = h.sched.task info.pid :=
      Function.update_of_ne (Ne.symm hp) _ _
    rw [migrate_ignored (.inl hp)] at hpid' hwatch' hqueued' ⊢
    rw [htask] at hqueued'
    exact (ha.waiting hpid' hwatch' hqueued').of_same rfl rfl
      (Function.update_of_ne (Ne.symm hp) _ _) (Function.update_of_ne (Ne.symm hp) _ _) hclock

/-- The migrate probe charges `curr`, which is right if it is fresh. -/
theorem Aware.blames_migrate {info : Info} {h : BlameHistory} {e : Migrate}
    (ha : Aware (info, h)) (hcons : Consistent info h.sched (.migrate e))
    (hclock : h.sched.clock ≤ e.now) (hknown : CurrKnown info h (.migrate e)) :
    BlamesRight info h (.migrate e) := by
  show ∀ c ∈ (probeSchedMigrateTask info e).2, Blames h info.pid e.now c
  by_cases hignored : e.p.pid ≠ info.pid ∨ info.cpu = invalidCpu
  · rw [migrate_ignored hignored]
    exact fun _ hc => absurd hc List.not_mem_nil
  obtain ⟨hp, hwatch⟩ := not_or.mp hignored
  have hp : e.p.pid = info.pid := not_not.mp hp
  cases hcurr : info.curr with
  | none =>
      have hnone : (probeSchedMigrateTask info e).2 = [] := by
        unfold probeSchedMigrateTask
        rw [if_neg hignored, hcurr]
      rw [hnone]
      exact fun _ hc => absurd hc List.not_mem_nil
  | some curr =>
      have hcalls : (probeSchedMigrateTask info e).2
          = (recordSince info { curr with comm := e.currComm } e.now).2 := by
        unfold probeSchedMigrateTask
        rw [if_neg hignored, hcurr]
      have hpid : info.pid ≠ invalidPid := by
        intro heq
        have hnone : info.curr = none := ha.sound.wf.no_curr heq
        rw [hcurr] at hnone
        exact absurd hnone (by simp)
      have hqueued : h.sched.task info.pid = .queued info.cpu := by
        rcases ha.placed.place hpid hwatch with hq | hr
        · exact hq
        · have hr' : h.sched.task info.pid = .running info.cpu := hr
          have hnot := hcons.2.2 ⟨hpid, hp⟩
          rw [hp, hr'] at hnot
          exact absurd hnot (by simp [TaskState.isRunning])
      have hk : WaitKnown info h := ha.waiting hpid hwatch hqueued
      -- the last switch on this queue's CPU has set `curr` to the task that is current there
      have hfresh : curr.pid = h.cur info.cpu := by
        rcases hknown ⟨hpid, hp⟩ hwatch with hnone | hany
        · rw [hcurr] at hnone
          exact absurd hnone (by simp)
        · rw [hp, Option.any_eq_true] at hany
          obtain ⟨next, hlast, hidle⟩ := hany
          obtain ⟨q, hq, hqcur⟩ := hk.curr next hlast (by simpa using hidle)
          rw [hcurr] at hq
          rw [Option.some_inj.mp hq]
          exact hqcur
      rw [hcalls]
      intro c hc
      rw [mem_recordSince hc]
      exact hk.blames hqueued hclock hfresh rfl

/-! ## Whole runs -/

/-- The tracer with the history of the CPUs. -/
def blameStep : Info × BlameHistory → Event → Info × BlameHistory :=
  observe step BlameHistory.next

theorem Aware.since_le_next {info : Info} {h : BlameHistory} {e : Event} (ha : Aware (info, h))
    (hclock : ClockForward h.sched e) (cpu : Int) :
    (h.next info e).since cpu ≤ (h.next info e).sched.clock := by
  cases e with
  | wakeup e => exact UInt64.le_trans (ha.since_le cpu) hclock
  | migrate e => exact UInt64.le_trans (ha.since_le cpu) hclock
  | tracePid pid => exact ha.since_le cpu
  | threshold threshold => exact ha.since_le cpu
  | schedSwitch e =>
      show Function.update h.since e.cpu e.now cpu ≤ e.now
      by_cases hcpu : cpu = e.cpu
      · rw [hcpu, Function.update_self]
        exact UInt64.le_refl _
      · rw [Function.update_of_ne hcpu]
        exact UInt64.le_trans (ha.since_le cpu) hclock

/-- **What one step preserves.** -/
theorem Aware.step {w : Info × BlameHistory} {e : Event} (ha : Aware w)
    (hok : Scheduled w.1 w.2 e) : Aware (blameStep w e) := by
  obtain ⟨info, h⟩ := w
  obtain ⟨hcons, hclock, hone⟩ := id hok
  have hsound := ha.sound.step e
  have hplaced := ha.placed.step hcons
  have hsince := ha.since_le_next hclock
  cases e with
  | wakeup e => exact ⟨hsound, hplaced, hsince, ha.wakeup hclock⟩
  | schedSwitch e => exact ⟨hsound, hplaced, hsince, ha.schedSwitch hok⟩
  | migrate e => exact ⟨hsound, hplaced, hsince, ha.migrate hclock⟩
  | tracePid pid =>
      refine ⟨hsound, hplaced, hsince, ?_⟩
      show (tracePidStore info pid).2.pid ≠ _ → (tracePidStore info pid).2.cpu ≠ _ →
        h.sched.task (tracePidStore info pid).2.pid = .queued (tracePidStore info pid).2.cpu →
          WaitKnown (tracePidStore info pid).2 h
      rcases tracePid_cases info pid with ⟨hsame, _⟩ | ⟨hstop, _⟩ | ⟨_, _, hstart, _⟩
      · rw [hsame]
        exact ha.waiting
      · rw [hstop]
        exact fun _ hwatch => absurd rfl hwatch
      · rw [hstart]
        exact fun _ hwatch => absurd rfl hwatch
  | threshold threshold =>
      refine ⟨hsound, hplaced, hsince, ?_⟩
      cases threshold with
      | none => exact ha.waiting
      | some _ =>
          intro hpid hwatch hqueued
          have hk := ha.waiting hpid hwatch hqueued
          exact ⟨hk.since_le, hk.arrived_le, hk.runStart_le, hk.curr⟩

theorem Aware.blamesRight {w : Info × BlameHistory} {e : Event} (ha : Aware w)
    (hok : Scheduled w.1 w.2 e) (hknown : CurrKnown w.1 w.2 e) : BlamesRight w.1 w.2 e := by
  cases e with
  | schedSwitch e => exact ha.blames_schedSwitch hok
  | migrate e => exact ha.blames_migrate hok.1 hok.2.1 hknown
  | wakeup e => exact fun _ hc => absurd hc List.not_mem_nil
  | tracePid pid => exact fun _ hc => absurd hc List.not_mem_nil
  | threshold threshold => exact fun _ hc => absurd hc List.not_mem_nil

theorem aware_start (s : Sched) (cur : Int → Int) :
    Aware (Info.init, BlameHistory.start s cur) where
  sound := sound_init
  placed := placed_of_unwatched (.inl rfl)
  since_le := fun _ => UInt64.zero_le
  waiting := fun hpid => absurd rfl hpid

/-- **When the right task is blamed.** In every run that fits the scheduler, with any number of
migrations, every task entry names the task that was current on the traced task's CPU during
the time charged to it, if each migration finds `curr` empty or fresh. -/
theorem blames_right_of_known (s : Sched) (cur : Int → Int) (es : List Event)
    (hok : Steps blameStep (fun w e => Scheduled w.1 w.2 e)
      (Info.init, BlameHistory.start s cur) es)
    (hknown : Steps blameStep (fun w e => CurrKnown w.1 w.2 e)
      (Info.init, BlameHistory.start s cur) es) :
    Steps blameStep (fun w e => BlamesRight w.1 w.2 e)
      (Info.init, BlameHistory.start s cur) es :=
  Steps.of_inv (fun _ _ ha hc => Aware.step ha hc.1)
    (fun _ _ ha hc => Aware.blamesRight ha hc.1 hc.2) (aware_start s cur) (hok.and hknown)

/-! ### Migrations of a waiting task

Pid 7 runs on CPU 0, task 2 on CPU 1 and task 3 on CPU 2. Pid 7 is preempted by task 1. -/

def sevenRuns : Sched where
  clock := 0
  task := fun pid => if pid = 7 then .running 0 else .sleeping
  enqueued := fun _ => 0

def threeCpus (cpu : Int) : Int := if cpu = 0 then 7 else if cpu = 1 then 2 else 3

/-- Pid 7 is moved to CPU 1 and on to CPU 2, with no switch on CPU 1 in between. -/
def movedTwice : List Event :=
  [.tracePid (some 7), .schedSwitch ⟨1, 0, runnable 7, runnable 1⟩,
    .migrate ⟨2, runnable 7, 1, Comm.empty⟩, .migrate ⟨3, runnable 7, 2, Comm.empty⟩]

/-- **The wrong task is blamed.** The second migration charges the time on CPU 1 to task 1, which
is current on CPU 0. -/
theorem stale_curr_blames_wrong :
    Steps blameStep (fun w e => Scheduled w.1 w.2 e)
        (Info.init, BlameHistory.start sevenRuns threeCpus) movedTwice ∧
      ¬ Steps blameStep (fun w e => BlamesRight w.1 w.2 e)
        (Info.init, BlameHistory.start sevenRuns threeCpus) movedTwice := by
  constructor <;> decide

/-- Pid 7 is moved to CPU 1, where task 2 gives way to task 4, and then on to CPU 2, where it is
switched in. -/
def movedAfterSwitch : List Event :=
  [.tracePid (some 7), .schedSwitch ⟨1, 0, runnable 7, runnable 1⟩,
    .migrate ⟨2, runnable 7, 1, Comm.empty⟩, .schedSwitch ⟨3, 1, runnable 2, runnable 4⟩,
    .migrate ⟨5, runnable 7, 2, Comm.empty⟩, .schedSwitch ⟨6, 2, runnable 3, runnable 7⟩]

theorem blames_right_movedAfterSwitch :
    ((List.range 4).map fun k => ((run blameStep
        (Info.init, BlameHistory.start sevenRuns threeCpus) movedAfterSwitch).1.taskEntries k).pid)
        = [1, 2, 4, 3] ∧
      Steps blameStep (fun w e => BlamesRight w.1 w.2 e)
        (Info.init, BlameHistory.start sevenRuns threeCpus) movedAfterSwitch :=
  ⟨by decide, blames_right_of_known sevenRuns threeCpus movedAfterSwitch (by decide) (by decide)⟩

end UioLinuxSample.Runqlat
