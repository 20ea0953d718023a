import UioLinuxSample.Runqlat.Effects
import UioLinuxSample.Runqlat.Disabled

set_option autoImplicit false

/-! # The tracer on many CPUs

The probes run on all CPUs at once, and any number of writers of the `pid` file beside them.
All of them look at the tracer before they take `info->lock`, and act on it under the lock.

* The probes read `pid` and `cpu` several times without the lock, so that each read may see
  another state, and look again under the lock. What they do is then nothing, or what the probe
  does when it runs alone (`probes_linearizable`): the probes are atomic steps.
* `trace_pid_store` refuses a new pid while a session is on, but only before it takes the lock.
  Of two writers that both find the tracer free, the second one replaces the session of the
  first (`session_kept_iff`).
-/

namespace UioLinuxSample.Runqlat

open Run

/-! ## Probes that read without the lock -/

inductive Probe where
  | wakeup (e : Wakeup)
  | schedSwitch (e : Switch)
  | migrate (e : Migrate)

/-- The probe as one atomic step. -/
def Probe.event : Probe → Event
  | .wakeup e => .wakeup e
  | .schedSwitch e => .schedSwitch e
  | .migrate e => .migrate e

/-- `probe_sched_wakeup`; the `i`-th unlocked read of it sees the state `seen i`, and `info` is
the state when the lock is taken. -/
def probeSchedWakeupUnlocked (seen : Nat → Info) (info : Info) (e : Wakeup) : Info :=
  if e.p.pid ≠ (seen 0).pid then info
  else if e.p.pid ≠ info.pid then info
  else { info with rqStart := e.now, runStart := e.now, cpu := e.p.cpu }

/-- `probe_sched_switch`. -/
def probeSchedSwitchUnlocked (seen : Nat → Info) (info : Info) (e : Switch) : Info :=
  if (seen 0).pid = invalidPid then info
  else if (seen 1).cpu ≠ invalidCpu ∧ (seen 2).cpu ≠ e.cpu then info
  else if (seen 3).cpu = invalidCpu then
    if (seen 4).pid ≠ e.prev.pid ∨ e.prev.state ≠ taskRunning then info
    -- under the lock, `prev->state` is not tested again
    else if info.cpu ≠ invalidCpu ∨ info.pid ≠ e.prev.pid then info
    else updateCurr { info with rqStart := e.now, runStart := e.now, cpu := e.prev.cpu } e.next
  else if (seen 4).cpu ≠ e.cpu ∨ (seen 5).pid = invalidPid then info
  else if info.cpu ≠ e.cpu ∨ info.pid = invalidPid then info
  else (watchedSwitch info e).1

/-- `probe_sched_migrate_task`. -/
def probeSchedMigrateTaskUnlocked (seen : Nat → Info) (info : Info) (e : Migrate) : Info :=
  if e.p.pid ≠ (seen 0).pid ∨ (seen 1).cpu = invalidCpu then info
  else if e.p.pid ≠ info.pid ∨ info.cpu = invalidCpu then info
  else
    let r :=
      match info.curr with
      | some curr => recordSince info { curr with comm := e.currComm } e.now
      | none => (info, [])
    { r.1 with cpu := e.cpu, runStart := e.now }

def Probe.unlocked (seen : Nat → Info) (info : Info) : Probe → Info
  | .wakeup e => probeSchedWakeupUnlocked seen info e
  | .schedSwitch e => probeSchedSwitchUnlocked seen info e
  | .migrate e => probeSchedMigrateTaskUnlocked seen info e

/-- The task pids and the CPU numbers of the event are not negative. -/
def Probe.NonNeg : Probe → Prop
  | .wakeup e => 0 ≤ e.p.pid ∧ 0 ≤ e.p.cpu
  | .schedSwitch e => 0 ≤ e.cpu ∧ 0 ≤ e.prev.pid ∧ 0 ≤ e.next.pid ∧ 0 ≤ e.prev.cpu
  | .migrate e => 0 ≤ e.p.pid ∧ 0 ≤ e.cpu

instance : ∀ p : Probe, Decidable p.NonNeg
  | .wakeup _ => inferInstanceAs (Decidable (_ ∧ _))
  | .schedSwitch _ => inferInstanceAs (Decidable (_ ∧ _))
  | .migrate _ => inferInstanceAs (Decidable (_ ∧ _))

theorem ne_invalidPid_of_nonneg {pid : Int} (h : 0 ≤ pid) : pid ≠ invalidPid := by
  have hinv : invalidPid = -1 := rfl
  omega

theorem ne_invalidCpu_of_nonneg {cpu : Int} (h : 0 ≤ cpu) : cpu ≠ invalidCpu := by
  have hinv : invalidCpu = -1 := rfl
  omega

section Reads

variable (seen : Nat → Info) (info : Info)

theorem wakeup_linearizable (e : Wakeup) :
    probeSchedWakeupUnlocked seen info e = info
      ∨ probeSchedWakeupUnlocked seen info e = probeSchedWakeup info e := by
  unfold probeSchedWakeupUnlocked
  split
  · exact .inl rfl
  · exact .inr rfl

/-- Each of the two tests under the lock is enough for the body it guards: the state is one in
which the probe, run alone, gets to the same body. -/
theorem schedSwitch_linearizable {e : Switch} (hcpu : 0 ≤ e.cpu) (hprev : 0 ≤ e.prev.pid) :
    probeSchedSwitchUnlocked seen info e = info
      ∨ probeSchedSwitchUnlocked seen info e = (probeSchedSwitch info e).1 := by
  unfold probeSchedSwitchUnlocked
  split
  · exact .inl rfl
  split
  · exact .inl rfl
  split
  · split
    · exact .inl rfl
    · next hstart =>
        split
        · exact .inl rfl
        · next hlocked =>
            right
            obtain ⟨-, hstate⟩ := not_or.mp hstart
            obtain ⟨hunwatched, hpid⟩ := not_or.mp hlocked
            rw [not_not] at hstate hunwatched hpid
            unfold probeSchedSwitch
            rw [if_neg (hpid ▸ ne_invalidPid_of_nonneg hprev),
              if_neg (fun hand => hand.1 hunwatched), if_pos hunwatched,
              if_neg (not_or.mpr ⟨not_not.mpr hpid, not_not.mpr hstate⟩)]
  · split
    · exact .inl rfl
    · split
      · exact .inl rfl
      · next hlocked =>
          right
          obtain ⟨hsame, hpid⟩ := not_or.mp hlocked
          rw [not_not] at hsame
          unfold probeSchedSwitch
          rw [if_neg hpid, if_neg (fun hand => hand.2 hsame),
            if_neg (hsame ▸ ne_invalidCpu_of_nonneg hcpu)]

theorem migrate_linearizable (e : Migrate) :
    probeSchedMigrateTaskUnlocked seen info e = info
      ∨ probeSchedMigrateTaskUnlocked seen info e = (probeSchedMigrateTask info e).1 := by
  unfold probeSchedMigrateTaskUnlocked
  split
  · exact .inl rfl
  · right
    unfold probeSchedMigrateTask
    split <;> rfl

/-- Reads that all see `info` lead to what the probe does alone. -/
theorem schedSwitch_fresh (e : Switch) :
    probeSchedSwitchUnlocked (fun _ => info) info e = (probeSchedSwitch info e).1 := by
  unfold probeSchedSwitchUnlocked probeSchedSwitch
  by_cases hpid : info.pid = invalidPid
  · rw [if_pos hpid, if_pos hpid]
  rw [if_neg hpid, if_neg hpid]
  by_cases hother : info.cpu ≠ invalidCpu ∧ info.cpu ≠ e.cpu
  · rw [if_pos hother, if_pos hother]
  rw [if_neg hother, if_neg hother]
  by_cases hunwatched : info.cpu = invalidCpu
  · rw [if_pos hunwatched, if_pos hunwatched]
    by_cases hstart : info.pid ≠ e.prev.pid ∨ e.prev.state ≠ taskRunning
    · rw [if_pos hstart, if_pos hstart]
    · obtain ⟨hprev, -⟩ := not_or.mp hstart
      rw [if_neg hstart, if_neg hstart, if_neg (not_or.mpr ⟨not_not.mpr hunwatched, hprev⟩)]
  · have hlocked : ¬ (info.cpu ≠ e.cpu ∨ info.pid = invalidPid) :=
      not_or.mpr ⟨fun hne => hother ⟨hunwatched, hne⟩, hpid⟩
    rw [if_neg hunwatched, if_neg hunwatched, if_neg hlocked, if_neg hlocked]

theorem wakeup_fresh (e : Wakeup) :
    probeSchedWakeupUnlocked (fun _ => info) info e = probeSchedWakeup info e := by
  unfold probeSchedWakeupUnlocked probeSchedWakeup
  split <;> rfl

theorem migrate_fresh (e : Migrate) :
    probeSchedMigrateTaskUnlocked (fun _ => info) info e = (probeSchedMigrateTask info e).1 := by
  unfold probeSchedMigrateTaskUnlocked probeSchedMigrateTask
  split <;> rfl

end Reads

theorem Probe.unlocked_eq_or (seen : Nat → Info) (info : Info) (p : Probe) (h : p.NonNeg) :
    p.unlocked seen info = info ∨ p.unlocked seen info = step info p.event := by
  cases p with
  | wakeup e => exact wakeup_linearizable seen info e
  | schedSwitch e => exact schedSwitch_linearizable seen info h.1 h.2.1
  | migrate e => exact migrate_linearizable seen info e

/-- **The probes are atomic.** Whatever states its unlocked reads see, a probe that takes the
lock in the state `info` leaves `info` as it is, or does what it does when it runs alone in
`info`; and that is what it does if its reads all see `info`. -/
theorem probes_linearizable (seen : Nat → Info) (info : Info) (p : Probe) (h : p.NonNeg) :
    (p.unlocked seen info = info ∨ p.unlocked seen info = step info p.event)
      ∧ p.unlocked (fun _ => info) info = step info p.event := by
  refine ⟨p.unlocked_eq_or seen info h, ?_⟩
  cases p with
  | wakeup e => exact wakeup_fresh info e
  | schedSwitch e => exact schedSwitch_fresh info e
  | migrate e => exact migrate_fresh info e

/-- A switch that finds CPU 3 watched by a stale read, and is too late. -/
theorem probes_linearizable_stale :
    (Probe.schedSwitch ⟨5, 3, runnable 1, runnable 7⟩).NonNeg ∧
      ((Probe.schedSwitch ⟨5, 3, runnable 1, runnable 7⟩).unlocked
          (fun _ => { Info.init with pid := 7, cpu := 3 }) Info.init = Info.init
        ∨ (Probe.schedSwitch ⟨5, 3, runnable 1, runnable 7⟩).unlocked
            (fun _ => { Info.init with pid := 7, cpu := 3 }) Info.init
          = step Info.init (Probe.schedSwitch ⟨5, 3, runnable 1, runnable 7⟩).event) :=
  ⟨by decide, (probes_linearizable _ _ _ (by decide)).1⟩

/-- A probe with the states its unlocked reads see. -/
structure Raced where
  probe : Probe
  seen : Nat → Info

def racedStep (info : Info) (r : Raced) : Info := r.probe.unlocked r.seen info

/-- Every run of probes that race is a run of atomic probes, with some of them left out. -/
theorem raced_run_atomic (info : Info) (rs : List Raced) (h : ∀ r ∈ rs, r.probe.NonNeg) :
    ∃ ps : List Probe, ps.Sublist (rs.map Raced.probe)
      ∧ run racedStep info rs = run step info (ps.map Probe.event) := by
  induction rs generalizing info with
  | nil => exact ⟨[], List.Sublist.refl _, rfl⟩
  | cons r rs ih =>
      obtain ⟨ps, hsub, hrun⟩ :=
        ih (racedStep info r) fun r' hr' => h r' (List.mem_cons_of_mem _ hr')
      rcases r.probe.unlocked_eq_or r.seen info (h r List.mem_cons_self) with hskip | hdo
      · refine ⟨ps, hsub.cons _, ?_⟩
        rw [run_cons, hrun, show racedStep info r = info from hskip]
      · refine ⟨r.probe :: ps, hsub.cons_cons _, ?_⟩
        rw [run_cons, hrun, show racedStep info r = _ from hdo]
        rfl

/-- So what holds of every state that atomic probes reach holds under races: the arrays are laid
out as the tracer assumes. -/
theorem raced_sound {info : Info} (hs : Sound info) (rs : List Raced)
    (h : ∀ r ∈ rs, r.probe.NonNeg) : Sound (run racedStep info rs) := by
  obtain ⟨ps, -, hrun⟩ := raced_run_atomic info rs h
  rw [hrun]
  exact inv_run (fun _ e hs _ => hs.step e) hs (Steps.of_forall fun _ _ => trivial)

/-! ## Requests for a session -/

/-- The check `trace_pid_store` makes without the lock; `false` is `-EPERM`. -/
def tracePidCheck (info : Info) (pid : Int) : Bool :=
  !decide (info.pid ≠ invalidPid ∧ pid ≠ invalidPid)

/-- The part of `trace_pid_store` under the lock. -/
def tracePidLocked (info : Info) (pid : Int) : Info :=
  if info.pid = pid then info
  else
    let info := if pid ≠ invalidPid then sessionClear info else info
    { runqlatInfoReset info with pid := pid }

/-- Run without interruption, the two parts are `trace_pid_store`. -/
theorem tracePidStore_eq (info : Info) (pid : Int) :
    tracePidStore info (some pid)
      = if tracePidCheck info pid then (.ok (), tracePidLocked info pid)
        else (.error .eperm, info) := by
  unfold tracePidStore tracePidCheck tracePidLocked
  by_cases hactive : info.pid ≠ invalidPid ∧ pid ≠ invalidPid
  · simp [hactive]
  · by_cases hsame : info.pid = pid
    · simp [hsame]
    · simp [hactive, hsame]

/-- The tracer, and the requests that are past their check, each with the thread that made it. -/
structure Requests where
  info : Info
  checked : Nat → Option Int

def Requests.init : Requests := ⟨Info.init, fun _ => none⟩

inductive Action where
  | probe (p : Probe)
  | threshold (threshold : Option UInt64)
  /-- Thread `t` makes a request and its check. -/
  | check (t : Nat) (pid : Int)
  /-- Thread `t` takes the lock for its request. -/
  | lock (t : Nat)

def Requests.next (w : Requests) : Action → Requests
  | .probe p => { w with info := step w.info p.event }
  | .threshold threshold => { w with info := (thresholdStore w.info threshold).2 }
  | .check t pid =>
      if (w.checked t).isNone ∧ tracePidCheck w.info pid then
        { w with checked := Function.update w.checked t (some pid) }
      else w
  | .lock t =>
      match w.checked t with
      | none => w
      | some pid =>
          { info := tracePidLocked w.info pid, checked := Function.update w.checked t none }

/-- The calls of `record_task` and `record_task_commit` that an action makes. -/
def Requests.calls (w : Requests) : Action → List Call
  | .probe p => Runqlat.calls w.info p.event
  | _ => []

/-- The action is one that may end a session: the locked section of a request for
`INVALID_PID`, or a probe that fills an array. -/
def Requests.EndsSession (w : Requests) : Action → Prop
  | .probe p => ∃ c ∈ Runqlat.calls w.info p.event, c.Fills
  | .lock t => w.checked t = some invalidPid
  | _ => False

/-- If a session is on, its pid stays, unless the action ends the session; and its data are
changed by recording only. -/
def Requests.SessionKept (w : Requests) (a : Action) : Prop :=
  w.info.pid ≠ invalidPid →
    ((w.next a).info.pid = w.info.pid
        ∨ ((w.next a).info.pid = invalidPid ∧ w.EndsSession a))
      ∧ Effect w.info (w.calls a) (w.next a).info

/-- A request that takes the lock would pass its check now, or asks for the pid that is traced
already. -/
def Requests.StillAllowed (w : Requests) : Action → Prop
  | .lock t => ∀ pid ∈ w.checked t, tracePidCheck w.info pid = true ∨ w.info.pid = pid
  | _ => True

/-! ## What ends a session -/

/-- The pid stays, or a call has filled an array and disabled the tracer. -/
def PidKept (info : Info) (r : Info × List Call) : Prop :=
  r.1.pid = info.pid ∨ (r.1.pid = invalidPid ∧ ∃ c ∈ r.2, c.Fills)

theorem pidKept_recordSince (info : Info) (p : TaskStruct) (now : UInt64) :
    PidKept info (recordSince info p now) := by
  unfold recordSince
  split
  · rcases recordTask_last info p (now - info.runStart) with ⟨hlast, hreset⟩ | ⟨-, hsame⟩
    · exact .inr ⟨hreset.pid, _, List.mem_singleton_self _, hlast⟩
    · exact .inl hsame.pid
  · exact .inl rfl

/-- The switch-in makes two calls, and either may be the one that disables the tracer. -/
theorem PidKept.commit {info : Info} {r : Info × List Call} (h : PidKept info r)
    (latency : UInt64) :
    PidKept info ((recordTaskCommit r.1 latency).2, r.2 ++ [.recordTaskCommit r.1 latency]) := by
  rcases recordTaskCommit_last r.1 latency with ⟨hfills, hreset⟩ | hsame
  · exact .inr ⟨hreset.pid, _, List.mem_append_right _ (List.mem_singleton_self _), hfills⟩
  · rcases h with hpid | ⟨hpid, c, hc, hfills⟩
    · exact .inl (hsame.pid.trans hpid)
    · exact .inr ⟨hsame.pid.trans hpid, c, List.mem_append_left _ hc, hfills⟩

theorem pidKept_watchedSwitch (info : Info) (e : Switch) :
    PidKept info (watchedSwitch info e) := by
  have hcurr : (updateCurr info e.next).pid = info.pid := updateCurr_pid info e.next
  have hsince : PidKept info (recordSince (updateCurr info e.next) e.prev e.now) := by
    have hkept := pidKept_recordSince (updateCurr info e.next) e.prev e.now
    unfold PidKept at hkept
    rwa [hcurr] at hkept
  unfold watchedSwitch
  dsimp only
  split
  · exact hsince.commit _
  · split
    · split
      · exact .inl hcurr
      · exact .inl hcurr
    · exact hsince

theorem pidKept_schedSwitch (info : Info) (e : Switch) :
    PidKept info (probeSchedSwitch info e) := by
  unfold probeSchedSwitch
  split
  · exact .inl rfl
  · split
    · exact .inl rfl
    · split
      · split
        · exact .inl rfl
        · exact .inl (updateCurr_pid _ e.next)
      · exact pidKept_watchedSwitch info e

theorem pidKept_migrate (info : Info) (e : Migrate) :
    PidKept info (probeSchedMigrateTask info e) := by
  unfold probeSchedMigrateTask
  split
  · exact .inl rfl
  · cases info.curr with
    | none => exact .inl rfl
    | some curr => exact pidKept_recordSince info _ e.now

/-- **A probe ends a session only by filling an array.** -/
theorem Probe.pidKept (info : Info) (p : Probe) :
    PidKept info (step info p.event, Runqlat.calls info p.event) := by
  cases p with
  | wakeup e =>
      left
      show (probeSchedWakeup info e).pid = info.pid
      unfold probeSchedWakeup
      split <;> rfl
  | schedSwitch e => exact pidKept_schedSwitch info e
  | migrate e => exact pidKept_migrate info e

theorem Probe.effect (info : Info) (p : Probe) :
    Effect info (Runqlat.calls info p.event) (step info p.event) := by
  apply step_effect
  cases p <;> rfl

/-! ## The locked section -/

/-- The locked section does not look at the session that is on: it replaces its pid. -/
theorem tracePidLocked_replaces {info : Info} {pid : Int} (hne : info.pid ≠ pid) :
    (tracePidLocked info pid).pid = pid := by
  unfold tracePidLocked
  rw [if_neg hne]

/-- A request for `INVALID_PID` keeps all that was recorded. -/
theorem tracePidLocked_invalid (info : Info) :
    (tracePidLocked info invalidPid).pid = invalidPid
      ∧ SameData info (tracePidLocked info invalidPid) := by
  unfold tracePidLocked
  split
  · next heq => exact ⟨heq, rfl, rfl, rfl, rfl, rfl, rfl⟩
  · exact ⟨rfl, rfl, rfl, rfl, rfl, rfl, rfl⟩

theorem tracePidLocked_same (info : Info) : tracePidLocked info info.pid = info := by
  unfold tracePidLocked
  rw [if_pos rfl]

theorem tracePidCheck_iff {info : Info} (hon : info.pid ≠ invalidPid) (pid : Int) :
    tracePidCheck info pid = true ↔ pid = invalidPid := by
  unfold tracePidCheck
  simp [hon]

theorem tracePidCheck_of_free {info : Info} (hoff : info.pid = invalidPid) (pid : Int) :
    tracePidCheck info pid = true := by
  unfold tracePidCheck
  simp [hoff]

/-- While a session is on, a request that is past its check keeps it only if it would pass the
check again. -/
theorem sessionKept_lock_iff (w : Requests) (t : Nat) (hon : w.info.pid ≠ invalidPid) :
    w.SessionKept (.lock t) ↔ w.StillAllowed (.lock t) := by
  refine (imp_iff_right hon).trans ?_
  unfold Requests.StillAllowed Requests.next Requests.EndsSession Requests.calls
  dsimp only
  cases hchecked : w.checked t with
  | none => exact iff_of_true ⟨.inl rfl, .refl _⟩ (by simp)
  | some pid =>
      rw [show (∀ q ∈ some pid, tracePidCheck w.info q = true ∨ w.info.pid = q)
        ↔ (pid = invalidPid ∨ w.info.pid = pid) by simp [tracePidCheck_iff hon]]
      by_cases hstop : pid = invalidPid
      · subst hstop
        obtain ⟨hpid, hdata⟩ := tracePidLocked_invalid w.info
        exact iff_of_true ⟨.inr ⟨hpid, rfl⟩, .control hdata⟩ (.inl rfl)
      · by_cases hsame : w.info.pid = pid
        · subst hsame
          dsimp only
          rw [tracePidLocked_same]
          exact iff_of_true ⟨.inl rfl, .refl _⟩ (.inr rfl)
        · refine iff_of_false ?_ (not_or.mpr ⟨hstop, hsame⟩)
          have hpid := tracePidLocked_replaces hsame
          rintro ⟨hkept | ⟨hinvalid, -⟩, -⟩
          · exact hsame (hkept.symm.trans hpid)
          · exact hstop (hpid.symm.trans hinvalid)

theorem sessionKept_iff_stillAllowed (w : Requests) (a : Action) :
    w.SessionKept a ↔ w.StillAllowed a := by
  cases a with
  | probe p => exact iff_of_true (fun _ => ⟨p.pidKept w.info, p.effect w.info⟩) trivial
  | threshold threshold =>
      refine iff_of_true (fun _ => ⟨.inl ?_, .control (sameData_threshold _ _)⟩) trivial
      cases threshold <;> rfl
  | check t pid =>
      refine iff_of_true (fun _ => ?_) trivial
      unfold Requests.next
      dsimp only
      split <;> exact ⟨.inl rfl, .refl _⟩
  | lock t =>
      by_cases hon : w.info.pid = invalidPid
      · exact iff_of_true (fun hne => absurd hon hne)
          fun pid _ => .inl (tracePidCheck_of_free hon pid)
      · exact sessionKept_lock_iff w t hon

/-! ## Whole runs -/

/-- **When a running session is never replaced.** In any interleaving of requests with each other
and with the probes, a session ends only by a request for `INVALID_PID` or by a full array, and
its data are only added to, if and only if every request would still pass its check when it
takes the lock. -/
theorem session_kept_iff (as : List Action) :
    Steps Requests.next Requests.SessionKept Requests.init as
      ↔ Steps Requests.next Requests.StillAllowed Requests.init as := by
  constructor
  · exact Steps.mono fun w a => (sessionKept_iff_stillAllowed w a).mp
  · exact Steps.mono fun w a => (sessionKept_iff_stillAllowed w a).mpr

/-- Two writers find the tracer free; the first one starts a session for pid 5. -/
def twoWriters : List Action := [.check 0 5, .check 1 6, .lock 0, .lock 1]

/-- The second writer replaces the session of pid 5 by one for pid 6. -/
theorem session_replaced :
    ¬ Steps Requests.next Requests.SessionKept Requests.init twoWriters := by
  intro h
  rcases (h.2.2.2.1 (by decide)).1 with hkept | ⟨hended, -⟩
  · exact absurd hkept (by decide)
  · exact absurd hended (by decide)

end UioLinuxSample.Runqlat
