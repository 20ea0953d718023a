import UioLinuxSample.Runqlat.Effects
import UioLinuxSample.Runqlat.Scheduler

set_option autoImplicit false

/-! # Are the reported latencies true?

A latency is true if it is the time between the switch that brings the traced task onto a CPU
and the event that last enqueued it. `rq_start` is that time as long as the task waits
(`Placed.waiting`), but the switch-in calls `record_task` before it computes the latency, and
`record_task` resets `rq_start` when it fills the last task entry. The latency is then the whole
clock value. This is the only way to a false latency (`latencyTrue_iff_notFull`).
-/

namespace UioLinuxSample.Runqlat

open Run

/-! ## Latencies and their true values -/

/-- The latency passed to `record_task_commit`, and by it to `latency_histogram_store`. -/
def Call.latency? : Call → Option UInt64
  | .recordTask _ _ _ => none
  | .recordTaskCommit _ latency => some latency

/-- The latency of a commit that keeps its trace entry. -/
def Call.kept? : Call → Option UInt64
  | .recordTask _ _ _ => none
  | .recordTaskCommit info latency =>
      if info.openEntry.nrTasks ≠ 0 ∧ latency ≥ info.threshold then some latency else none

/-- The clock reading of an event. -/
def Event.time : Event → UInt64
  | .wakeup e => e.now
  | .schedSwitch e => e.now
  | .migrate e => e.now
  | _ => 0

/-- How long the traced task has waited. -/
def trueLatency (info : Info) (s : Sched) (e : Event) : UInt64 :=
  e.time - s.enqueued info.pid

/-- The scheduler, and the true latencies of the trace entries kept in this session. -/
structure LatencyHistory where
  sched : Sched
  truths : List UInt64

def LatencyHistory.next (h : LatencyHistory) (info : Info) (e : Event) : LatencyHistory where
  sched := h.sched.next e
  truths :=
    if startsSession info e then []
    else h.truths ++ ((calls info e).filterMap Call.kept?).map fun _ => trueLatency info h.sched e

/-- The latencies of the committed trace entries. -/
def storedLatencies (info : Info) : List UInt64 :=
  (List.range info.nrTrace).map fun i => (info.traceEntries i).latency

/-- Every latency that the step reports is true. -/
def LatencyTrue (info : Info) (s : Sched) (e : Event) : Prop :=
  ∀ latency ∈ (calls info e).filterMap Call.latency?, latency = trueLatency info s e

instance (info : Info) (s : Sched) (e : Event) : Decidable (LatencyTrue info s e) :=
  inferInstanceAs (Decidable (∀ latency ∈ _, _))

/-- The step is not a switch-in of the watched task that takes the last task entry. -/
def NotFull (info : Info) : Event → Prop
  | .schedSwitch e =>
      ¬ (info.pid ≠ invalidPid ∧ info.cpu = e.cpu ∧ info.pid = e.next.pid ∧
        info.nrTask + 1 = maxTraceEntryTasks)
  | _ => True

instance (info : Info) : ∀ e : Event, Decidable (NotFull info e)
  | .schedSwitch _ => inferInstanceAs (Decidable (¬ _))
  | .wakeup _ => inferInstanceAs (Decidable True)
  | .migrate _ => inferInstanceAs (Decidable True)
  | .tracePid _ => inferInstanceAs (Decidable True)
  | .threshold _ => inferInstanceAs (Decidable True)

/-! ## The one false latency -/

/-- A call of `record_task` alone reports no latency. -/
theorem recordSince_latencies (info : Info) (p : TaskStruct) (now : UInt64) :
    (recordSince info p now).2.filterMap Call.latency? = [] := by
  unfold recordSince
  split <;> rfl

theorem chargePrev_latencies (info : Info) (e : Switch) :
    (chargePrev info e).2.filterMap Call.latency? = [] :=
  recordSince_latencies _ _ _

theorem migrate_latencies (info : Info) (e : Migrate) :
    (probeSchedMigrateTask info e).2.filterMap Call.latency? = [] := by
  unfold probeSchedMigrateTask
  split
  · rfl
  · cases info.curr with
    | none => rfl
    | some curr => exact recordSince_latencies _ _ _

/-- **The latency of a switch-in** is true, unless `record_task` has just used the last entry. -/
theorem switchIn_latency {info : Info} {s : Sched} {e : Switch} (hsound : Sound info)
    (h : Placed info s) (hpid : info.pid ≠ invalidPid) (hwatch : info.cpu ≠ invalidCpu)
    (hqueued : s.task info.pid = .queued info.cpu) :
    (e.now - (chargePrev info e).1.rqStart
        = e.now - s.enqueued info.pid)
      ↔ info.nrTask + 1 ≠ maxTraceEntryTasks := by
  obtain ⟨hrq, hpos, hrun⟩ := h.waiting hpid hwatch hqueued
  have hlt := (hsound.wf.strict hpid).2
  unfold chargePrev
  rw [recordSince_of_ne (by rwa [updateCurr_runStart])]
  by_cases hfull : info.nrTask + 1 = maxTraceEntryTasks
  · -- `rq_start` has been reset to 0
    rw [recordTask_of_full (by rwa [updateCurr_nrTask])]
    show (e.now - 0 = _) ↔ _
    rw [← hrq]
    refine ⟨fun heq => absurd ?_ hpos, fun hne => absurd hfull hne⟩
    grind
  · rw [recordTask_of_lt (by rw [updateCurr_nrTask]; omega)]
    show (e.now - (updateCurr info e.next).rqStart = _) ↔ _
    rw [updateCurr_rqStart, hrq]
    exact ⟨fun _ => hfull, fun _ => rfl⟩

theorem latencyTrue_of_none {info : Info} {s : Sched} {e : Event}
    (h : (calls info e).filterMap Call.latency? = []) : LatencyTrue info s e := by
  unfold LatencyTrue
  rw [h]
  exact fun _ hmem => absurd hmem List.not_mem_nil

section Switch

variable {info : Info} {s : Sched} {e : Switch}

/-- Only a switch to the traced task on the watched CPU can take the last task entry with it. -/
theorem notFull_of_not_switchIn
    (h : info.pid ≠ invalidPid → info.cpu = e.cpu → info.pid ≠ e.next.pid) :
    NotFull info (.schedSwitch e) :=
  fun hfull => h hfull.1 hfull.2.1 hfull.2.2.1

theorem switchIn_latencies_iff (hsound : Sound info) (h : Placed info s)
    (hpid : info.pid ≠ invalidPid) (hwatch : info.cpu ≠ invalidCpu) (hcpu : info.cpu = e.cpu)
    (hnext : info.pid = e.next.pid) (hqueued : s.task info.pid = .queued info.cpu) :
    (∀ latency ∈ ((chargePrev info e).2 ++ [Call.recordTaskCommit (chargePrev info e).1
        (e.now - (chargePrev info e).1.rqStart)]).filterMap Call.latency?,
      latency = trueLatency info s (.schedSwitch e)) ↔ NotFull info (.schedSwitch e) := by
  have hiff := switchIn_latency (e := e) hsound h hpid hwatch hqueued
  rw [List.filterMap_append, chargePrev_latencies]
  refine ⟨fun htrue hfull => ?_, fun hnot latency hmem => ?_⟩
  · exact hiff.mp (htrue _ (by simp [Call.latency?])) hfull.2.2.2
  · have heq : latency = e.now - (chargePrev info e).1.rqStart := by
      simpa [Call.latency?] using hmem
    rw [heq]
    exact hiff.mpr fun hfull => hnot ⟨hpid, hcpu, hnext, hfull⟩

theorem schedSwitch_latencyTrue_iff (hsound : Sound info) (h : Placed info s)
    (hok : Consistent info s (.schedSwitch e)) :
    LatencyTrue info s (.schedSwitch e) ↔ NotFull info (.schedSwitch e) := by
  have hpath := switchPath h hok
  have hcpu0 : e.cpu ≠ invalidCpu := hok.2.1
  have hnone : ∀ latency ∈ ([] : List UInt64), latency = trueLatency info s (.schedSwitch e) :=
    fun _ hmem => absurd hmem List.not_mem_nil
  show (∀ latency ∈ (probeSchedSwitch info e).2.filterMap Call.latency?, _) ↔ _
  generalize probeSchedSwitch info e = r at hpath
  -- only `switchIn` reports a latency; the other paths are not a switch to the traced task
  cases hpath with
  | ignored hprev hcpu =>
      refine iff_of_true hnone (notFull_of_not_switchIn fun hpid hcpu' => ?_)
      rcases hcpu with hoff | hunwatched | ⟨hother, _⟩
      · exact absurd hoff hpid
      · exact absurd (hcpu'.symm.trans hunwatched) hcpu0
      · exact absurd hcpu' hother
  | begin hpid hcpu hprev hstate =>
      exact iff_of_true hnone
        (notFull_of_not_switchIn fun _ hcpu' => absurd (hcpu'.symm.trans hcpu) hcpu0)
  | switchIn hpid hcpu hnext hqueued =>
      exact switchIn_latencies_iff hsound h hpid (hcpu ▸ hcpu0) hcpu hnext hqueued
  | preempt hpid hcpu hprev hstate hrunning =>
      exact iff_of_true hnone (notFull_of_not_switchIn fun _ _ hnext =>
        hok.prev_ne_next hpid hprev (hprev.symm.trans hnext))
  | sleep hpid hcpu hprev hstate =>
      exact iff_of_true hnone (notFull_of_not_switchIn fun _ _ hnext =>
        hok.prev_ne_next hpid hprev (hprev.symm.trans hnext))
  | other hpid hcpu hnext hprev =>
      rw [chargePrev_latencies]
      exact iff_of_true hnone (notFull_of_not_switchIn fun _ _ => hnext)

end Switch

theorem latencyTrue_iff_notFull {info : Info} {s : Sched} {e : Event} (hsound : Sound info)
    (h : Placed info s) (hok : Consistent info s e) :
    LatencyTrue info s e ↔ NotFull info e := by
  cases e with
  | wakeup e => exact iff_of_true (latencyTrue_of_none rfl) trivial
  | migrate e => exact iff_of_true (latencyTrue_of_none (migrate_latencies info e)) trivial
  | tracePid pid => exact iff_of_true (latencyTrue_of_none rfl) trivial
  | threshold threshold => exact iff_of_true (latencyTrue_of_none rfl) trivial
  | schedSwitch e => exact schedSwitch_latencyTrue_iff hsound h hok

/-! ## The stored latencies -/

/-- The committed entries are below the open one, so writes to it do not show. -/
theorem storedLatencies_update {info info' : Info} (hnr : info'.nrTrace = info.nrTrace)
    {t : TraceEntry} (hentries : info'.traceEntries = Function.update info.traceEntries info.nrTrace t) :
    storedLatencies info' = storedLatencies info := by
  unfold storedLatencies
  rw [hnr, hentries]
  refine List.map_congr_left fun i hi => ?_
  have hne : i ≠ info.nrTrace := Nat.ne_of_lt (List.mem_range.mp hi)
  rw [Function.update_of_ne hne]

theorem storedLatencies_same {info info' : Info} (hnr : info'.nrTrace = info.nrTrace)
    (hentries : info'.traceEntries = info.traceEntries) :
    storedLatencies info' = storedLatencies info := by
  unfold storedLatencies
  rw [hnr, hentries]

theorem storedLatencies_keepTrace (info : Info) (latency : UInt64) :
    storedLatencies (keepTrace info latency) = storedLatencies info ++ [latency] := by
  unfold storedLatencies
  rw [keepTrace_nrTrace, keepTrace_traceEntries, List.range_succ, List.map_append,
    List.map_singleton, Function.update_self]
  congr 1
  refine List.map_congr_left fun i hi => ?_
  have hne : i ≠ info.nrTrace := Nat.ne_of_lt (List.mem_range.mp hi)
  rw [Function.update_of_ne hne]

theorem storedLatencies_dropTrace (info : Info) :
    storedLatencies (dropTrace info) = storedLatencies info :=
  storedLatencies_update rfl rfl

theorem storedLatencies_commit (info : Info) (latency : UInt64) :
    storedLatencies (recordTaskCommit info latency).2
      = storedLatencies info ++ [Call.recordTaskCommit info latency].filterMap Call.kept? := by
  have hstore : storedLatencies (latencyHistogramStore info latency) = storedLatencies info :=
    storedLatencies_same rfl rfl
  have hopen : (latencyHistogramStore info latency).openEntry = info.openEntry := rfl
  have hthreshold : (latencyHistogramStore info latency).threshold = info.threshold := rfl
  unfold recordTaskCommit
  dsimp only
  rw [hopen, hthreshold]
  by_cases hzero : info.openEntry.nrTasks = 0
  · simp [hzero, hstore, Call.kept?]
  · by_cases hlong : latency ≥ info.threshold
    · simp [hzero, hlong, Call.kept?, storedLatencies_keepTrace, hstore]
    · simp [hzero, hlong, Call.kept?, storedLatencies_dropTrace, hstore]

/-- What a probe adds to the stored latencies is what its calls have kept. -/
def Stores (info : Info) (r : Info × List Call) : Prop :=
  storedLatencies r.1 = storedLatencies info ++ r.2.filterMap Call.kept?

theorem stores_none {info info' : Info} (hnr : info'.nrTrace = info.nrTrace)
    (hentries : info'.traceEntries = info.traceEntries) : Stores info (info', []) := by
  unfold Stores
  rw [List.filterMap_nil, List.append_nil]
  exact storedLatencies_same hnr hentries

/-- Along a chain of calls, the stored latencies are those the calls have kept. -/
theorem stores_effect {info info' : Info} {cs : List Call} (h : Effect info cs info') :
    Stores info (info', cs) := by
  induction h with
  | control hsame => exact stores_none hsame.nrTrace hsame.traceEntries
  | recordTask info p runtime =>
      have hkept : [Call.recordTask info p runtime].filterMap Call.kept? = [] := rfl
      unfold Stores
      rw [hkept, List.append_nil]
      exact storedLatencies_update (recordTask_nrTrace _ _ _) (recordTask_traceEntries _ _ _)
  | recordTaskCommit info latency => exact storedLatencies_commit info latency
  | trans _ _ ih ih' =>
      unfold Stores at ih ih' ⊢
      rw [ih', ih, List.filterMap_append, List.append_assoc]

/-- **What one step does to the stored latencies.** -/
theorem storedLatencies_step (info : Info) (e : Event) :
    storedLatencies (step info e)
      = if startsSession info e then []
        else storedLatencies info ++ (calls info e).filterMap Call.kept? := by
  cases hstart : startsSession info e with
  | false => exact stores_effect (step_effect hstart)
  | true =>
      cases e with
      | tracePid pid =>
          rcases tracePid_cases info pid with ⟨-, hno⟩ | ⟨-, hno⟩ | ⟨_, _, hstarted, -⟩
          · exact nomatch hno.symm.trans hstart
          · exact nomatch hno.symm.trans hstart
          · show storedLatencies (tracePidStore info pid).2 = []
            rw [hstarted]
            rfl
      | _ => cases hstart

/-- A kept latency has been reported. -/
theorem Call.latency?_of_kept? {c : Call} {latency : UInt64} (h : c.kept? = some latency) :
    c.latency? = some latency := by
  cases c with
  | recordTask info p runtime => exact absurd h (by simp [Call.kept?])
  | recordTaskCommit info l =>
      change (if _ then some l else none) = some latency at h
      split at h
      · exact h
      · exact absurd h (by simp)

/-- If the step reports true latencies, then it stores true latencies. -/
theorem kept_eq_truths {info : Info} {s : Sched} {e : Event} (h : LatencyTrue info s e) :
    ((calls info e).filterMap Call.kept?).map (fun _ => trueLatency info s e)
      = (calls info e).filterMap Call.kept? := by
  refine (List.map_congr_left ?_).trans (List.map_id _)
  intro latency hmem
  obtain ⟨c, hc, hkept⟩ := List.mem_filterMap.mp hmem
  exact (h latency (List.mem_filterMap.mpr ⟨c, hc, Call.latency?_of_kept? hkept⟩)).symm

/-! ## Whole runs -/

/-- The tracer with the history it is judged by. -/
def latencyStep : Info × LatencyHistory → Event → Info × LatencyHistory :=
  observe step LatencyHistory.next

/-- The invariant of the consistent runs. -/
structure Followed (w : Info × LatencyHistory) : Prop where
  sound : Sound w.1
  placed : Placed w.1 w.2.sched

theorem Followed.step {w : Info × LatencyHistory} {e : Event} (h : Followed w)
    (hok : Consistent w.1 w.2.sched e) : Followed (latencyStep w e) :=
  ⟨h.sound.step e, h.placed.step hok⟩

theorem followed_init (s : Sched) : Followed (Info.init, ⟨s, []⟩) :=
  ⟨sound_init, placed_of_unwatched (.inl rfl)⟩

/-- Every stored latency is the true one. -/
def StoredTrue (w : Info × LatencyHistory) : Prop := storedLatencies w.1 = w.2.truths

theorem StoredTrue.step {w : Info × LatencyHistory} {e : Event}
    (h : StoredTrue w) (htrue : LatencyTrue w.1 w.2.sched e) : StoredTrue (latencyStep w e) := by
  unfold StoredTrue at h
  show storedLatencies (Runqlat.step w.1 e) = if startsSession w.1 e then [] else _
  rw [storedLatencies_step, kept_eq_truths htrue, h]

/-- **When the latencies are true.** In every consistent run, from any state of the scheduler:
all reported latencies are true and so are those of the committed entries, exactly if no
switch-in of the watched task takes the last task entry. -/
theorem latencies_true_iff (s : Sched) (es : List Event)
    (hok : Steps latencyStep (fun w e => Consistent w.1 w.2.sched e) (Info.init, ⟨s, []⟩) es) :
    (Steps latencyStep (fun w e => LatencyTrue w.1 w.2.sched e) (Info.init, ⟨s, []⟩) es ∧
        StoredTrue (run latencyStep (Info.init, ⟨s, []⟩) es)) ↔
      Steps latencyStep (fun w e => NotFull w.1 e) (Info.init, ⟨s, []⟩) es := by
  have hiff := Steps.iff_of_inv (fun _ _ h hc => Followed.step h hc)
    (fun _ _ h hc => latencyTrue_iff_notFull h.sound h.placed hc) (followed_init s) hok
  refine ⟨fun h => hiff.mp h.1, fun hnot => ⟨hiff.mpr hnot, ?_⟩⟩
  exact inv_run (fun _ _ h htrue => StoredTrue.step h htrue) rfl (hiff.mpr hnot)

/-! ### A wait that fills the task entries

The task with pid 7 is woken on CPU 0, where the tasks 1 and 2 take turns, and is switched in
after `n` turns. The `n`-th turn leaves `n` task entries, so that with 2047 turns the switch-in
takes the last one. -/

/-- A task that is runnable on CPU 0. -/
def runnable (pid : Int) : TaskStruct := ⟨pid, Comm.empty, false, taskRunning, 0⟩

/-- Task 1 runs on CPU 0 and task 2 waits there; all others sleep. -/
def twoBusy : Sched where
  clock := 0
  task := fun pid => if pid = 1 then .running 0 else if pid = 2 then .queued 0 else .sleeping
  enqueued := fun _ => 0

/-- Whose turn it is. -/
def turnOf (i : Nat) : TaskStruct := runnable ((1 + i % 2 : Nat) : Int)

def turn (i : Nat) : Event :=
  .schedSwitch ⟨UInt64.ofNat (i + 2), 0, turnOf i, turnOf (i + 1)⟩

def turns (n : Nat) : List Event :=
  [.tracePid (some 7), .threshold (some 0), .wakeup ⟨1, runnable 7⟩] ++ (List.range n).map turn

/-- The switch that ends the wait. -/
def turnIn (n : Nat) : Event :=
  .schedSwitch ⟨UInt64.ofNat (n + 2), 0, turnOf n, runnable 7⟩

/-- A consistent step on a clock that does not go back. -/
def Ordinary (w : Info × LatencyHistory) (e : Event) : Prop :=
  Consistent w.1 w.2.sched e ∧ ClockForward w.2.sched e

instance (w : Info × LatencyHistory) (e : Event) : Decidable (Ordinary w e) :=
  inferInstanceAs (Decidable (_ ∧ _))

/-- The states of the wait. -/
structure Waits (n : Nat) (w : Info × LatencyHistory) : Prop where
  pid : w.1.pid = 7
  cpu : w.1.cpu = 0
  runStart : w.1.runStart ≠ 0
  nrTask : w.1.nrTask = n
  task : w.2.sched.task 7 = .queued 0
  clock : w.2.sched.clock = UInt64.ofNat (n + 1)

theorem zero_ne_invalidCpu : (0 : Int) ≠ invalidCpu := by decide

theorem turnOf_ne (i : Nat) : (7 : Int) ≠ (turnOf i).pid := by
  show (7 : Int) ≠ ((1 + i % 2 : Nat) : Int)
  omega

theorem time_ne_zero {n : Nat} (h : n < maxTraceEntryTasks) : UInt64.ofNat (n + 2) ≠ 0 := by
  have hmax : maxTraceEntryTasks = 2048 := rfl
  intro heq
  have hnat := congrArg UInt64.toNat heq
  rw [UInt64.toNat_ofNat'] at hnat
  have hzero : (0 : UInt64).toNat = 0 := rfl
  omega

theorem time_le {n : Nat} (h : n < maxTraceEntryTasks) :
    UInt64.ofNat (n + 1) ≤ UInt64.ofNat (n + 2) := by
  have hmax : maxTraceEntryTasks = 2048 := rfl
  rw [UInt64.le_iff_toNat_le, UInt64.toNat_ofNat', UInt64.toNat_ofNat']
  omega

/-- The probe on two other tasks, as long as there is room for one more entry. -/
theorem probeSchedSwitch_other {info : Info} {e : Switch} (hpid : info.pid ≠ invalidPid)
    (hcpu : info.cpu = e.cpu) (hvalid : e.cpu ≠ invalidCpu) (hnext : info.pid ≠ e.next.pid)
    (hprev : info.pid ≠ e.prev.pid) :
    probeSchedSwitch info e
      = ({ (chargePrev info e).1 with runStart := e.now },
          (chargePrev info e).2) := by
  have hnext' : (updateCurr info e.next).pid ≠ e.next.pid := by rwa [updateCurr_pid]
  have hprev' : (updateCurr info e.next).pid ≠ e.prev.pid := by rwa [updateCurr_pid]
  have hwatch : info.cpu ≠ invalidCpu := hcpu ▸ hvalid
  unfold probeSchedSwitch
  rw [if_neg hpid, if_neg (fun hand => hand.2 hcpu), if_neg hwatch]
  unfold watchedSwitch
  dsimp only
  rw [if_neg hnext', if_neg hprev']
  rfl

theorem Waits.ordinary {n : Nat} {w : Info × LatencyHistory} (h : Waits n w)
    (hn : n < maxTraceEntryTasks) : Ordinary w (turn n) := by
  refine ⟨⟨time_ne_zero hn, zero_ne_invalidCpu, ?_, ?_⟩, ?_⟩
  · rintro ⟨_, heq⟩
    exact absurd (heq.trans h.pid).symm (turnOf_ne (n + 1))
  · rintro ⟨_, heq⟩
    exact absurd (heq.trans h.pid).symm (turnOf_ne n)
  · show w.2.sched.clock ≤ UInt64.ofNat (n + 2)
    rw [h.clock]
    exact time_le hn

theorem Waits.step {n : Nat} {w : Info × LatencyHistory} (h : Waits n w)
    (hn : n + 1 < maxTraceEntryTasks) : Waits (n + 1) (latencyStep w (turn n)) := by
  have hpid : w.1.pid ≠ invalidPid := by rw [h.pid]; decide
  have hnext : w.1.pid ≠ (turnOf (n + 1)).pid := by rw [h.pid]; exact turnOf_ne _
  have hprev : w.1.pid ≠ (turnOf n).pid := by rw [h.pid]; exact turnOf_ne _
  have hprobe := probeSchedSwitch_other
    (e := ⟨UInt64.ofNat (n + 2), 0, turnOf n, turnOf (n + 1)⟩) hpid h.cpu zero_ne_invalidCpu
    hnext hprev
  unfold chargePrev at hprobe
  rw [recordSince_of_ne (by rw [updateCurr_runStart]; exact h.runStart),
    recordTask_of_lt (by rw [updateCurr_nrTask, h.nrTask]; exact hn)] at hprobe
  have hinfo : (latencyStep w (turn n)).1 = (probeSchedSwitch w.1 _).1 := rfl
  rw [hprobe] at hinfo
  refine ⟨?_, ?_, ?_, ?_, ?_, rfl⟩
  · rw [hinfo]
    exact (updateCurr_pid _ _).trans h.pid
  · rw [hinfo]
    exact (updateCurr_cpu _ _).trans h.cpu
  · rw [hinfo]
    exact time_ne_zero (by omega)
  · rw [hinfo]
    exact congrArg (· + 1) ((updateCurr_nrTask _ _).trans h.nrTask)
  · exact (Sched.next_task_other (turnOf_ne (n + 1)) (turnOf_ne n)).trans h.task

/-- After `n` turns there are `n` entries, and every step so far was ordinary. -/
theorem waits_turns {n : Nat} (hn : n < maxTraceEntryTasks) :
    Waits n (run latencyStep (Info.init, ⟨twoBusy, []⟩) (turns n)) ∧
      Steps latencyStep Ordinary (Info.init, ⟨twoBusy, []⟩) (turns n) := by
  induction n with
  | zero => exact ⟨⟨rfl, rfl, by decide, rfl, rfl, rfl⟩, by decide⟩
  | succ n ih =>
      obtain ⟨hwaits, hsteps⟩ := ih (by omega)
      have hsplit : turns (n + 1) = turns n ++ [turn n] := by
        unfold turns
        rw [List.range_succ, List.map_append, List.map_singleton, List.append_assoc]
      rw [hsplit, run_append, steps_append]
      exact ⟨hwaits.step hn, hsteps, hwaits.ordinary (by omega), trivial⟩

theorem Waits.ordinary_in {n : Nat} {w : Info × LatencyHistory} (h : Waits n w)
    (hn : n < maxTraceEntryTasks) : Ordinary w (turnIn n) := by
  refine ⟨⟨time_ne_zero hn, zero_ne_invalidCpu, fun _ => h.task, ?_⟩, ?_⟩
  · rintro ⟨_, heq⟩
    exact absurd (heq.trans h.pid).symm (turnOf_ne n)
  · show w.2.sched.clock ≤ UInt64.ofNat (n + 2)
    rw [h.clock]
    exact time_le hn

/-- The whole wait is ordinary. -/
theorem ordinary_turnIn {n : Nat} (hn : n < maxTraceEntryTasks) :
    Steps latencyStep Ordinary (Info.init, ⟨twoBusy, []⟩) (turns n ++ [turnIn n]) := by
  obtain ⟨hwaits, hsteps⟩ := waits_turns hn
  exact steps_append.mpr ⟨hsteps, hwaits.ordinary_in hn, trivial⟩

/-- If the last turn but one leaves one free entry, the latency of the switch-in is false. -/
theorem not_latencyTrue_turnIn {n : Nat} (hn : n + 1 = maxTraceEntryTasks) :
    ¬ Steps latencyStep (fun w e => LatencyTrue w.1 w.2.sched e) (Info.init, ⟨twoBusy, []⟩)
      (turns n ++ [turnIn n]) := by
  intro htrue
  have hlt : n < maxTraceEntryTasks := by omega
  obtain ⟨hwaits, hsteps⟩ := waits_turns hlt
  have hfollowed : Followed (run latencyStep (Info.init, ⟨twoBusy, []⟩) (turns n)) :=
    inv_run (fun _ _ h hc => Followed.step h hc) (followed_init twoBusy)
      (hsteps.mono fun _ _ h => h.1)
  have hnot := (latencyTrue_iff_notFull hfollowed.sound hfollowed.placed
    (hwaits.ordinary_in hlt).1).mp (steps_append.mp htrue).2.1
  refine hnot ⟨?_, hwaits.cpu, hwaits.pid, ?_⟩
  · rw [hwaits.pid]
    decide
  · rw [hwaits.nrTask]
    exact hn

/-- **A false latency.** The task has waited since time 1 and is switched in after 2047 turns:
the run is consistent and its clock never goes back, and the latency reported is not the time
it has waited. -/
theorem latency_false_when_full :
    Steps latencyStep (fun w e => Consistent w.1 w.2.sched e) (Info.init, ⟨twoBusy, []⟩)
        (turns 2047 ++ [turnIn 2047]) ∧
      Steps latencyStep (fun w e => ClockForward w.2.sched e) (Info.init, ⟨twoBusy, []⟩)
        (turns 2047 ++ [turnIn 2047]) ∧
      ¬ Steps latencyStep (fun w e => LatencyTrue w.1 w.2.sched e) (Info.init, ⟨twoBusy, []⟩)
        (turns 2047 ++ [turnIn 2047]) := by
  have hall := ordinary_turnIn (show 2047 < maxTraceEntryTasks by decide)
  exact ⟨hall.mono fun _ _ h => h.1, hall.mono fun _ _ h => h.2, not_latencyTrue_turnIn rfl⟩

/-- The same wait with two turns: the latency is 3, and it is stored. -/
theorem latencies_true_two_turns :
    Steps latencyStep (fun w e => NotFull w.1 e) (Info.init, ⟨twoBusy, []⟩)
        (turns 2 ++ [turnIn 2]) ∧
      storedLatencies (run latencyStep (Info.init, ⟨twoBusy, []⟩) (turns 2 ++ [turnIn 2])).1
        = [3] ∧
      Steps latencyStep (fun w e => LatencyTrue w.1 w.2.sched e) (Info.init, ⟨twoBusy, []⟩)
          (turns 2 ++ [turnIn 2]) ∧
        StoredTrue (run latencyStep (Info.init, ⟨twoBusy, []⟩) (turns 2 ++ [turnIn 2])) := by
  have hnot : Steps latencyStep (fun w e => NotFull w.1 e) (Info.init, ⟨twoBusy, []⟩)
      (turns 2 ++ [turnIn 2]) := by decide
  exact ⟨hnot, by decide, (latencies_true_iff twoBusy _ (by decide)).mpr hnot⟩

end UioLinuxSample.Runqlat
