import UioLinuxSample.Runqlat.Layout

set_option autoImplicit false

/-! # What a step does to the recorded data

The probes move the control fields about in many ways, but there are only two functions that
write the records and the distribution: `record_task` and `record_task_commit`. Unless it starts
a session, a step is therefore a chain of calls of these two, with changes of control fields in
between (`step_effect`). What each call keeps, or adds, then holds of every step by induction on
the chain, and the branches of the probes need not be walked through again.
-/

namespace UioLinuxSample.Runqlat

/-- The records and the distribution are the same. -/
structure SameData (info info' : Info) : Prop where
  nrTrace : info'.nrTrace = info.nrTrace
  traceEntries : info'.traceEntries = info.traceEntries
  nrTask : info'.nrTask = info.nrTask
  taskEntries : info'.taskEntries = info.taskEntries
  latencyHist : info'.latencyHist = info.latencyHist
  sumLat : info'.sumLat = info.sumLat

/-- `info'` is reached from `info` by the calls in the list, and changes of control fields. -/
inductive Effect : Info → List Call → Info → Prop
  | control {info info' : Info} (h : SameData info info') : Effect info [] info'
  | recordTask (info : Info) (p : TaskStruct) (runtime : UInt64) :
      Effect info [.recordTask info p runtime] (recordTask info p runtime)
  | recordTaskCommit (info : Info) (latency : UInt64) :
      Effect info [.recordTaskCommit info latency] (recordTaskCommit info latency).2
  | trans {a b c : Info} {cs ds : List Call} (h : Effect a cs b) (h' : Effect b ds c) :
      Effect a (cs ++ ds) c

/-! ## The probes -/

theorem sameData_updateCurr (info : Info) (next : TaskStruct) :
    SameData info (updateCurr info next) := by
  unfold updateCurr
  split <;> exact ⟨rfl, rfl, rfl, rfl, rfl, rfl⟩

theorem Effect.refl (info : Info) : Effect info [] info := .control ⟨rfl, rfl, rfl, rfl, rfl, rfl⟩

/-- A change of control fields at the end of a chain. -/
theorem Effect.then_control {a b c : Info} {cs : List Call} (h : Effect a cs b)
    (hc : SameData b c) : Effect a cs c := by
  have htrans := h.trans (.control hc)
  rwa [List.append_nil] at htrans

theorem effect_recordSince (info : Info) (p : TaskStruct) (now : UInt64) :
    Effect info (recordSince info p now).2 (recordSince info p now).1 := by
  unfold recordSince
  split
  · exact .recordTask info p _
  · exact .refl info

theorem effect_watchedSwitch (info : Info) (e : Switch) :
    Effect info (watchedSwitch info e).2 (watchedSwitch info e).1 := by
  have hcurr := sameData_updateCurr info e.next
  have hsince : Effect info (recordSince (updateCurr info e.next) e.prev e.now).2
      (recordSince (updateCurr info e.next) e.prev e.now).1 :=
    (Effect.control hcurr).trans (effect_recordSince _ _ _)
  unfold watchedSwitch
  dsimp only
  split
  · exact hsince.trans (.recordTaskCommit _ _)
  · split
    · split
      · exact .control ⟨hcurr.1, hcurr.2, hcurr.3, hcurr.4, hcurr.5, hcurr.6⟩
      · exact .control ⟨hcurr.1, hcurr.2, hcurr.3, hcurr.4, hcurr.5, hcurr.6⟩
    · exact hsince.then_control ⟨rfl, rfl, rfl, rfl, rfl, rfl⟩

theorem effect_schedSwitch (info : Info) (e : Switch) :
    Effect info (probeSchedSwitch info e).2 (probeSchedSwitch info e).1 := by
  unfold probeSchedSwitch
  split
  · exact .refl info
  · split
    · exact .refl info
    · split
      · split
        · exact .refl info
        · have hstart := sameData_updateCurr
            { info with rqStart := e.now, runStart := e.now, cpu := e.prev.cpu } e.next
          exact .control ⟨hstart.1, hstart.2, hstart.3, hstart.4, hstart.5, hstart.6⟩
      · exact effect_watchedSwitch info e

theorem effect_migrate (info : Info) (e : Migrate) :
    Effect info (probeSchedMigrateTask info e).2 (probeSchedMigrateTask info e).1 := by
  unfold probeSchedMigrateTask
  split
  · exact .refl info
  · cases info.curr with
    | none => exact .control ⟨rfl, rfl, rfl, rfl, rfl, rfl⟩
    | some curr => exact (effect_recordSince _ _ _).then_control ⟨rfl, rfl, rfl, rfl, rfl, rfl⟩

theorem sameData_wakeup (info : Info) (e : Wakeup) : SameData info (probeSchedWakeup info e) := by
  unfold probeSchedWakeup
  split <;> exact ⟨rfl, rfl, rfl, rfl, rfl, rfl⟩

theorem sameData_threshold (info : Info) (threshold : Option UInt64) :
    SameData info (thresholdStore info threshold).2 := by
  cases threshold <;> exact ⟨rfl, rfl, rfl, rfl, rfl, rfl⟩

/-- **What a step does to the recorded data**, unless it starts a session. -/
theorem step_effect {info : Info} {e : Event} (h : startsSession info e = false) :
    Effect info (calls info e) (step info e) := by
  cases e with
  | wakeup e => exact .control (sameData_wakeup info e)
  | schedSwitch e => exact effect_schedSwitch info e
  | migrate e => exact effect_migrate info e
  | threshold threshold => exact .control (sameData_threshold info threshold)
  | tracePid pid =>
      rcases tracePid_cases info pid with ⟨hsame, -⟩ | ⟨hstop, -⟩ | ⟨-, -, -, hyes⟩
      · show Effect info [] (tracePidStore info pid).2
        rw [hsame]
        exact .refl info
      · show Effect info [] (tracePidStore info pid).2
        rw [hstop]
        exact .control ⟨rfl, rfl, rfl, rfl, rfl, rfl⟩
      · rw [h] at hyes
        cases hyes

end UioLinuxSample.Runqlat
