import UioLinuxSample.Lib.GracePeriod
import UioLinuxSample.Loading

set_option autoImplicit false

/-! # Removing the tracers

The probes and the timers of a module work on its buffer, and may do so on another CPU at the moment
it is freed. `tracepoint_probe_unregister` does not wait for the probes that have started.

* The exit functions wait, with `tracepoint_synchronize_unregister` and `hrtimer_cancel`, when there
  is something registered. That is enough as long as no process switches the tracer on meanwhile
  (`exit_unused`).
* It is not otherwise: the exit functions remove the file `enable` last, so what a process starts
  through it before is not stopped any more (`enable_outlives_buffer`).
* There are two more ways around it. When `trace_runqlat_init` fails to register a probe it unregisters
  those before and frees the buffer at once. And switching trace-noschedule off unregisters its probe
  without waiting, after which `trace_noschedule_exit` sees no reason to (`probe_outlives_buffer`).
-/

namespace UioLinuxSample

open Run GracePeriod Loading

/-- What uses the buffer of a module. -/
inductive Callback where
  | probe (hook : Hook)
  | hrtimer (cpu : Nat)
  | timer (cpu : Nat)
  deriving DecidableEq

/-- What a call does to the users of the buffer. -/
def Loading.Call.op : Call → Option (Op Callback)
  | .alloc _ => none
  | .procCreate _ _ => some .addFiles
  | .register hook => some (.register (.probe hook))
  | .unregister hook => some (.unregister (.probe hook))
  | .hrtimerStart cpu => some (.register (.hrtimer cpu))
  | .timerStart cpu => some (.register (.timer cpu))
  | .hrtimerCancel cpu => some (.cancel (.hrtimer cpu))
  | .delTimerSync cpu => some (.cancel (.timer cpu))
  | .synchronize => some .synchronize
  | .removeProcSubtree _ => some .removeFiles
  | .free _ => some .free

def ops (calls : List Call) : List (Op Callback) := calls.filterMap Call.op

theorem ops_append (calls calls' : List Call) : ops (calls ++ calls') = ops calls ++ ops calls' :=
  List.filterMap_append ..

theorem ops_map {α : Type} {f : α → Call} {g : α → Op Callback} (h : ∀ x, (f x).op = some (g x))
    (xs : List α) : ops (xs.map f) = xs.map g := by
  unfold ops
  rw [List.filterMap_map]
  exact List.filterMap_eq_map_iff_forall_eq_some.mpr fun x _ => h x

/-- The probes that are unregistered. -/
def unregistered (result : Hook → Int) (hooks : List Hook) : List Callback :=
  (hooks.filter (result · == 0)).map .probe

theorem ops_unregisterHooks (result : Hook → Int) (hooks : List Hook) :
    ops (unregisterHooks result hooks) = (unregistered result hooks).map .unregister := by
  unfold unregisterHooks unregistered
  rw [ops_map (fun _ => rfl), List.map_map]
  rfl

theorem unregistered_eq_self {result : Hook → Int} {hooks : List Hook}
    (h : ∀ hook ∈ hooks, result hook = 0) : unregistered result hooks = hooks.map .probe := by
  unfold unregistered
  rw [List.filter_eq_self.mpr fun hook hhook => by simp [h hook hhook]]

/-- A module that is loaded makes these calls, while its callbacks and its files are in use. -/
def removal (callbacks : Finset Callback) (calls : List Call) (es : List (Event Callback)) :
    State Callback :=
  run step (State.init callbacks true (ops calls)) es

/-- A module makes these calls from the start. -/
def loading (calls : List Call) (es : List (Event Callback)) : State Callback :=
  run step (State.init ∅ false (ops calls)) es

/-! ## The exit functions -/

namespace Runqlat

theorem ops_exit {unregister : Hook → Int} {hooks : List Hook}
    (hunregister : ∀ hook ∈ hooks, unregister hook = 0) (buf : Nat) :
    ops (traceRunqlatExit unregister buf hooks)
      = (hooks.map Callback.probe).map .unregister ++ [.synchronize, .removeFiles, .free] := by
  unfold traceRunqlatExit
  rw [ops_append, ops_unregisterHooks, unregistered_eq_self hunregister]
  rfl

theorem proper_exit {unregister : Hook → Int} {hooks : List Hook}
    (hunregister : ∀ hook ∈ hooks, unregister hook = 0) (buf : Nat) :
    Proper (Plan.init (hooks.map Callback.probe).toFinset true)
      (ops (traceRunqlatExit unregister buf hooks)) := by
  rw [ops_exit hunregister]
  refine proper_append (by simp) (proper_end ?_)
  rw [afterAll_unregister]
  exact Finset.sdiff_self _

end Runqlat

namespace Noschedule

/-- The callbacks of a tracer that is enabled. -/
def callbacks (armed : List Nat) (hook : Hook) : Finset Callback :=
  insert (.probe hook) (armed.map Callback.hrtimer).toFinset

/-- `enable_store`, when it switches the tracer off. -/
def disable (online : List Nat) (hook : Hook) : List Call :=
  online.map .hrtimerCancel ++ [.unregister hook]

theorem ops_cancel (online : List Nat) :
    ops (online.map .hrtimerCancel) = (online.map Callback.hrtimer).map .cancel := by
  rw [ops_map (fun _ => rfl), List.map_map]
  rfl

theorem ops_exit (unregister : Hook → Int) (online : List Nat) (hook : Hook) (buf : Nat) :
    ops (traceNoscheduleExit unregister true online hook buf)
      = (online.map Callback.hrtimer).map .cancel
        ++ ((unregistered unregister [hook]).map .unregister
          ++ [.synchronize, .removeFiles, .free]) := by
  unfold traceNoscheduleExit
  rw [ops_append, if_pos rfl, ops_append, ops_append, ops_cancel, ops_unregisterHooks,
    List.append_assoc, List.append_assoc]
  rfl

theorem proper_exit {unregister : Hook → Int} {online armed : List Nat} {hook : Hook}
    (harmed : armed ⊆ online) (hunregister : unregister hook = 0) (buf : Nat) :
    Proper (Plan.init (callbacks armed hook) true)
      (ops (traceNoscheduleExit unregister true online hook buf)) := by
  rw [ops_exit, unregistered_eq_self (by simpa using hunregister)]
  refine proper_append (by simp) (proper_append (by simp) (proper_end ?_))
  rw [afterAll_unregister, (afterAll_cancel _ _).1]
  ext c
  simp only [callbacks, Plan.init, Finset.mem_sdiff, Finset.mem_insert, List.mem_toFinset,
    List.mem_map, List.map_cons, List.map_nil, List.mem_singleton, Finset.notMem_empty, iff_false]
  rintro ⟨⟨rfl | ⟨cpu, hcpu, rfl⟩, honline⟩, hprobe⟩
  · exact hprobe rfl
  · exact honline ⟨cpu, harmed hcpu, rfl⟩

end Noschedule

namespace Irqoff

/-- `trace_irqoff_cancel_timers`. -/
def traceIrqoffCancelTimers (online : List Nat) : List Call :=
  online.flatMap fun cpu => [.hrtimerCancel cpu, .delTimerSync cpu]

/-- `trace_irqoff_exit`. -/
def exitCalls (enable : Bool) (online : List Nat) (buf : Nat) : List Call :=
  (if enable then traceIrqoffCancelTimers online else [])
    ++ [.removeProcSubtree "trace_irqoff", .free buf]

def timersOf (cpus : List Nat) : List Callback := cpus.flatMap fun cpu => [.hrtimer cpu, .timer cpu]

theorem ops_cancelTimers (online : List Nat) :
    ops (traceIrqoffCancelTimers online) = (timersOf online).map .cancel := by
  induction online with
  | nil => rfl
  | cons cpu online ih => exact congrArg (_ :: _ :: ·) ih

theorem timersOf_subset {armed online : List Nat} (h : armed ⊆ online) :
    timersOf armed ⊆ timersOf online := by
  intro c hc
  obtain ⟨cpu, hcpu, hmem⟩ := List.mem_flatMap.mp hc
  exact List.mem_flatMap.mpr ⟨cpu, h hcpu, hmem⟩

theorem proper_exit {online armed : List Nat} (harmed : armed ⊆ online) (buf : Nat) :
    Proper (Plan.init (timersOf armed).toFinset true)
      (ops (traceIrqoffCancelTimers online ++ exitCalls false online buf)) := by
  rw [ops_append, ops_cancelTimers]
  refine proper_append (by simp) (proper_cancelled ?_)
  rw [(afterAll_cancel _ _).2, Finset.sdiff_eq_empty_iff_subset]
  intro c hc
  exact List.mem_toFinset.mpr (timersOf_subset harmed (List.mem_toFinset.mp hc))

end Irqoff

/-- **Nobody is left.** The exit function of trace-runqlat, and that of trace-noschedule when the tracer
is enabled, free the buffer when no probe, no timer and no process uses it or can come to use it,
whatever these do meanwhile. For trace-irqoff, which has only timers, it makes no difference if the
tracer is switched off before. This is so if the probes can be unregistered, if the timers are on CPUs
that are online, and if nothing is switched on through a file meanwhile. -/
theorem exit_unused (es : List (Event Callback)) (hquiet : Quiet es) (unregister : Hook → Int)
    (buf : Nat) :
    (∀ hooks, (∀ hook ∈ hooks, unregister hook = 0) →
      let s := removal (hooks.map Callback.probe).toFinset
        (Runqlat.traceRunqlatExit unregister buf hooks) es
      s.freed = true → s.Unused)
    ∧ (∀ online armed hook, armed ⊆ online → unregister hook = 0 →
      let s := removal (Noschedule.callbacks armed hook)
        (Noschedule.traceNoscheduleExit unregister true online hook buf) es
      s.freed = true → s.Unused)
    ∧ (∀ online armed, armed ⊆ online →
      ∀ calls ∈ [Irqoff.exitCalls true online buf,
        Irqoff.traceIrqoffCancelTimers online ++ Irqoff.exitCalls false online buf],
      let s := removal (Irqoff.timersOf armed).toFinset calls es
      s.freed = true → s.Unused) := by
  refine ⟨fun hooks hunregister => unused_of_proper (Runqlat.proper_exit hunregister buf) hquiet,
    fun _ _ hook harmed hunregister =>
      unused_of_proper (Noschedule.proper_exit harmed hunregister buf) hquiet, ?_⟩
  intro online armed harmed calls hcalls
  -- the exit function makes the calls that switching off would have made
  have hsame : Irqoff.exitCalls true online buf
      = Irqoff.traceIrqoffCancelTimers online ++ Irqoff.exitCalls false online buf := rfl
  rw [hsame, List.mem_pair, or_self] at hcalls
  subst hcalls
  exact unused_of_proper (Irqoff.proper_exit harmed buf) hquiet

def switchHook : Hook := ⟨⟨"sched_switch", 0⟩, .schedSwitch⟩

/-- A probe starts before it is unregistered and ends in the wait for it; a second one comes too late. -/
def raceWithExit : List (Event Callback) :=
  [.start (.probe switchHook), .work, .enter, .work, .work, .work, .start (.probe switchHook),
    .finish 0, .work, .work, .leave, .work, .work]

theorem exit_unused_raceWithExit :
    let s := removal (Noschedule.callbacks [0] switchHook)
      (Noschedule.traceNoscheduleExit (fun _ => 0) true [0] switchHook 1) raceWithExit
    s.freed = true ∧ s.Unused := by
  intro s
  have hfreed : s.freed = true := by decide
  have hquiet : Quiet raceWithExit := by
    intro p
    simp [raceWithExit]
  exact ⟨hfreed, (exit_unused raceWithExit hquiet (fun _ => 0) 1).2.1 [0] [0] switchHook
    (List.Subset.refl _) rfl hfreed⟩

/-! ## Switched on meanwhile -/

namespace Noschedule

/-- The calls of `enable_store` that are made with success, after the new `trace_enable`. The results are
those of `trace_nosched_register_tp` and `trace_nosched_unregister_tp`. -/
def enableStoreCalls (register unregister : Int) (online : List Nat) (hook : Hook)
    (traceEnable enable : Bool) : Bool × List Call :=
  if enable = traceEnable then (traceEnable, [])
  else if enable then
    if register = 0 then (true, .register hook :: online.map .hrtimerStart) else (traceEnable, [])
  else if unregister = 0 then (false, disable online hook)
  else (traceEnable, online.map .hrtimerCancel)

end Noschedule

namespace Irqoff

/-- `trace_irqoff_start_timers`. -/
def traceIrqoffStartTimers (online : List Nat) : List Call :=
  online.flatMap fun cpu => [.hrtimerStart cpu, .timerStart cpu]

/-- The calls of `enable_write`, after the new `trace_enable`. -/
def enableWriteCalls (online : List Nat) (traceEnable enable : Bool) : Bool × List Call :=
  if enable = traceEnable then (traceEnable, [])
  else (enable,
    if enable then traceIrqoffStartTimers online else traceIrqoffCancelTimers online)

end Irqoff

/-- What a call by a process in a file does. -/
def Loading.Call.fileEvent : Call → Option (Event Callback)
  | .register hook => some (.add (.probe hook))
  | .hrtimerStart cpu => some (.add (.hrtimer cpu))
  | .timerStart cpu => some (.add (.timer cpu))
  | .unregister hook => some (.drop (.probe hook))
  | .hrtimerCancel cpu => some (.drop (.hrtimer cpu))
  | .delTimerSync cpu => some (.drop (.timer cpu))
  | _ => none

/-- A process writes to a file, where these calls are made. -/
def writes (calls : List Call) : List (Event Callback) := visit (calls.filterMap Call.fileEvent)

theorem forall_mem_filterMap {α β : Type} {f : α → Option β} {P : β → Prop} {xs : List α}
    (h : ∀ x ∈ xs, ∀ y, f x = some y → P y) : ∀ y ∈ xs.filterMap f, P y := by
  intro y hy
  obtain ⟨x, hx, hf⟩ := List.mem_filterMap.mp hy
  exact h x hx y hf

namespace Noschedule

theorem ops_exit_pre (unregister : Hook → Int) (online : List Nat) (hook : Hook) (buf : Nat) :
    ∃ pre, ops (traceNoscheduleExit unregister true online hook buf) = pre ++ [.removeFiles, .free]
      ∧ ∀ op ∈ pre, op = .synchronize ∨ ∃ p, op = .unregister p ∨ op = .cancel p := by
  refine ⟨(online.map Callback.hrtimer).map .cancel
    ++ (unregistered unregister [hook]).map .unregister ++ [.synchronize], ?_, ?_⟩
  · rw [ops_exit]
    simp
  · intro op hop
    simp only [List.mem_append, List.mem_map, List.mem_singleton] at hop
    rcases hop with (⟨p, -, rfl⟩ | ⟨p, -, rfl⟩) | rfl
    · exact .inr ⟨p, .inr rfl⟩
    · exact .inr ⟨p, .inl rfl⟩
    · exact .inl rfl

theorem drops_disable (online : List Nat) (hook : Hook) :
    ∀ e ∈ (disable online hook).filterMap Call.fileEvent, ∃ q, e = .drop q := by
  refine forall_mem_filterMap fun call hcall e he => ?_
  simp only [disable, List.mem_append, List.mem_map, List.mem_singleton] at hcall
  rcases hcall with ⟨cpu, -, rfl⟩ | rfl
  · exact ⟨_, (Option.some.inj he).symm⟩
  · exact ⟨_, (Option.some.inj he).symm⟩

theorem adds_enable (online : List Nat) (hook : Hook) :
    ∀ e ∈ (Call.register hook :: online.map .hrtimerStart).filterMap Call.fileEvent,
      ∃ q, e = .add q := by
  refine forall_mem_filterMap fun call hcall e he => ?_
  simp only [List.mem_cons, List.mem_map] at hcall
  rcases hcall with rfl | ⟨cpu, -, rfl⟩
  · exact ⟨_, (Option.some.inj he).symm⟩
  · exact ⟨_, (Option.some.inj he).symm⟩

end Noschedule

namespace Irqoff

theorem ops_exit (online : List Nat) (buf : Nat) :
    ops (exitCalls true online buf) = (timersOf online).map .cancel ++ [.removeFiles, .free] := by
  unfold exitCalls
  rw [if_pos rfl, ops_append, ops_cancelTimers]
  rfl

theorem drops_cancelTimers (online : List Nat) :
    ∀ e ∈ (traceIrqoffCancelTimers online).filterMap Call.fileEvent, ∃ q, e = .drop q := by
  refine forall_mem_filterMap fun call hcall e he => ?_
  obtain ⟨cpu, -, hcpu⟩ := List.mem_flatMap.mp hcall
  rcases List.mem_pair.mp hcpu with rfl | rfl
  · exact ⟨_, (Option.some.inj he).symm⟩
  · exact ⟨_, (Option.some.inj he).symm⟩

theorem adds_startTimers (online : List Nat) :
    ∀ e ∈ (traceIrqoffStartTimers online).filterMap Call.fileEvent, ∃ q, e = .add q := by
  refine forall_mem_filterMap fun call hcall e he => ?_
  obtain ⟨cpu, -, hcpu⟩ := List.mem_flatMap.mp hcall
  rcases List.mem_pair.mp hcpu with rfl | rfl
  · exact ⟨_, (Option.some.inj he).symm⟩
  · exact ⟨_, (Option.some.inj he).symm⟩

end Irqoff

/-- **Switched on too late.** While the module is removed, a process switches the tracer off and on again
by two writes to the file `enable`. The exit function has stopped the probe and the timers before the
second one, and waits for the process when it removes the files, but then it frees the buffer while the
probe of trace-noschedule, or a timer of trace-irqoff, is under way. -/
theorem enable_outlives_buffer (online : List Nat) (buf : Nat) :
    (∀ unregister hook,
      let off := Noschedule.enableStoreCalls 0 0 online hook true false
      let on := Noschedule.enableStoreCalls 0 0 online hook off.1 true
      ∃ es, es.filter Event.byProcess = writes off.2 ++ writes on.2
        ∧ let s := removal (Noschedule.callbacks online hook)
            (Noschedule.traceNoscheduleExit unregister true online hook buf) es
          s.freed = true ∧ ∃ n, (n, .probe hook) ∈ s.running)
    ∧ (∀ cpu ∈ online,
      let off := Irqoff.enableWriteCalls online true false
      let on := Irqoff.enableWriteCalls online off.1 true
      ∃ es, es.filter Event.byProcess = writes off.2 ++ writes on.2
        ∧ let s := removal (Irqoff.timersOf online).toFinset (Irqoff.exitCalls true online buf) es
          s.freed = true ∧ ∃ n, (n, .hrtimer cpu) ∈ s.running) := by
  constructor
  · intro unregister hook off on
    obtain ⟨pre, hops, hpre⟩ := Noschedule.ops_exit_pre unregister online hook buf
    have hadd : .add (.probe hook) ∈ on.2.filterMap Call.fileEvent :=
      List.mem_filterMap.mpr ⟨.register hook, List.mem_cons_self .., rfl⟩
    unfold removal
    rw [hops]
    exact exists_added hpre (Noschedule.drops_disable online hook) (Noschedule.adds_enable online hook)
      hadd
  · intro cpu hcpu off on
    have hpre : ∀ op ∈ (Irqoff.timersOf online).map Op.cancel,
        op = .synchronize ∨ ∃ p, op = .unregister p ∨ op = .cancel p := by
      intro op hop
      obtain ⟨p, -, rfl⟩ := List.mem_map.mp hop
      exact .inr ⟨p, .inr rfl⟩
    have hstart : .hrtimerStart cpu ∈ on.2 := List.mem_flatMap.mpr ⟨cpu, hcpu, List.mem_cons_self ..⟩
    have hadd : .add (.hrtimer cpu) ∈ on.2.filterMap Call.fileEvent :=
      List.mem_filterMap.mpr ⟨_, hstart, rfl⟩
    unfold removal
    rw [Irqoff.ops_exit]
    exact exists_added hpre (Irqoff.drops_cancelTimers online) (Irqoff.adds_startTimers online) hadd

/-- A machine with one CPU. -/
theorem enable_outlives_buffer_one :
    ∃ es, let s := removal (Irqoff.timersOf [0]).toFinset (Irqoff.exitCalls true [0] 1) es
      s.freed = true ∧ ∃ n, (n, .hrtimer 0) ∈ s.running := by
  obtain ⟨es, -, hes⟩ := (enable_outlives_buffer [0] 1).2 0 (List.mem_singleton_self 0)
  exact ⟨es, hes⟩

/-! ## The ways around -/

namespace Runqlat

/-- The loop that fails: the probes before the first failure are registered, and then unregistered from
the last one on. -/
theorem registerHooks_failed {a : Answers} {done hooks : List Hook}
    (h : (registerHooks a done hooks).1 ≠ 0) :
    (registerHooks a done hooks).2
      = (hooks.takeWhile (a.register · == 0)).map .register
        ++ unregisterHooks a.unregister
          ((hooks.takeWhile (a.register · == 0)).reverse ++ done) := by
  induction hooks generalizing done with
  | nil => exact absurd rfl h
  | cons hook hooks ih =>
      by_cases hret : a.register hook = 0
      · simp only [registerHooks, hret, ne_eq, not_true_eq_false, if_false] at h ⊢
        rw [ih h, List.takeWhile_cons_of_pos (by simp [hret])]
        simp
      · rw [List.takeWhile_cons_of_neg (by simp [hret])]
        simp [registerHooks, hret]

theorem init_of_register {a : Answers} {kernel : List Tracepoint} {buf : Nat} (hbuf : a.buf = some buf)
    (hmkdir : a.procMkdir = true) (hcreate : ∀ name ∈ procFiles, a.procCreate name = true)
    (hfound : ∀ name ∈ tpNames, ∃ tp ∈ kernel, tp.name = name)
    (hfails : ∃ hook ∈ hooksIn kernel, a.register hook ≠ 0) :
    (traceRunqlatInit a kernel).2
      = (.alloc buf :: .procCreate procDir [] :: (createEntries a.procCreate [procDir] procFiles).2)
        ++ (registerHooks a [] (hooksIn kernel)).2 ++ removeProc buf := by
  have hfiles := (createEntries_fst a.procCreate [procDir] procFiles).mpr hcreate
  have hlookup := (lookup_spec tpNames kernel).2.mpr hfound
  have hregister : (registerHooks a [] (hooksIn kernel)).1 ≠ 0 := by
    rw [ne_eq, registerHooks_fst]
    push Not
    exact hfails
  unfold traceRunqlatInit
  rw [hbuf]
  dsimp only
  rw [hmkdir, hfiles, hlookup]
  exact congrArg Prod.snd (if_pos hregister)

theorem ops_createEntries (ok : String → Bool) (dir names : List String) :
    ∀ op ∈ ops (createEntries ok dir names).2, op = .addFiles := by
  induction names with
  | nil => exact nofun
  | cons name names ih =>
      cases hok : ok name with
      | false => simp [createEntries, hok, ops]
      | true =>
          simp only [createEntries, hok, Bool.not_true, Bool.false_eq_true, if_false]
          exact List.forall_mem_cons.mpr ⟨rfl, ih⟩

/-- A probe that was registered before the one that fails is under way when the buffer is freed. -/
theorem init_outlived {a : Answers} {kernel : List Tracepoint} {buf : Nat} {hook : Hook}
    {before after : List Hook} (hbuf : a.buf = some buf) (hmkdir : a.procMkdir = true)
    (hcreate : ∀ name ∈ procFiles, a.procCreate name = true)
    (hfound : ∀ name ∈ tpNames, ∃ tp ∈ kernel, tp.name = name)
    (hhooks : hooksIn kernel = before ++ hook :: after)
    (hfirst : ∀ h ∈ before ++ [hook], a.register h = 0)
    (hfails : ∃ h ∈ after, a.register h ≠ 0) :
    ∃ es, let s := loading (traceRunqlatInit a kernel).2 es
      s.freed = true ∧ ∃ n, (n, .probe hook) ∈ s.running := by
  have hfails' : ∃ hook ∈ hooksIn kernel, a.register hook ≠ 0 := by
    obtain ⟨bad, hbad, hne⟩ := hfails
    exact ⟨bad, hhooks ▸ List.mem_append_right _ (List.mem_cons_of_mem _ hbad), hne⟩
  have hregister : (registerHooks a [] (hooksIn kernel)).1 ≠ 0 := by
    rw [ne_eq, registerHooks_fst]
    push Not
    exact hfails'
  obtain ⟨registered, hregistered⟩ :
      ∃ registered, registered = (hooksIn kernel).takeWhile (a.register · == 0) := ⟨_, rfl⟩
  have hmem : hook ∈ registered := by
    have hpos : ∀ h ∈ before ++ [hook], (a.register h == 0) = true := fun h hh => by
      simp [hfirst h hh]
    rw [hregistered, hhooks, List.append_cons, List.takeWhile_append_of_pos hpos]
    simp
  have hsplit : ops (traceRunqlatInit a kernel).2
      = (.addFiles :: ops (createEntries a.procCreate [procDir] procFiles).2
          ++ registered.map (fun h => .register (.probe h)))
        ++ ((unregistered a.unregister registered.reverse).map .unregister
          ++ [.removeFiles, .free]) := by
    rw [init_of_register hbuf hmkdir hcreate hfound hfails', registerHooks_failed hregister,
      ← hregistered, List.append_nil, ops_append, ops_append, ops_append, ops_unregisterHooks,
      ops_map (g := fun h => .register (.probe h)) (fun _ => rfl)]
    simp only [List.append_assoc]
    rfl
  unfold loading
  rw [hsplit]
  refine exists_used ?_ (.inr ?_) ?_ ?_ ?_
  · intro op hop
    simp only [List.cons_append, List.mem_cons, List.mem_append, List.mem_map] at hop
    rcases hop with rfl | hop | ⟨h, -, rfl⟩
    · exact .inl rfl
    · exact .inl (ops_createEntries _ _ _ op hop)
    · exact .inr ⟨_, rfl⟩
  · simp [hmem]
  · simp
  · simp
  · simp

end Runqlat

/-- **A probe outlives the buffer.** When a probe of trace-runqlat cannot be registered, the buffer may
be freed while one of those before it is under way; and so may the buffer of trace-noschedule when it
is switched off and then removed. -/
theorem probe_outlives_buffer :
    (∀ a kernel buf before hook after, a.buf = some buf → a.procMkdir = true →
      (∀ name ∈ Runqlat.procFiles, a.procCreate name = true) →
      (∀ name ∈ Runqlat.tpNames, ∃ tp ∈ kernel, tp.name = name) →
      Runqlat.hooksIn kernel = before ++ hook :: after →
      (∀ h ∈ before ++ [hook], a.register h = 0) → (∃ h ∈ after, a.register h ≠ 0) →
      ∃ es, let s := loading (Runqlat.traceRunqlatInit a kernel).2 es
        s.freed = true ∧ ∃ n, (n, .probe hook) ∈ s.running)
    ∧ (∀ unregister online hook buf,
      ∃ es, let s := removal (Noschedule.callbacks online hook)
              (Noschedule.disable online hook
                ++ Noschedule.traceNoscheduleExit unregister false online hook buf) es
        s.freed = true ∧ ∃ n, (n, .probe hook) ∈ s.running) := by
  constructor
  · intro a kernel buf before hook after hbuf hmkdir hcreate hfound hhooks hfirst hfails
    exact Runqlat.init_outlived hbuf hmkdir hcreate hfound hhooks hfirst hfails
  · intro unregister online hook buf
    have hops : ops (Noschedule.disable online hook
          ++ Noschedule.traceNoscheduleExit unregister false online hook buf)
        = [] ++ ((online.map Callback.hrtimer).map .cancel
          ++ [.unregister (.probe hook), .removeFiles, .free]) := by
      unfold Noschedule.disable
      rw [List.append_assoc, ops_append, Noschedule.ops_cancel]
      rfl
    unfold removal
    rw [hops]
    refine exists_used nofun (.inl (Finset.mem_insert_self ..)) ?_ ?_ ?_
    · simp
    · simp
    · simp

/-- The last of the tracepoints takes no probe, and the one at `sched_switch` is under way. -/
theorem probe_outlives_buffer_lastFails :
    ∃ es, let s := loading (Runqlat.traceRunqlatInit lastFails someTracepoints).2 es
      s.freed = true ∧ ∃ n, (n, .probe ⟨⟨"sched_switch", 0⟩, .schedSwitch⟩) ∈ s.running :=
  probe_outlives_buffer.1 lastFails someTracepoints 1
    [⟨⟨"sched_wakeup", 1⟩, .schedWakeup⟩, ⟨⟨"sched_wakeup_new", 3⟩, .schedWakeup⟩]
    ⟨⟨"sched_switch", 0⟩, .schedSwitch⟩ [⟨⟨"sched_migrate_task", 4⟩, .schedMigrateTask⟩]
    rfl rfl (fun _ _ => rfl) (by decide) (by decide) (by decide) (by decide)

end UioLinuxSample
