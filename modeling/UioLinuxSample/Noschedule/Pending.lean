import UioLinuxSample.Noschedule.Model
import UioLinuxSample.Lib.Run

set_option autoImplicit false

/-! # `trace_noschedule.c`: the pending record

`skip` marks the record whose duration the next context switch completes. Two facts about it
hold over whole runs.

* The switch writes `duration[nr_stack_entries - 1]`. That is the pending record exactly as
  long as no clear has come between: `each_stack_trace_clear` resets the counters and leaves
  `skip`, and the index wraps to `2^32 - 1` (`durationIndex_ok_iff`).
* Between two processed switches at most one record is saved (`records_le_one`). `skip` alone
  does not give this, because a save that fills the entry array does not set it; the capacity
  check does the rest.
-/

namespace UioLinuxSample.Noschedule

open Run

/-! ## What a step does to the pending state -/

/-- The two states agree on what decides about saving and completing records. -/
def SamePending (st st' : PerCpuStackTrace) : Prop :=
  st'.skip = st.skip ∧ st'.nrStackEntries = st.nrStackEntries ∧ st'.nrEntries = st.nrEntries

theorem SamePending.refl (st : PerCpuStackTrace) : SamePending st st := ⟨rfl, rfl, rfl⟩

/-- A tick keeps the pending state or saves a record. -/
theorem hrtimerHandler_pending (k : Kernel) (threshold : UInt64) (st : PerCpuStackTrace)
    (t : Tick) :
    SamePending st (traceNoschedHrtimerHandler k threshold st t)
      ∨ (Saves threshold st t ∧ traceNoschedHrtimerHandler k threshold st t
          = { tickRecord k st t with
              skip := if (tickRecord k st t).nrEntries < maxTraceEntries
                then some t.capture.current else none }) := by
  cases hb : t.busy with
  | false =>
      rw [hrtimerHandler_of_not_busy k hb]
      exact Or.inl (SamePending.refl st)
  | true =>
      by_cases hs : Saves threshold st t
      · exact Or.inr ⟨hs, hrtimerHandler_of_saves k hs⟩
      · rw [hrtimerHandler_of_not_saves k hb hs]
        exact Or.inl (SamePending.refl st)

theorem enableStore_samePending (s : State) (w : EnableWrite) :
    SamePending s.cpu (enableStore s w).2.cpu := by
  rcases enableStore_cpu s w with h | h <;> rw [h] <;> exact SamePending.refl _

/-- The user asks for a clear. -/
def Event.clears : Event → Bool
  | .stackTrace (some 0) => true
  | _ => false

theorem stackTraceStore_cpu (s : State) {clear : Option Int}
    (h : (Event.stackTrace clear).clears = false) :
    (stackTraceStore s clear).2.cpu = s.cpu := by
  unfold stackTraceStore
  split
  · cases h
  · rfl

theorem thresholdStore_cpu (s : State) (val : Option UInt64) :
    (thresholdStore s val).2.cpu = s.cpu := by
  cases val <;> rfl

/-- The event is a context switch that the probe does not ignore. -/
def Processed (s : State) : Event → Prop
  | .schedSwitch _ => s.traceEnable = true
  | _ => False

instance (s : State) : ∀ e, Decidable (Processed s e)
  | .schedSwitch _ => inferInstanceAs (Decidable (s.traceEnable = true))
  | .tick _ => inferInstanceAs (Decidable False)
  | .stackTrace _ => inferInstanceAs (Decidable False)
  | .enable _ => inferInstanceAs (Decidable False)
  | .threshold _ => inferInstanceAs (Decidable False)

/-- **What one step can do to the pending state.** It keeps it, saves a record, completes the
pending one, or clears. -/
theorem step_pending (k : Kernel) (s : State) (e : Event) :
    (e.clears = false ∧ SamePending s.cpu (step k s e).cpu)
      ∨ (∃ t, e = .tick t ∧ Saves s.durationThreshold s.cpu t
          ∧ (step k s e).cpu = { tickRecord k s.cpu t with
              skip := if (tickRecord k s.cpu t).nrEntries < maxTraceEntries
                then some t.capture.current else none })
      ∨ (∃ w, e = .schedSwitch w ∧ Processed s e ∧ (step k s e).cpu = completeSwitch s.cpu w)
      ∨ (e.clears = true ∧ (step k s e).cpu = eachStackTraceClear s.cpu) := by
  cases e with
  | tick t =>
      rcases hrtimerHandler_pending k s.durationThreshold s.cpu t with h | ⟨hs, h⟩
      · exact Or.inl ⟨rfl, h⟩
      · exact Or.inr (Or.inl ⟨t, rfl, hs, h⟩)
  | schedSwitch w =>
      -- the probe returns at once while `trace_enable` is clear
      cases he : s.traceEnable with
      | false =>
          refine Or.inl ⟨rfl, ?_⟩
          simp only [step, probeSchedSwitch, he]
          exact SamePending.refl _
      | true =>
          refine Or.inr (Or.inr (Or.inl ⟨w, rfl, he, ?_⟩))
          simp [step, probeSchedSwitch, he]
  | stackTrace clear =>
      cases hc : (Event.stackTrace clear).clears with
      | false =>
          refine Or.inl ⟨rfl, ?_⟩
          simp only [step, stackTraceStore_cpu s hc]
          exact SamePending.refl _
      | true =>
          refine Or.inr (Or.inr (Or.inr ⟨rfl, ?_⟩))
          simp only [step, stackTraceStore]
          split
          · rfl
          · simp_all [Event.clears]
  | enable w => exact Or.inl ⟨rfl, enableStore_samePending s w⟩
  | threshold val =>
      refine Or.inl ⟨rfl, ?_⟩
      simp only [step, thresholdStore_cpu]
      exact SamePending.refl _

/-! ## The index the switch writes at -/

theorem durationIndex_of_pos {st : PerCpuStackTrace} (h : 0 < st.nrStackEntries)
    (hlt : st.nrStackEntries < 2 ^ 32) : durationIndex st = st.nrStackEntries - 1 := by
  have hnat : (UInt32.ofNat st.nrStackEntries).toNat = st.nrStackEntries :=
    UInt32.toNat_ofNat_of_lt' hlt
  unfold durationIndex
  rw [UInt32.toNat_sub_of_le, hnat]
  · rfl
  · rw [UInt32.le_iff_toNat_le, hnat]
    exact h

theorem durationIndex_of_zero {st : PerCpuStackTrace} (h : st.nrStackEntries = 0) :
    durationIndex st = 4294967295 := by
  rw [durationIndex, h]
  rfl

/-- The history of the pending record: the index at which the record that set `skip` was saved,
and whether a clear has come since. -/
structure Pending where
  index : Nat
  wiped : Bool

/-- `skip` is set by this step, with the record saved at index `nr_stack_entries`. -/
def Pending.next (k : Kernel) (g : Pending) (s : State) (e : Event) : Pending :=
  if s.cpu.skip.isNone && (step k s e).cpu.skip.isSome then ⟨s.cpu.nrStackEntries, false⟩
  else if e.clears then { g with wiped := true }
  else g

/-- If this step is a switch that finds `skip` set, it writes inside `duration[]`, at the
record that set `skip`. -/
def IndexOk (w : State × Pending) (e : Event) : Prop :=
  Processed w.1 e → w.1.cpu.skip.isSome = true →
    durationIndex w.1.cpu < maxStaceTraceEntries ∧ durationIndex w.1.cpu = w.2.index

instance (w : State × Pending) (e : Event) : Decidable (IndexOk w e) :=
  inferInstanceAs (Decidable (_ → _ → _))

/-- If this step is a switch that finds `skip` set, no clear has come since it was set. -/
def NotWiped (w : State × Pending) (e : Event) : Prop :=
  Processed w.1 e → w.1.cpu.skip.isSome = true → w.2.wiped = false

/-- The invariant: a pending record is the last one, until a clear removes it. -/
structure PendingInv (w : State × Pending) : Prop where
  nr_le : w.1.cpu.nrStackEntries ≤ maxStaceTraceEntries
  last : w.1.cpu.skip.isSome = true → w.2.wiped = false →
    w.1.cpu.nrStackEntries = w.2.index + 1
  none_left : w.1.cpu.skip.isSome = true → w.2.wiped = true → w.1.cpu.nrStackEntries = 0

theorem PendingInv.init (g : Pending) : PendingInv (State.init, g) where
  nr_le := Nat.zero_le _
  last := fun h => by cases h
  none_left := fun h => by cases h

/-- The history after a step that does not newly set `skip`. -/
theorem Pending.next_of_kept {k : Kernel} {g : Pending} {s : State} {e : Event}
    (h : s.cpu.skip.isSome = true ∨ (step k s e).cpu.skip = none) :
    Pending.next k g s e = if e.clears then { g with wiped := true } else g := by
  unfold Pending.next
  rcases h with h | h
  · obtain ⟨p, hp⟩ := Option.isSome_iff_exists.mp h
    simp [hp]
  · simp [h]

section Step

variable (k : Kernel) {s : State} {g : Pending} {e : Event}

theorem PendingInv.kept (h : PendingInv (s, g)) (hc : e.clears = false)
    (hsame : SamePending s.cpu (step k s e).cpu) :
    PendingInv (observe (step k) (Pending.next k) (s, g) e) := by
  obtain ⟨hle, hlast, hnone⟩ := h
  obtain ⟨h1, h2, -⟩ := hsame
  have hg : Pending.next k g s e = g := by
    rw [Pending.next_of_kept, hc]
    · rfl
    · cases hsk : s.cpu.skip with
      | none => exact Or.inr (h1.trans hsk)
      | some p => exact Or.inl rfl
  simp only [observe, hg]
  exact ⟨h2 ▸ hle, by rw [h1, h2]; exact hlast, by rw [h1, h2]; exact hnone⟩

/-- The record just saved is the last one, and pending if the handler marks it. -/
theorem PendingInv.saved {t : Tick} (hs : Saves s.durationThreshold s.cpu t)
    (hst : (step k s (.tick t)).cpu = { tickRecord k s.cpu t with
      skip := if (tickRecord k s.cpu t).nrEntries < maxTraceEntries
        then some t.capture.current else none }) :
    PendingInv (observe (step k) (Pending.next k) (s, g) (.tick t)) := by
  obtain ⟨-, hskip, -, hroom⟩ := hs
  have hnr : (step k s (.tick t)).cpu.nrStackEntries = s.cpu.nrStackEntries + 1 := by
    rw [hst]; rfl
  -- the handler saves only with `skip` clear, so a `skip` found set was set by this tick
  have hg : (step k s (.tick t)).cpu.skip.isSome = true →
      Pending.next k g s (.tick t) = ⟨s.cpu.nrStackEntries, false⟩ := by
    intro hset
    simp [Pending.next, hskip, hset]
  refine ⟨?_, ?_, ?_⟩
  · show (step k s (.tick t)).cpu.nrStackEntries ≤ _
    rw [hnr]
    exact hroom.1
  · intro hset _
    show (step k s (.tick t)).cpu.nrStackEntries = (Pending.next k g s (.tick t)).index + 1
    rw [hg hset, hnr]
  · intro hset hw
    rw [observe_snd, hg hset] at hw
    cases hw

/-- A processed switch leaves no record pending. -/
theorem PendingInv.switched (h : PendingInv (s, g)) {w : Switch}
    (hst : (step k s e).cpu = completeSwitch s.cpu w) :
    PendingInv (observe (step k) (Pending.next k) (s, g) e) := by
  have hskip : (step k s e).cpu.skip = none := by rw [hst]; simp
  refine ⟨?_, ?_, ?_⟩
  · show (step k s e).cpu.nrStackEntries ≤ _
    rw [hst]
    simpa using h.nr_le
  · intro hset
    rw [observe_fst, hskip] at hset
    cases hset
  · intro hset
    rw [observe_fst, hskip] at hset
    cases hset

/-- A clear leaves `skip` as it is, and the history notes that the record is gone. -/
theorem PendingInv.cleared (hc : e.clears = true)
    (hst : (step k s e).cpu = eachStackTraceClear s.cpu) :
    PendingInv (observe (step k) (Pending.next k) (s, g) e) := by
  have hnr : (step k s e).cpu.nrStackEntries = 0 := by rw [hst]; rfl
  have hskip : (step k s e).cpu.skip = s.cpu.skip := by rw [hst]; rfl
  refine ⟨?_, ?_, fun _ _ => hnr⟩
  · show (step k s e).cpu.nrStackEntries ≤ _
    rw [hnr]
    exact Nat.zero_le _
  · intro hset hw
    rw [observe_fst, hskip] at hset
    rw [observe_snd, Pending.next_of_kept (Or.inl hset), hc] at hw
    cases hw

end Step

theorem PendingInv.step (k : Kernel) (w : State × Pending) (e : Event) (h : PendingInv w) :
    PendingInv (observe (step k) (Pending.next k) w e) := by
  obtain ⟨s, g⟩ := w
  rcases step_pending k s e with ⟨hc, hsame⟩ | ⟨t, rfl, hs, hst⟩ | ⟨w, -, -, hst⟩ | ⟨hc, hst⟩
  · exact h.kept k hc hsame
  · exact PendingInv.saved k hs hst
  · exact h.switched k hst
  · exact PendingInv.cleared k hc hst

/-- Under the invariant the index is right exactly when no clear has removed the record. -/
theorem indexOk_iff_notWiped {w : State × Pending} (e : Event) (h : PendingInv w) :
    IndexOk w e ↔ NotWiped w e := by
  refine forall_congr' fun _ => forall_congr' fun hset => ?_
  cases hw : w.2.wiped with
  | false =>
      have hnr := h.last hset hw
      have hle := h.nr_le
      have hmax : maxStaceTraceEntries = 16 := rfl
      rw [durationIndex_of_pos (by omega) (by omega)]
      simp only [iff_true]
      omega
  | true =>
      rw [durationIndex_of_zero (h.none_left hset hw)]
      simp [maxStaceTraceEntries, maxTraceEntries, perTraceEntriesAverage]

/-- **Where `probe_sched_switch` writes.** In a run from the zeroed state, every switch that
finds `skip` set writes inside `duration[]` and at the record that set `skip`, if and only if
no such switch comes after a clear of that record. -/
theorem durationIndex_ok_iff (k : Kernel) (g : Pending) (es : List Event) :
    Steps (observe (step k) (Pending.next k)) IndexOk (State.init, g) es
      ↔ Steps (observe (step k) (Pending.next k)) NotWiped (State.init, g) es :=
  Steps.iff_of_inv (fun w e h _ => PendingInv.step k w e h)
    (fun _ e h _ => indexOk_iff_notWiped e h) (PendingInv.init g) (Steps.of_forall fun _ _ => trivial)

/-- A thread that runs in the kernel with another one waiting. -/
def busyTask : TaskStruct := ⟨7, Comm.empty, false, taskRunning, 0⟩

/-- A tick of a busy CPU in kernel mode, with a stack of one entry. -/
def busyTick (now : UInt64) : Tick := ⟨now, ⟨busyTask, some ⟨false⟩, ⟨[1], [1]⟩⟩, 2⟩

/-- The tracer is enabled, a tick saves a record, the user clears, the thread is switched out. -/
def wipedRun : List Event :=
  [.enable ⟨some true, 1, 0, 0⟩, .tick (busyTick 60000001), .stackTrace (some 0),
    .schedSwitch ⟨70000001, busyTask, 2⟩]

theorem durationIndex_wild_after_clear :
    ¬ Steps (observe (step ⟨false, false⟩) (Pending.next ⟨false, false⟩)) IndexOk
        (State.init, ⟨0, false⟩) wipedRun := by
  decide

/-! ## At most one record between two switches -/

/-- Neither a switch that the probe processes nor a clear. -/
def Between (s : State) (e : Event) : Prop := ¬ Processed s e ∧ e.clears = false

instance (s : State) (e : Event) : Decidable (Between s e) := inferInstanceAs (Decidable (_ ∧ _))

/-- No record is saved after `n` records, or one has been saved and no other can be: it is
pending, or the entry array is full. -/
def SavedAtMostOnce (n : Nat) (s : State) : Prop :=
  s.cpu.nrStackEntries = n
    ∨ (s.cpu.nrStackEntries = n + 1
        ∧ (s.cpu.skip.isSome = true ∨ maxTraceEntries ≤ s.cpu.nrEntries))

theorem SavedAtMostOnce.step (k : Kernel) {n : Nat} (s : State) (e : Event)
    (h : SavedAtMostOnce n s) (hb : Between s e) : SavedAtMostOnce n (step k s e) := by
  rcases step_pending k s e with ⟨-, h1, h2, h3⟩ | ⟨t, rfl, hs, hst⟩ | ⟨w, rfl, hp, -⟩ | ⟨hc, -⟩
  · unfold SavedAtMostOnce
    rw [h1, h2, h3]
    exact h
  · obtain ⟨-, hskip, -, hroom⟩ := hs
    rcases h with h | ⟨-, hp | hfull⟩
    · right
      rw [hst]
      refine ⟨by rw [← h]; rfl, ?_⟩
      by_cases hfull : (tickRecord k s.cpu t).nrEntries < maxTraceEntries
      · exact Or.inl (by simp [hfull])
      · exact Or.inr (Nat.le_of_not_lt hfull)
    · -- a pending record blocks the save
      rw [hskip] at hp
      cases hp
    · exact absurd hroom.2 (Nat.not_lt_of_le hfull)
  · exact absurd hp hb.1
  · rw [hb.2] at hc
    cases hc

/-- **One record for each stretch.** Whatever ticks, writes to `enable` and threshold changes
come between two processed context switches, and whatever the state they start from, the
number of records grows by at most one. -/
theorem records_le_one (k : Kernel) (s : State) (es : List Event)
    (h : Steps (step k) Between s es) :
    (run (step k) s es).cpu.nrStackEntries ≤ s.cpu.nrStackEntries + 1 := by
  have hinv : SavedAtMostOnce s.cpu.nrStackEntries (run (step k) s es) :=
    inv_run (fun s e => SavedAtMostOnce.step k s e) (Or.inl rfl) h
  rcases hinv with h | ⟨h, -⟩ <;> omega

theorem records_le_one_two_ticks :
    Steps (step ⟨false, false⟩) Between State.init
        [.threshold (some 0), .tick (busyTick 5), .enable ⟨some true, 6, 0, 0⟩, .tick (busyTick 7)]
      ∧ (run (step ⟨false, false⟩) State.init
          [.threshold (some 0), .tick (busyTick 5), .enable ⟨some true, 6, 0, 0⟩,
            .tick (busyTick 7)]).cpu.nrStackEntries ≤ 1 := by
  have h : Steps (step ⟨false, false⟩) Between State.init
      [.threshold (some 0), .tick (busyTick 5), .enable ⟨some true, 6, 0, 0⟩,
        .tick (busyTick 7)] := by decide
  exact ⟨h, records_le_one _ _ _ h⟩

end UioLinuxSample.Noschedule
