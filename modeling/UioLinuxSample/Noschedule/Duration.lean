import UioLinuxSample.Noschedule.Pending

set_option autoImplicit false

/-! # `trace_noschedule.c`: the duration of a record

The duration shown for a record is meant to be the length of the whole stretch without a
context switch: from the `last_timestamp` the record was saved against to the first switch
after it. The tick that saves the record writes a first value, the switch the final one.

The switch measures from the `last_timestamp` of its own moment and completes the record that
`skip` marks. So the duration comes out right when the save has set `skip`, which a save that
fills the entry array does not, and when no tick in between has moved `last_timestamp`, which
every tick does that finds the CPU idle, in user mode or with a single thread. `duration_law`
is the law under these two conditions, and `duration_law_broken` a run that breaks each.
-/

namespace UioLinuxSample.Noschedule

open Run

/-! ## The history -/

/-- A record that has been saved and waits for its first switch: its index, the
`last_timestamp` in force when it was saved and the duration it was saved with. -/
structure Await where
  index : Nat
  last : UInt64
  saved : UInt64
  deriving DecidableEq

/-- A record whose first switch has been processed. -/
structure Final where
  switchedAt : UInt64
  last : UInt64
  saved : UInt64
  deriving DecidableEq

/-- The clock, the records that wait for their first switch and those that have had it. -/
structure History where
  clock : UInt64
  awaiting : List Await
  final : Nat → Option Final

def History.start (clock : UInt64) : History := ⟨clock, [], fun _ => none⟩

/-- The records of `rs` have been switched out at `now`. -/
def complete (now : UInt64) (rs : List Await) (final : Nat → Option Final) :
    Nat → Option Final :=
  rs.foldl (fun final r => Function.update final r.index (some ⟨now, r.last, r.saved⟩)) final

def History.next (k : Kernel) (g : History) (s : State) (e : Event) : History :=
  match e with
  | .tick t =>
      let nr := s.cpu.nrStackEntries
      let st := (step k s e).cpu
      { g with
        clock := t.now
        awaiting := if nr < st.nrStackEntries
          then g.awaiting ++ [⟨nr, s.cpu.lastTimestamp, st.duration nr⟩] else g.awaiting }
  | .schedSwitch w =>
      if s.traceEnable then ⟨w.now, [], complete w.now g.awaiting g.final⟩
      else { g with clock := w.now }
  | _ => g

/-! ## The law and its conditions -/

/-- Only ticks and switches, with the tracer enabled and a clock that never goes back. -/
def Running (w : State × History) : Event → Prop
  | .tick t => w.1.traceEnable = true ∧ w.2.clock ≤ t.now
  | .schedSwitch sw => w.1.traceEnable = true ∧ w.2.clock ≤ sw.now
  | _ => False

/-- A save leaves room in the entry array, and a tick that moves `last_timestamp` finds no
record waiting for its switch. -/
def Completes (k : Kernel) (w : State × History) : Event → Prop
  | .tick t =>
      (Saves w.1.durationThreshold w.1.cpu t →
          w.1.cpu.nrEntries + (capturedStack k w.1.cpu t.capture).length < maxTraceEntries)
        ∧ (t.busy = false → w.2.awaiting = [])
  | _ => True

instance (w : State × History) : ∀ e, Decidable (Running w e)
  | .tick t => inferInstanceAs (Decidable (_ ∧ w.2.clock ≤ t.now))
  | .schedSwitch sw => inferInstanceAs (Decidable (_ ∧ w.2.clock ≤ sw.now))
  | .stackTrace _ => inferInstanceAs (Decidable False)
  | .enable _ => inferInstanceAs (Decidable False)
  | .threshold _ => inferInstanceAs (Decidable False)

instance (k : Kernel) (w : State × History) : ∀ e, Decidable (Completes k w e)
  | .tick _ => inferInstanceAs (Decidable ((_ → _ < _) ∧ (_ → w.2.awaiting = [])))
  | .schedSwitch _ => inferInstanceAs (Decidable True)
  | .stackTrace _ => inferInstanceAs (Decidable True)
  | .enable _ => inferInstanceAs (Decidable True)
  | .threshold _ => inferInstanceAs (Decidable True)

/-- Every record that has been switched out shows the time from the `last_timestamp` it was
saved against to that switch, at least what it was saved with and at least the threshold. -/
def DurationLaw (w : State × History) : Prop :=
  ∀ i f, w.2.final i = some f →
    w.1.cpu.duration i = f.switchedAt - f.last
      ∧ f.saved ≤ w.1.cpu.duration i ∧ w.1.durationThreshold ≤ w.1.cpu.duration i

/-! ## The invariant -/

/-- A waiting record is the last one and pending, and nothing has moved `last_timestamp`. -/
structure Waiting (threshold clock : UInt64) (st : PerCpuStackTrace) (r : Await) : Prop where
  pending : st.skip.isSome = true
  last_record : st.nrStackEntries = r.index + 1
  nr_le : st.nrStackEntries ≤ maxStaceTraceEntries
  last_eq : st.lastTimestamp = r.last
  saved_le : r.saved ≤ clock - r.last
  threshold_le : threshold ≤ r.saved

structure DurationInv (w : State × History) : Prop where
  last_le : w.1.cpu.lastTimestamp ≤ w.2.clock
  awaiting : w.2.awaiting = []
    ∨ ∃ r, w.2.awaiting = [r] ∧ Waiting w.1.durationThreshold w.2.clock w.1.cpu r
  /-- `skip` may be set from before the run; then no record of the run is complete yet. -/
  pending : w.1.cpu.skip.isSome = true → w.2.awaiting ≠ [] ∨ ∀ i, w.2.final i = none
  final_lt : ∀ i f, w.2.final i = some f →
    i < w.1.cpu.nrStackEntries ∧ ∀ r ∈ w.2.awaiting, i < r.index
  law : DurationLaw w

theorem sub_le_sub_of_le {a b c : UInt64} (hab : a ≤ b) (hbc : b ≤ c) : b - a ≤ c - a := by
  grind

/-- A step that completes no record and keeps the durations of the complete ones keeps the
law. -/
theorem DurationLaw.of_kept {w : State × History} (h : DurationLaw w) (w' : State × History)
    (hfinal : w'.2.final = w.2.final)
    (hthr : w'.1.durationThreshold = w.1.durationThreshold)
    (hdur : ∀ i f, w.2.final i = some f → w'.1.cpu.duration i = w.1.cpu.duration i) :
    DurationLaw w' := by
  intro i f hf
  rw [hfinal] at hf
  rw [hdur i f hf, hthr]
  exact h i f hf

theorem DurationInv.start (s : State) (clock : UInt64) (h : s.cpu.lastTimestamp ≤ clock) :
    DurationInv (s, History.start clock) where
  last_le := h
  awaiting := Or.inl rfl
  pending := fun _ => Or.inr fun _ => rfl
  final_lt := fun _ _ hf => by cases hf
  law := fun _ _ hf => by cases hf

/-- A tick that changes at most `last_timestamp`. -/
theorem DurationInv.tick_quiet (k : Kernel) {s : State} {g : History} {t : Tick}
    (h : DurationInv (s, g)) (hclock : g.clock ≤ t.now) (last : UInt64)
    (hst : (step k s (.tick t)).cpu = { s.cpu with lastTimestamp := last })
    (hlast : (last = s.cpu.lastTimestamp) ∨ (last = t.now ∧ g.awaiting = [])) :
    DurationInv (observe (step k) (History.next k) (s, g) (.tick t)) := by
  have hnext : History.next k g s (.tick t) = { g with clock := t.now } := by
    simp [History.next, hst]
  have hle : s.cpu.lastTimestamp ≤ g.clock := h.last_le
  have hlaw := h.law.of_kept (observe (step k) (History.next k) (s, g) (.tick t))
    (by simp only [observe, hnext]) rfl (fun i f _ => by simp only [observe, hst])
  refine ⟨?_, ?_, ?_, ?_, hlaw⟩ <;> simp only [observe, hnext, hst]
  · rcases hlast with rfl | ⟨rfl, -⟩
    · exact UInt64.le_trans hle hclock
    · exact UInt64.le_refl _
  · rcases h.awaiting with ha | ⟨r, ha, hw⟩
    · exact Or.inl ha
    · right
      refine ⟨r, ha, hw.pending, hw.last_record, hw.nr_le, ?_, ?_, hw.threshold_le⟩
      · rcases hlast with rfl | ⟨-, hnil⟩
        · exact hw.last_eq
        · rw [show g.awaiting = [r] from ha] at hnil
          cases hnil
      · refine UInt64.le_trans hw.saved_le (sub_le_sub_of_le ?_ hclock)
        rw [← hw.last_eq]
        exact hle
  · exact h.pending
  · exact h.final_lt

/-- A tick that saves a record without filling the entry array. -/
theorem DurationInv.tick_saves (k : Kernel) {s : State} {g : History} {t : Tick}
    (h : DurationInv (s, g)) (hclock : g.clock ≤ t.now)
    (hs : Saves s.durationThreshold s.cpu t)
    (hroom : s.cpu.nrEntries + (capturedStack k s.cpu t.capture).length < maxTraceEntries) :
    DurationInv (observe (step k) (History.next k) (s, g) (.tick t)) := by
  have hst : (step k s (.tick t)).cpu
      = { tickRecord k s.cpu t with skip := some t.capture.current } := by
    rw [← publish_nrEntries k s.cpu t.capture (t.now - s.cpu.lastTimestamp)] at hroom
    show traceNoschedHrtimerHandler k s.durationThreshold s.cpu t = _
    rw [hrtimerHandler_of_saves k hs]
    simp only [tickRecord, hroom, if_true]
  obtain ⟨-, hskip, hthr, hcap⟩ := hs
  -- nothing was waiting, or the save would have been blocked
  have hnil : g.awaiting = [] := by
    rcases h.awaiting with ha | ⟨r, -, hw⟩
    · exact ha
    · have hp := hw.pending
      rw [hskip] at hp
      cases hp
  have hnext : History.next k g s (.tick t) = { g with
      clock := t.now
      awaiting := [⟨s.cpu.nrStackEntries, s.cpu.lastTimestamp, t.now - s.cpu.lastTimestamp⟩] } := by
    simp [History.next, hst, hnil, tickRecord]
  have hle : s.cpu.lastTimestamp ≤ t.now := UInt64.le_trans h.last_le hclock
  have hlaw := h.law.of_kept (observe (step k) (History.next k) (s, g) (.tick t))
    (by simp only [observe, hnext]) rfl (fun i f hf => by
      have hlt : i < s.cpu.nrStackEntries := (h.final_lt i f hf).1
      simp only [observe, hst]
      exact Function.update_of_ne (Nat.ne_of_lt hlt) _ _)
  refine ⟨?_, ?_, ?_, ?_, hlaw⟩ <;> simp only [observe, hnext, hst]
  · exact hle
  · right
    exact ⟨_, rfl, rfl, rfl, hcap.1, rfl, UInt64.le_refl _, hthr⟩
  · intro _
    left
    simp
  · intro i f hf
    have hlt := (h.final_lt i f hf).1
    refine ⟨Nat.lt_succ_of_lt hlt, ?_⟩
    intro r hr
    rw [List.mem_singleton.mp hr]
    exact hlt

section Switch

variable (k : Kernel) {s : State} {g : History} {w : Switch}

/-- A processed switch runs `probe_sched_switch` and completes the records that wait. -/
theorem schedSwitch_enabled (hen : s.traceEnable = true) :
    (step k s (.schedSwitch w)).cpu = completeSwitch s.cpu w ∧
      History.next k g s (.schedSwitch w) = ⟨w.now, [], complete w.now g.awaiting g.final⟩ := by
  constructor
  · simp [step, probeSchedSwitch, hen]
  · simp [History.next, hen]

/-- A processed switch when no record waits: it changes no complete one. -/
theorem DurationInv.switch_idle (h : DurationInv (s, g)) (hen : s.traceEnable = true)
    (hnil : g.awaiting = []) :
    DurationInv (observe (step k) (History.next k) (s, g) (.schedSwitch w)) := by
  obtain ⟨hst, hnext⟩ := schedSwitch_enabled k (g := g) (w := w) hen
  -- `skip` can still be set from before the run, but then there is no complete record to harm
  have hdur : ∀ i f, g.final i = some f →
      (completeSwitch s.cpu w).duration i = s.cpu.duration i := by
    intro i f hf
    rw [completeSwitch_duration]
    split
    · next hset =>
        rcases h.pending hset with hne | hnone
        · exact absurd hnil hne
        · have hf' : g.final i = none := hnone i
          rw [hf] at hf'
          cases hf'
    · rfl
  have hlaw := h.law.of_kept (observe (step k) (History.next k) (s, g) (.schedSwitch w))
    (by simp only [observe, hnext, hnil, complete, List.foldl_nil]) rfl
    (fun i f hf => by simpa only [observe, hst] using hdur i f hf)
  refine ⟨?_, ?_, ?_, ?_, hlaw⟩ <;>
    simp only [observe, hnext, hst, hnil, complete, List.foldl_nil]
  · simp
  · simp
  · simp
  · intro i f hf
    simpa using (h.final_lt i f hf).1

/-- The record that waits is the one whose duration the switch writes. -/
theorem Waiting.completeSwitch_duration {threshold clock : UInt64} {st : PerCpuStackTrace}
    {r : Await} (hw : Waiting threshold clock st r) :
    (completeSwitch st w).duration = Function.update st.duration r.index (w.now - r.last) := by
  have hmax : maxStaceTraceEntries = 16 := rfl
  have hlast := hw.last_record
  have hle := hw.nr_le
  have hidx : durationIndex st = r.index := by
    rw [durationIndex_of_pos (by omega) (by omega)]
    omega
  rw [Noschedule.completeSwitch_duration, if_pos hw.pending, hidx, hw.last_eq]

/-- A processed switch that completes the waiting record. -/
theorem DurationInv.switch_completes (h : DurationInv (s, g)) (hen : s.traceEnable = true)
    (hclock : g.clock ≤ w.now) {r : Await} (ha : g.awaiting = [r])
    (hw : Waiting s.durationThreshold g.clock s.cpu r) :
    DurationInv (observe (step k) (History.next k) (s, g) (.schedSwitch w)) := by
  obtain ⟨hst, hnext⟩ := schedSwitch_enabled k (g := g) (w := w) hen
  have hsaved : r.saved ≤ w.now - r.last := by
    refine UInt64.le_trans hw.saved_le (sub_le_sub_of_le ?_ hclock)
    rw [← hw.last_eq]
    exact h.last_le
  refine ⟨?_, ?_, ?_, ?_, ?_⟩ <;>
    simp only [observe, hnext, hst, ha, complete, List.foldl_cons, List.foldl_nil]
  · simp
  · simp
  · simp
  · intro i f hf
    refine ⟨?_, by simp⟩
    have hlast : s.cpu.nrStackEntries = r.index + 1 := hw.last_record
    rw [completeSwitch_nrStackEntries]
    by_cases hi : i = r.index
    · omega
    · rw [Function.update_of_ne hi] at hf
      exact (h.final_lt i f hf).1
  · -- the completed record satisfies the law by what was known of it while it waited
    intro i f hf
    have hf : Function.update g.final r.index (some ⟨w.now, r.last, r.saved⟩) i = some f := hf
    show (step k s (.schedSwitch w)).cpu.duration i = _
      ∧ _ ≤ (step k s (.schedSwitch w)).cpu.duration i
      ∧ s.durationThreshold ≤ (step k s (.schedSwitch w)).cpu.duration i
    rw [hst, hw.completeSwitch_duration]
    by_cases hi : i = r.index
    · subst hi
      rw [Function.update_self] at hf ⊢
      cases hf
      exact ⟨rfl, hsaved, UInt64.le_trans hw.threshold_le hsaved⟩
    · rw [Function.update_of_ne hi] at hf ⊢
      exact h.law i f hf

theorem DurationInv.schedSwitch (h : DurationInv (s, g)) (hen : s.traceEnable = true)
    (hclock : g.clock ≤ w.now) :
    DurationInv (observe (step k) (History.next k) (s, g) (.schedSwitch w)) := by
  rcases h.awaiting with hnil | ⟨r, ha, hw⟩
  · exact h.switch_idle k hen hnil
  · exact h.switch_completes k hen hclock ha hw

end Switch

theorem DurationInv.step (k : Kernel) (w : State × History) (e : Event) (h : DurationInv w)
    (hrun : Running w e ∧ Completes k w e) :
    DurationInv (observe (step k) (History.next k) w e) := by
  obtain ⟨s, g⟩ := w
  obtain ⟨hrun, hok⟩ := hrun
  cases e with
  | tick t =>
      cases hb : t.busy with
      | false =>
          refine h.tick_quiet k hrun.2 t.now ?_ (Or.inr ⟨rfl, hok.2 hb⟩)
          exact hrtimerHandler_of_not_busy k hb
      | true =>
          by_cases hs : Saves s.durationThreshold s.cpu t
          · exact h.tick_saves k hrun.2 hs (hok.1 hs)
          · refine h.tick_quiet k hrun.2 s.cpu.lastTimestamp ?_ (Or.inl rfl)
            exact hrtimerHandler_of_not_saves k hb hs
  | schedSwitch w => exact h.schedSwitch k hrun.1 hrun.2
  | stackTrace clear => exact hrun.elim
  | enable w => exact hrun.elim
  | threshold val => exact hrun.elim

/-- **The duration law.** In a run of ticks and switches whose saves leave room in the entry
array and whose ticks between a save and its switch all find a busy CPU in kernel mode, every
record shows the time from its `last_timestamp` to its first switch. -/
theorem duration_law (k : Kernel) (s : State) (clock : UInt64) (es : List Event)
    (hlast : s.cpu.lastTimestamp ≤ clock)
    (hrun : Steps (observe (step k) (History.next k)) (fun w e => Running w e ∧ Completes k w e)
      (s, History.start clock) es) :
    DurationLaw (run (observe (step k) (History.next k)) (s, History.start clock) es) :=
  (inv_run (fun w e => DurationInv.step k w e) (DurationInv.start s clock hlast) hrun).law

/-- The tracer, enabled at time `1` with the default threshold of 50 ms. -/
def enabled : State := run (step ⟨false, false⟩) State.init [.enable ⟨some true, 1, 0, 0⟩]

/-- A tick that finds `busyTask` in user mode. -/
def userTick (now : UInt64) : Tick := ⟨now, ⟨busyTask, some ⟨true⟩, ⟨[], []⟩⟩, 2⟩

/-- A busy tick with a stack as deep as the entry array. -/
def deepTick (now : UInt64) : Tick :=
  ⟨now, ⟨busyTask, some ⟨false⟩, ⟨[], List.replicate 128 1⟩⟩, 2⟩

theorem duration_law_one_record :
    Steps (observe (step ⟨false, false⟩) (History.next ⟨false, false⟩))
        (fun w e => Running w e ∧ Completes ⟨false, false⟩ w e) (enabled, History.start 1)
        [.tick (busyTick 60000001), .tick (busyTick 70000001),
          .schedSwitch ⟨75000001, busyTask, 2⟩]
      ∧ DurationLaw (run (observe (step ⟨false, false⟩) (History.next ⟨false, false⟩))
          (enabled, History.start 1)
          [.tick (busyTick 60000001), .tick (busyTick 70000001),
            .schedSwitch ⟨75000001, busyTask, 2⟩]) := by
  have h : Steps (observe (step ⟨false, false⟩) (History.next ⟨false, false⟩))
      (fun w e => Running w e ∧ Completes ⟨false, false⟩ w e) (enabled, History.start 1)
      [.tick (busyTick 60000001), .tick (busyTick 70000001),
        .schedSwitch ⟨75000001, busyTask, 2⟩] := by decide
  exact ⟨h, duration_law _ _ _ _ (by decide) h⟩

/-- A record saved at 60 ms shows 5 ms, because a tick in user mode came before its switch; and
one that fills the entry array keeps the 60 ms it was saved with, 10 ms short. -/
theorem duration_law_broken :
    (Steps (observe (step ⟨false, false⟩) (History.next ⟨false, false⟩)) Running
        (enabled, History.start 1)
        [.tick (busyTick 60000001), .tick (userTick 65000001),
          .schedSwitch ⟨70000001, busyTask, 2⟩]
      ∧ ¬ DurationLaw (run (observe (step ⟨false, false⟩) (History.next ⟨false, false⟩))
          (enabled, History.start 1)
          [.tick (busyTick 60000001), .tick (userTick 65000001),
            .schedSwitch ⟨70000001, busyTask, 2⟩]))
    ∧ (Steps (observe (step ⟨false, false⟩) (History.next ⟨false, false⟩)) Running
        (enabled, History.start 1)
        [.tick (deepTick 60000001), .schedSwitch ⟨70000001, busyTask, 2⟩]
      ∧ ¬ DurationLaw (run (observe (step ⟨false, false⟩) (History.next ⟨false, false⟩))
          (enabled, History.start 1)
          [.tick (deepTick 60000001), .schedSwitch ⟨70000001, busyTask, 2⟩])) := by
  refine ⟨⟨by decide, fun h => ?_⟩, ⟨by decide, fun h => ?_⟩⟩
  · exact absurd (h 0 ⟨70000001, 1, 60000000⟩ rfl).1 (by decide)
  · exact absurd (h 0 ⟨70000001, 1, 60000000⟩ (by decide +kernel)).1 (by decide +kernel)

end UioLinuxSample.Noschedule
