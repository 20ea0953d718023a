import UioLinuxSample.Irqoff.Counting

set_option autoImplicit false

/-! # `trace_irqoff.c`: the first sighting of a long softirq-off window

While softirqs are off only the high-resolution timer runs, and its first tick that sees them
off for `trace_irqoff_latency` is to save the stack: later the culprit may be gone, and the
record of the low-resolution timer then shows an innocent thread. `softirq_delayed` makes it
the first tick only. The flag is set by that tick and cleared by the low-resolution timer.

Stopping and starting the tracer does neither. A session that is stopped inside a softirq-off
window hands the set flag on to the next session, which then misses its own first sighting.
`first_sighting_iff` says that this is the only way to miss one.
-/

namespace UioLinuxSample.Irqoff

open Run

/-! ## The history -/

/-- The tick is not late itself and sees softirqs off for `trace_irqoff_latency` or longer. -/
def sights (s : State) (t : Tick) : Bool :=
  decide (gap s.cpu t.now < s.cfg.throttle)
    && decide (s.cfg.traceIrqoffLatency ≤ softGap s.cpu t.now)

/-- Since the start of the session or the last tick of the low-resolution timer, whichever is
later: whether a tick has sighted a long window, and whether `softirq_delayed` was set already
when the session started. -/
structure Session where
  sighted : Bool
  stale : Bool

/-- The write starts a session. -/
def startsSession (s : State) : Event → Bool
  | .enable (some true) _ => !s.traceEnable
  | _ => false

def Session.next (g : Session) (s : State) (e : Event) : Session :=
  match e with
  | .hrtimer t => { g with sighted := g.sighted || sights s t }
  | .timer _ => ⟨false, false⟩
  | e => if startsSession s e then ⟨false, s.cpu.softirqDelayed⟩ else g

/-! ## The property -/

/-- Writes of `enable` and ticks of both timers, the reporting threshold at least two sampling
periods, and a register frame in hard interrupt context. -/
def Sessions (w : State × Session) : Event → Prop
  | .hrtimer t => t.capture.irqRegs.isSome = true
      ∧ 2 * w.1.cfg.samplingPeriod.toNat ≤ w.1.cfg.traceIrqoffLatency.toNat
  | .timer _ => 2 * w.1.cfg.samplingPeriod.toNat ≤ w.1.cfg.traceIrqoffLatency.toNat
  | .enable _ _ => True
  | _ => False

instance (w : State × Session) : ∀ e, Decidable (Sessions w e)
  | .hrtimer _ => inferInstanceAs (Decidable (_ ∧ _ ≤ _))
  | .timer _ => inferInstanceAs (Decidable (_ ≤ _))
  | .enable _ _ => inferInstanceAs (Decidable True)
  | .traceLatency _ => inferInstanceAs (Decidable False)
  | .samplingPeriod _ => inferInstanceAs (Decidable False)

/-- The tick is the first sighting of its window in an enabled session, and the softirq buffer
has room for a record. -/
def FirstSighting (w : State × Session) (t : Tick) : Prop :=
  w.1.traceEnable = true ∧ sights w.1 t = true ∧ w.2.sighted = false
    ∧ HasRoom w.1.cpu.softirqTrace

instance (w : State × Session) (t : Tick) : Decidable (FirstSighting w t) :=
  inferInstanceAs (Decidable (_ ∧ _))

/-- A first sighting saves a record marked `more`. -/
def Reported (k : Kernel) (w : State × Session) : Event → Prop
  | .hrtimer t => FirstSighting w t → savesMore w.1.cpu (step k w.1 (.hrtimer t)).cpu = true
  | _ => True

instance (k : Kernel) (w : State × Session) : ∀ e, Decidable (Reported k w e)
  | .hrtimer _ => inferInstanceAs (Decidable (_ → _ = true))
  | .timer _ => inferInstanceAs (Decidable True)
  | .enable _ _ => inferInstanceAs (Decidable True)
  | .traceLatency _ => inferInstanceAs (Decidable True)
  | .samplingPeriod _ => inferInstanceAs (Decidable True)

/-- A first sighting comes in a session that started with `softirq_delayed` clear, or after a
tick of the low-resolution timer. -/
def NotStale (w : State × Session) : Event → Prop
  | .hrtimer t => FirstSighting w t → w.2.stale = false
  | _ => True

instance (w : State × Session) : ∀ e, Decidable (NotStale w e)
  | .hrtimer _ => inferInstanceAs (Decidable (_ → _ = false))
  | .timer _ => inferInstanceAs (Decidable True)
  | .enable _ _ => inferInstanceAs (Decidable True)
  | .traceLatency _ => inferInstanceAs (Decidable True)
  | .samplingPeriod _ => inferInstanceAs (Decidable True)

/-! ## The flag -/

/-- `softirq_delayed` records the sightings, and what it was left at. -/
def DelayedInv (w : State × Session) : Prop :=
  w.1.cpu.softirqDelayed = (w.2.sighted || w.2.stale)

theorem sights_eq_false_of_late {s : State} {t : Tick}
    (h : ¬ gap s.cpu t.now < s.cfg.throttle) : sights s t = false := by
  simp [sights, h]

theorem hrtimerHandler_softirqDelayed (k : Kernel) (s : State) (t : Tick) :
    (traceIrqoffHrtimerHandler k s.cfg s.cpu t).softirqDelayed
      = (s.cpu.softirqDelayed || sights s t) := by
  by_cases hlate : gap s.cpu t.now < s.cfg.throttle
  · by_cases hq : s.cpu.softirqDelayed = true ∨ softGap s.cpu t.now < s.cfg.traceIrqoffLatency
    · rw [hrtimerHandler_quiet k s.cfg s.cpu t hlate hq]
      rcases hq with hd | hs
      · simp [hd]
      · simp [sights, UInt64.not_le.mpr hs]
    · rw [not_or] at hq
      have hs := UInt64.not_lt.mp hq.2
      rw [hrtimerHandler_early k s.cfg s.cpu t hlate (by simpa using hq.1) hs]
      simp [sights, hlate, hs]
  · rw [hrtimerHandler_hardirq k s.cfg s.cpu t hlate, sights_eq_false_of_late hlate]
    simp

theorem timerHandler_softirqDelayed (k : Kernel) (cfg : Config) (st : PerCpuStackTrace)
    (t : Tick) : (traceIrqoffTimerHandler k cfg st t).softirqDelayed = false := by
  by_cases hlate : softGap st t.now < cfg.throttle
  · rw [timerHandler_quiet k cfg st t hlate]
  · rw [timerHandler_softirq k cfg st t hlate]

/-- No write of `enable` touches the flag. -/
theorem enableWrite_softirqDelayed (s : State) (enable : Option Bool) (now : UInt64) :
    (enableWrite s enable now).2.cpu.softirqDelayed = s.cpu.softirqDelayed := by
  unfold enableWrite
  cases enable with
  | none => rfl
  | some enable =>
      dsimp only
      split_ifs <;> rfl

theorem DelayedInv.step (k : Kernel) (w : State × Session) (e : Event) (h : DelayedInv w)
    (hok : Sessions w e) : DelayedInv (observe (step k) Session.next w e) := by
  obtain ⟨s, g⟩ := w
  have h : s.cpu.softirqDelayed = (g.sighted || g.stale) := h
  cases e with
  | hrtimer t =>
      show (traceIrqoffHrtimerHandler k s.cfg s.cpu t).softirqDelayed
        = ((g.sighted || sights s t) || g.stale)
      rw [hrtimerHandler_softirqDelayed, h]
      cases g.sighted <;> cases g.stale <;> cases sights s t <;> rfl
  | timer t => exact timerHandler_softirqDelayed k s.cfg s.cpu t
  | enable enable now =>
      show (enableWrite s enable now).2.cpu.softirqDelayed = _
      rw [enableWrite_softirqDelayed]
      -- a new session takes the flag over as `stale`
      simp only [observe, Session.next]
      split
      · simp
      · exact h
  | traceLatency latency => exact hok.elim
  | samplingPeriod period => exact hok.elim

/-! ## The record -/

/-- The threshold is at least what `trace_irqoff_record` lets through. -/
theorem throttle_le {cfg : Config}
    (h : 2 * cfg.samplingPeriod.toNat ≤ cfg.traceIrqoffLatency.toNat) :
    cfg.throttle ≤ cfg.traceIrqoffLatency := by
  rw [throttle_eq, UInt64.le_iff_toNat_le, UInt64.toNat_mul]
  refine Nat.le_trans (Nat.mod_le _ _) h

/-- A tick that sights a long window with the flag clear and room in the buffer saves a record
marked `more`. -/
theorem hrtimerHandler_savesMore (k : Kernel) {s : State} {t : Tick}
    (hregs : t.capture.irqRegs.isSome = true)
    (hcfg : 2 * s.cfg.samplingPeriod.toNat ≤ s.cfg.traceIrqoffLatency.toNat)
    (hs : sights s t = true) (hd : s.cpu.softirqDelayed = false)
    (hroom : HasRoom s.cpu.softirqTrace) :
    savesMore s.cpu (traceIrqoffHrtimerHandler k s.cfg s.cpu t) = true := by
  simp only [sights, Bool.and_eq_true, decide_eq_true_eq] at hs
  obtain ⟨hlate, hlong⟩ := hs
  have hthr : ¬ softGap s.cpu t.now < s.cfg.throttle :=
    UInt64.not_lt.mpr (UInt64.le_trans (throttle_le hcfg) hlong)
  rw [hrtimerHandler_early k s.cfg s.cpu t hlate hd hlong]
  simp [savesMore, earlyRecord, hthr, saveIfLong, hlong, saveTraceTo_eq, hroom, publish, hregs]

/-- With the flag set, a sighting saves nothing. -/
theorem hrtimerHandler_not_savesMore (k : Kernel) {s : State} {t : Tick}
    (hs : sights s t = true) (hd : s.cpu.softirqDelayed = true) :
    savesMore s.cpu (traceIrqoffHrtimerHandler k s.cfg s.cpu t) = false := by
  simp only [sights, Bool.and_eq_true, decide_eq_true_eq] at hs
  rw [hrtimerHandler_quiet k s.cfg s.cpu t hs.1 (Or.inl hd)]
  exact savesMore_of_nr_eq rfl

theorem reported_iff_notStale (k : Kernel) (w : State × Session) (e : Event)
    (h : DelayedInv w) (hok : Sessions w e) : Reported k w e ↔ NotStale w e := by
  obtain ⟨s, g⟩ := w
  have h : s.cpu.softirqDelayed = (g.sighted || g.stale) := h
  cases e with
  | hrtimer t =>
      refine forall_congr' fun hfirst => ?_
      obtain ⟨-, hs, hsight, hroom⟩ := hfirst
      have hsight : g.sighted = false := hsight
      rw [hsight, Bool.false_or] at h
      show savesMore s.cpu (traceIrqoffHrtimerHandler k s.cfg s.cpu t) = true ↔ g.stale = false
      cases hstale : g.stale with
      | false =>
          simp only [iff_true]
          exact hrtimerHandler_savesMore k hok.1 hok.2 hs (h.trans hstale) hroom
      | true => simp [hrtimerHandler_not_savesMore k hs (h.trans hstale)]
  | timer t => exact Iff.rfl
  | enable enable now => exact Iff.rfl
  | traceLatency latency => exact Iff.rfl
  | samplingPeriod period => exact Iff.rfl

/-- **When the first sighting is reported.** Over every run of ticks and writes of `enable` on
a freshly loaded module, every first sighting of a softirq-off window saves a record marked
`more`, if and only if none comes in a session that started with `softirq_delayed` left set and
has had no tick of the low-resolution timer. -/
theorem first_sighting_iff (k : Kernel) (cfg : Config) (es : List Event)
    (h : Steps (observe (step k) Session.next) Sessions
      ({ State.init with cfg := cfg }, ⟨false, false⟩) es) :
    Steps (observe (step k) Session.next) (Reported k)
        ({ State.init with cfg := cfg }, ⟨false, false⟩) es
      ↔ Steps (observe (step k) Session.next) NotStale
        ({ State.init with cfg := cfg }, ⟨false, false⟩) es :=
  Steps.iff_of_inv (DelayedInv.step k) (reported_iff_notStale k) rfl h

/-- Two sessions: the first is stopped inside a softirq-off window that has been sighted, the
second has a window of its own. -/
def stoppedRun : List Event :=
  [.enable (some true) 0, .hrtimer (tickAt 15), .hrtimer (tickAt 30), .hrtimer (tickAt 45),
    .hrtimer (tickAt 60), .enable (some false) 61, .enable (some true) 100,
    .hrtimer (tickAt 115), .hrtimer (tickAt 130), .hrtimer (tickAt 145), .hrtimer (tickAt 160)]

theorem first_sighting_missed :
    Steps (observe (step ⟨false, false⟩) Session.next) Sessions
        ({ State.init with cfg := ⟨10, 50⟩ }, ⟨false, false⟩) stoppedRun
      ∧ ¬ Steps (observe (step ⟨false, false⟩) Session.next) (Reported ⟨false, false⟩)
        ({ State.init with cfg := ⟨10, 50⟩ }, ⟨false, false⟩) stoppedRun := by
  decide

/-- The first session of `stoppedRun` alone reports its window. -/
theorem first_sighting_one_session :
    Steps (observe (step ⟨false, false⟩) Session.next) Sessions
        ({ State.init with cfg := ⟨10, 50⟩ }, ⟨false, false⟩) (stoppedRun.take 5)
      ∧ Steps (observe (step ⟨false, false⟩) Session.next) (Reported ⟨false, false⟩)
        ({ State.init with cfg := ⟨10, 50⟩ }, ⟨false, false⟩) (stoppedRun.take 5) := by
  have h : Steps (observe (step ⟨false, false⟩) Session.next) Sessions
      ({ State.init with cfg := ⟨10, 50⟩ }, ⟨false, false⟩) (stoppedRun.take 5) := by decide
  exact ⟨h, (first_sighting_iff _ _ _ h).mpr (by decide)⟩

end UioLinuxSample.Irqoff
