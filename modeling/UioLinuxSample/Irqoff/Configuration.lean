import UioLinuxSample.Lib.Run
import UioLinuxSample.Irqoff.Model

set_option autoImplicit false

/-! # The two settings of the tracer

A delay is looked at from `2 * sampling_period` on and reported from `trace_irqoff_latency` on,
so the first must not exceed the second. Each of the two writers keeps the relation in its own
way: `trace_latency_write` refuses a threshold that is too low, and `sampling_period_write`
raises the threshold. Both convert milliseconds to nanoseconds by a multiplication that wraps.

* As long as no accepted value wraps, the relation holds in every state (`settings_ordered`).
  The check of `trace_latency_write` divides `2 * sampling_period` back to milliseconds and may
  drop a remainder; it does not, because the period is always a whole number of milliseconds.
* A value that wraps passes the check in milliseconds and is stored as a small number of
  nanoseconds (`settings_wrapped`).
-/

namespace UioLinuxSample.Irqoff

open Run

/-! ## The property -/

/-- The settings are in order: as integers, two periods are at most the reporting threshold, and
`trace_irqoff_record` does not discard a delay that reaches it. -/
structure Config.Ordered (cfg : Config) : Prop where
  le : 2 * cfg.samplingPeriod.toNat ≤ cfg.traceIrqoffLatency.toNat
  reported : ∀ (k : Kernel) (st : PerCpuStackTrace) (c : Capture) (delta : UInt64)
    (hardirq skip : Bool), cfg.traceIrqoffLatency ≤ delta →
      (traceIrqoffRecord k cfg st c delta hardirq skip).1 = true

/-- What the write of an event returns; a tick returns nothing. -/
def result (s : State) : Event → Except Errno Unit
  | .traceLatency latency => (traceLatencyWrite s latency).1
  | .enable enable now => (enableWrite s enable now).1
  | .samplingPeriod period => (samplingPeriodWrite s period).1
  | _ => .ok ()

/-- A write that returns `-EINVAL` changes neither setting. -/
def RejectedKeeps (k : Kernel) (s : State) (e : Event) : Prop :=
  result s e = .error .einval → (step k s e).cfg = s.cfg

/-- A step from settings that are in order to settings that are in order, which leaves them alone
if it is rejected. -/
def SettingsOk (k : Kernel) (s : State) (e : Event) : Prop :=
  s.cfg.Ordered ∧ (step k s e).cfg.Ordered ∧ RejectedKeeps k s e

/-- The value written fits in 64 bits as nanoseconds, and a period even twice. A period written
while the tracer is enabled is rejected, whatever it is. -/
def Fits (s : State) : Event → Prop
  | .traceLatency (some latency) => latency.toNat * 10 ^ 6 < 2 ^ 64
  | .samplingPeriod (some period) =>
      s.traceEnable = false → 2 * (period.toNat * 10 ^ 6) < 2 ^ 64
  | _ => True

instance (s : State) : ∀ e : Event, Decidable (Fits s e)
  | .traceLatency (some _) => inferInstanceAs (Decidable (_ < _))
  | .samplingPeriod (some _) => inferInstanceAs (Decidable (_ → _))
  | .traceLatency none => inferInstanceAs (Decidable True)
  | .samplingPeriod none => inferInstanceAs (Decidable True)
  | .hrtimer _ => inferInstanceAs (Decidable True)
  | .timer _ => inferInstanceAs (Decidable True)
  | .enable _ _ => inferInstanceAs (Decidable True)

/-! ## The invariant -/

/-- The period is a whole number of milliseconds, and two of them are at most the threshold. -/
structure Config.Whole (cfg : Config) : Prop where
  millis : 10 ^ 6 ∣ cfg.samplingPeriod.toNat
  le : 2 * cfg.samplingPeriod.toNat ≤ cfg.traceIrqoffLatency.toNat

theorem toNat_shiftLeft_one {x : UInt64} (h : 2 * x.toNat < 2 ^ 64) :
    (x <<< 1).toNat = 2 * x.toNat := by
  rw [UInt64.toNat_shiftLeft, show (1 : UInt64).toNat % 64 = 1 from rfl, Nat.shiftLeft_eq,
    pow_one, Nat.mul_comm]
  exact Nat.mod_eq_of_lt h

theorem toNat_mul_millis {x : UInt64} (h : x.toNat * 10 ^ 6 < 2 ^ 64) :
    (x * (1000 * 1000)).toNat = x.toNat * 10 ^ 6 := by
  rw [UInt64.toNat_mul, show ((1000 * 1000 : UInt64)).toNat = 10 ^ 6 from rfl]
  exact Nat.mod_eq_of_lt h

section Invariant

variable {cfg : Config}

/-- Twice the period is no larger than a 64-bit number, so the throttle is what it is meant to
be. -/
theorem Config.Whole.throttle (h : cfg.Whole) :
    cfg.throttle.toNat = 2 * cfg.samplingPeriod.toNat :=
  toNat_shiftLeft_one (h.le.trans_lt (UInt64.toNat_lt _))

theorem traceIrqoffRecord_of_le (k : Kernel) (st : PerCpuStackTrace) (c : Capture)
    {delta : UInt64} (hardirq skip : Bool) (h : ¬ delta < cfg.throttle) :
    (traceIrqoffRecord k cfg st c delta hardirq skip).1 = true := by
  unfold Config.throttle at h
  unfold traceIrqoffRecord
  dsimp only
  rw [if_neg h]

theorem Config.Whole.ordered (h : cfg.Whole) : cfg.Ordered where
  le := h.le
  reported := by
    intro k st c delta hardirq skip hlong
    apply traceIrqoffRecord_of_le
    rw [UInt64.lt_iff_toNat_lt, h.throttle, Nat.not_lt]
    exact h.le.trans (UInt64.le_iff_toNat_le.mp hlong)

/-- A threshold that passes the check, in milliseconds, is at least two periods, in
nanoseconds. -/
theorem Config.Whole.le_of_check (h : cfg.Whole) {latency : UInt64}
    (hcheck : ¬ latency < (cfg.samplingPeriod <<< 1) / (1000 * 1000)) :
    2 * cfg.samplingPeriod.toNat ≤ latency.toNat * 10 ^ 6 := by
  have hdiv : ((cfg.samplingPeriod <<< 1) / (1000 * 1000)).toNat
      = 2 * cfg.samplingPeriod.toNat / 10 ^ 6 := by
    rw [UInt64.toNat_div, show (1000 * 1000 : UInt64).toNat = 10 ^ 6 from rfl]
    rw [show (cfg.samplingPeriod <<< 1).toNat = _ from h.throttle]
  rw [UInt64.lt_iff_toNat_lt, hdiv, Nat.not_lt] at hcheck
  calc 2 * cfg.samplingPeriod.toNat
      = 2 * cfg.samplingPeriod.toNat / 10 ^ 6 * 10 ^ 6 :=
        (Nat.div_mul_cancel (h.millis.mul_left 2)).symm
    _ ≤ latency.toNat * 10 ^ 6 := Nat.mul_le_mul_right _ hcheck

end Invariant

/-! ## One step -/

section Step

variable {s : State}

theorem whole_traceLatencyWrite (h : s.cfg.Whole) (latency : Option UInt64)
    (hfits : Fits s (.traceLatency latency)) : (traceLatencyWrite s latency).2.cfg.Whole := by
  unfold traceLatencyWrite
  cases latency with
  | none => exact h
  | some latency =>
      dsimp only
      split
      · exact h
      · split
        · exact h
        · next hcheck =>
            refine ⟨h.millis, ?_⟩
            show 2 * s.cfg.samplingPeriod.toNat ≤ (latency * 1000 * 1000).toNat
            rw [UInt64.mul_assoc, toNat_mul_millis hfits]
            exact h.le_of_check hcheck

/-- A new period is at most half the old threshold, or the threshold becomes twice the period. -/
theorem whole_samplingPeriodWrite (h : s.cfg.Whole) (period : Option UInt64)
    (hfits : Fits s (.samplingPeriod period)) : (samplingPeriodWrite s period).2.cfg.Whole := by
  unfold samplingPeriodWrite
  split
  · exact h
  · next hoff =>
      cases period with
      | none => exact h
      | some period =>
          have htwice : 2 * (period.toNat * 10 ^ 6) < 2 ^ 64 := hfits (by simpa using hoff)
          have hperiod : (period * (1000 * 1000)).toNat = period.toNat * 10 ^ 6 :=
            toNat_mul_millis (by omega)
          refine ⟨⟨period.toNat, hperiod.trans (Nat.mul_comm _ _)⟩, ?_⟩
          dsimp only
          split
          · rw [toNat_shiftLeft_one (by rw [hperiod]; exact htwice)]
          · next hle =>
              have hhalf : (s.cfg.traceIrqoffLatency >>> 1).toNat
                  = s.cfg.traceIrqoffLatency.toNat / 2 := by
                rw [UInt64.toNat_shiftRight, show (1 : UInt64).toNat % 64 = 1 from rfl,
                  Nat.shiftRight_eq_div_pow, pow_one]
              rw [gt_iff_lt, UInt64.lt_iff_toNat_lt, hhalf] at hle
              omega

theorem Config.Whole.step (k : Kernel) (s : State) (e : Event) (h : s.cfg.Whole)
    (hfits : Fits s e) : (step k s e).cfg.Whole := by
  cases e with
  | hrtimer t => exact h
  | timer t => exact h
  | traceLatency latency => exact whole_traceLatencyWrite h latency hfits
  | samplingPeriod period => exact whole_samplingPeriodWrite h period hfits
  | enable enable now =>
      show (enableWrite s enable now).2.cfg.Whole
      unfold enableWrite
      cases enable with
      | none => exact h
      | some enable =>
          dsimp only
          split <;> exact h

/-- Rejecting a write is the first thing its handler does. -/
theorem rejectedKeeps (k : Kernel) (s : State) (e : Event) : RejectedKeeps k s e := by
  intro hrej
  cases e with
  | hrtimer t => rfl
  | timer t => rfl
  | traceLatency latency =>
      show (traceLatencyWrite s latency).2.cfg = s.cfg
      replace hrej : (traceLatencyWrite s latency).1 = .error .einval := hrej
      unfold traceLatencyWrite at hrej ⊢
      cases latency with
      | none => rfl
      | some latency =>
          dsimp only at hrej ⊢
          split at hrej
          · cases hrej
          · split at hrej
            · simp_all
            · cases hrej
  | enable enable now =>
      show (enableWrite s enable now).2.cfg = s.cfg
      unfold enableWrite
      cases enable with
      | none => rfl
      | some enable =>
          dsimp only
          split <;> rfl
  | samplingPeriod period =>
      show (samplingPeriodWrite s period).2.cfg = s.cfg
      replace hrej : (samplingPeriodWrite s period).1 = .error .einval := hrej
      unfold samplingPeriodWrite at hrej ⊢
      split at hrej
      · next hon => rw [if_pos hon]
      · next hoff =>
          rw [if_neg hoff]
          cases period with
          | none => rfl
          | some period => cases hrej

end Step

/-! ## Whole runs -/

theorem whole_init : State.init.cfg.Whole where
  millis := by decide
  le := by decide

/-- **The settings stay in order.** In every run in which no accepted value wraps when it is
converted to nanoseconds, two sampling periods are at most the reporting threshold in every
state, no delay that reaches the threshold is discarded, and a rejected write changes
nothing. -/
theorem settings_ordered (k : Kernel) (es : List Event)
    (hfits : Steps (step k) Fits State.init es) :
    Steps (step k) (SettingsOk k) State.init es := by
  refine Steps.of_inv (Config.Whole.step k) ?_ whole_init hfits
  intro s e h hfit
  exact ⟨h.ordered, (Config.Whole.step k s e h hfit).ordered, rejectedKeeps k s e⟩

/-- A longer period raises the threshold from 50 to 60 ms, so that one of 55 ms is refused. -/
theorem settings_ordered_raised :
    Steps (step ⟨false, false⟩) (SettingsOk ⟨false, false⟩) State.init
      [.samplingPeriod (some 30), .traceLatency (some 55), .traceLatency (some 70)] :=
  settings_ordered _ _ (by decide)

/-- The least threshold, in milliseconds, that is no 64-bit number of nanoseconds. It is stored as
448384 ns, less than half a millisecond. -/
theorem settings_wrapped :
    ¬ Steps (step ⟨false, false⟩) (SettingsOk ⟨false, false⟩) State.init
      [.traceLatency (some 18446744073710)] := by
  intro h
  exact absurd h.1.2.1.le (by decide)

-- A period of more than `2 ^ 63` ns wraps when it is doubled, in the threshold that it raises.
example :
    ¬ Steps (step ⟨false, false⟩) (SettingsOk ⟨false, false⟩) State.init
      [.samplingPeriod (some 9223372036855)] := by
  intro h
  exact absurd h.1.2.1.le (by decide)

end UioLinuxSample.Irqoff
