import UioLinuxSample.Noschedule.Model
import UioLinuxSample.Lib.Run

set_option autoImplicit false

/-! # `trace_noschedule.c`: the switch, the timers and the probe

Writing `enable` moves two resources, the timers and the `sched_switch` probe, around calls that
can fail, and sets `trace_enable` last. The three are meant to agree, and a write that reports an
error is meant to change nothing.

Switching on keeps to that: the probe is registered first and the timers start only after it.
Switching off cancels the timers first, and when the probe then cannot be unregistered the write
returns `-EAGAIN` with the timers gone and `trace_enable` still set. From there a write of `1`
finds the tracer enabled and does nothing. `enable_ok_iff` says that this is the only way out of
agreement, besides a tracepoint that answers `-EEXIST` or `-ENOENT` untruly.
-/

namespace UioLinuxSample.Noschedule

open Run

/-! ## The property -/

/-- `trace_enable` is set exactly when the timers are armed and the probe is registered, and
clear exactly when neither is. -/
structure Switched (s : State) : Prop where
  on : s.traceEnable = true ↔ s.hrtimerArmed = true ∧ s.tpRegistered = true
  off : s.traceEnable = false ↔ s.hrtimerArmed = false ∧ s.tpRegistered = false

theorem switched_iff (s : State) :
    Switched s ↔ s.hrtimerArmed = s.traceEnable ∧ s.tpRegistered = s.traceEnable := by
  refine ⟨fun ⟨hon, hoff⟩ => ?_, fun ⟨harmed, hreg⟩ => ⟨?_, ?_⟩⟩
  · cases he : s.traceEnable with
    | false => exact hoff.mp he
    | true => exact hon.mp he
  · rw [harmed, hreg, and_self]
  · rw [harmed, hreg, and_self]

instance (s : State) : Decidable (Switched s) := decidable_of_iff _ (switched_iff s).symm

/-- The two states have the same switch, timers and probe. -/
def SameSwitch (s s' : State) : Prop :=
  s'.traceEnable = s.traceEnable ∧ s'.hrtimerArmed = s.hrtimerArmed
    ∧ s'.tpRegistered = s.tpRegistered

instance (s s' : State) : Decidable (SameSwitch s s') := inferInstanceAs (Decidable (_ ∧ _))

/-- The write returned an error code. -/
def Failed : Except Errno Unit → Prop
  | .error _ => True
  | .ok _ => False

instance : ∀ r, Decidable (Failed r)
  | .error _ => inferInstanceAs (Decidable True)
  | .ok _ => inferInstanceAs (Decidable False)

/-- After the write the three agree, and they are what they were if it failed. -/
def WriteOk (s : State) (w : EnableWrite) : Prop :=
  Switched (enableStore s w).2 ∧ (Failed (enableStore s w).1 → SameSwitch s (enableStore s w).2)

instance (s : State) (w : EnableWrite) : Decidable (WriteOk s w) :=
  inferInstanceAs (Decidable (_ ∧ (_ → _)))

def EnableOk (s : State) : Event → Prop
  | .enable w => WriteOk s w
  | _ => True

instance (s : State) : ∀ e, Decidable (EnableOk s e)
  | .enable w => inferInstanceAs (Decidable (WriteOk s w))
  | .tick _ => inferInstanceAs (Decidable True)
  | .schedSwitch _ => inferInstanceAs (Decidable True)
  | .stackTrace _ => inferInstanceAs (Decidable True)
  | .threshold _ => inferInstanceAs (Decidable True)

/-- When the write switches on, `-EEXIST` is said of a probe that is registered. When it
switches off, the probe is unregistered, or `-ENOENT` is said of one that is not registered. -/
def Clean (s : State) : Event → Prop
  | .enable w =>
      (w.enable = some true → s.traceEnable = false → w.registerRet = -Errno.eexist.code →
        s.tpRegistered = true)
      ∧ (w.enable = some false → s.traceEnable = true →
        w.unregisterRet = 0 ∨ (w.unregisterRet = -Errno.enoent.code ∧ s.tpRegistered = false))
  | _ => True

/-! ## One write -/

section Write

variable {s : State} {w : EnableWrite}

/-- A text that is no boolean, and the value the switch has already, change nothing. -/
theorem enableStore_same (h : w.enable = none ∨ w.enable = some s.traceEnable) :
    (enableStore s w).2 = s := by
  rcases h with h | h <;> simp [enableStore, h]

theorem enableStore_on (he : w.enable = some true) (hs : s.traceEnable = false) :
    enableStore s w =
      if w.registerRet = 0 then
        (.ok (), { eachHrtimerStart { s with tpRegistered := true } w.now with traceEnable := true })
      else if w.registerRet = -Errno.eexist.code then
        (.ok (), { eachHrtimerStart s w.now with traceEnable := true })
      else (.error .eagain, s) := by
  by_cases h0 : w.registerRet = 0
  · simp [enableStore, he, hs, traceNoschedRegisterTp, h0]
  · by_cases hex : w.registerRet = -Errno.eexist.code
    · simp [enableStore, he, hs, traceNoschedRegisterTp, hex, Errno.code]
    · simp [enableStore, he, hs, traceNoschedRegisterTp, h0, hex]

/-- The timers are cancelled before the result of the tracepoint call is known. -/
theorem enableStore_off (he : w.enable = some false) (hs : s.traceEnable = true) :
    enableStore s w =
      if w.unregisterRet = 0 then
        (.ok (), { s with hrtimerArmed := false, tpRegistered := false, traceEnable := false })
      else if w.unregisterRet = -Errno.enoent.code then
        (.ok (), { s with hrtimerArmed := false, traceEnable := false })
      else (.error .eagain, { s with hrtimerArmed := false }) := by
  by_cases h0 : w.unregisterRet = 0
  · simp [enableStore, he, hs, traceNoschedUnregisterTp, traceNoschedHrtimerCancel, h0]
  · by_cases hen : w.unregisterRet = -Errno.enoent.code
    · simp [enableStore, he, hs, traceNoschedUnregisterTp, traceNoschedHrtimerCancel, hen,
        Errno.code]
    · simp [enableStore, he, hs, traceNoschedUnregisterTp, traceNoschedHrtimerCancel, h0, hen]

theorem SameSwitch.refl (s : State) : SameSwitch s s := ⟨rfl, rfl, rfl⟩

/-- Switching on goes wrong only by an untrue `-EEXIST`, which leaves an enabled tracer without
its probe. -/
theorem writeOk_on_iff (h : Switched s) (he : w.enable = some true)
    (hs : s.traceEnable = false) :
    WriteOk s w ↔ (w.registerRet = -Errno.eexist.code → s.tpRegistered = true) := by
  unfold WriteOk
  rw [enableStore_on he hs]
  by_cases h0 : w.registerRet = 0
  · rw [if_pos h0]
    refine iff_of_true ⟨(switched_iff _).mpr ⟨rfl, rfl⟩, fun hf => hf.elim⟩ fun hex => ?_
    rw [h0] at hex
    cases hex
  · rw [if_neg h0]
    by_cases hex : w.registerRet = -Errno.eexist.code
    · rw [if_pos hex, switched_iff]
      constructor
      · rintro ⟨⟨-, hreg⟩, -⟩ -
        exact hreg
      · intro hreg
        exact ⟨⟨rfl, hreg hex⟩, fun hf => hf.elim⟩
    · rw [if_neg hex]
      exact iff_of_true ⟨h, fun _ => SameSwitch.refl s⟩ fun heq => absurd heq hex

/-- Switching off goes wrong when the probe stays: by a failure, which leaves an enabled tracer
without its timers, or by an untrue `-ENOENT`. -/
theorem writeOk_off_iff (he : w.enable = some false)
    (hs : s.traceEnable = true) :
    WriteOk s w ↔ (w.unregisterRet = 0
      ∨ (w.unregisterRet = -Errno.enoent.code ∧ s.tpRegistered = false)) := by
  unfold WriteOk
  rw [enableStore_off he hs]
  by_cases h0 : w.unregisterRet = 0
  · rw [if_pos h0]
    exact iff_of_true ⟨(switched_iff _).mpr ⟨rfl, rfl⟩, fun hf => hf.elim⟩ (Or.inl h0)
  · rw [if_neg h0]
    by_cases hen : w.unregisterRet = -Errno.enoent.code
    · rw [if_pos hen, switched_iff]
      constructor
      · rintro ⟨⟨-, hreg⟩, -⟩
        exact Or.inr ⟨hen, hreg⟩
      · rintro (hz | ⟨-, hreg⟩)
        · exact absurd hz h0
        · exact ⟨⟨rfl, hreg⟩, fun hf => hf.elim⟩
    · rw [if_neg hen]
      refine iff_of_false ?_ ?_
      · rintro ⟨hsw, -⟩
        -- `trace_enable` says on, the timers are off
        have harmed : false = s.traceEnable := ((switched_iff _).mp hsw).1
        rw [hs] at harmed
        cases harmed
      · rintro (hz | ⟨hne, -⟩)
        · exact h0 hz
        · exact hen hne

theorem writeOk_same (h : Switched s) (hsame : (enableStore s w).2 = s) : WriteOk s w := by
  unfold WriteOk
  rw [hsame]
  exact ⟨h, fun _ => SameSwitch.refl s⟩

end Write

/-! ## Runs of the module -/

theorem enableOk_iff_clean (s : State) (e : Event) (h : Switched s) :
    EnableOk s e ↔ Clean s e := by
  cases e with
  | tick t => exact Iff.rfl
  | schedSwitch w => exact Iff.rfl
  | stackTrace clear => exact Iff.rfl
  | threshold val => exact Iff.rfl
  | enable w =>
      show WriteOk s w ↔ _ ∧ _
      cases he : w.enable with
      | none =>
          refine iff_of_true (writeOk_same h (enableStore_same (.inl he))) ?_
          simp
      | some enable =>
          cases hs : s.traceEnable <;> cases enable
          · refine iff_of_true (writeOk_same h (enableStore_same (.inr ?_))) ?_
            · rw [he, hs]
            · simp
          · rw [writeOk_on_iff h he hs]
            simp
          · rw [writeOk_off_iff he hs]
            simp
          · refine iff_of_true (writeOk_same h (enableStore_same (.inr ?_))) ?_
            · rw [he, hs]
            · simp

/-- No other handler touches the switch, the timers or the probe. -/
theorem Switched.step (k : Kernel) (s : State) (e : Event) (h : Switched s)
    (hok : EnableOk s e) : Switched (step k s e) := by
  cases e with
  | tick t => exact ⟨h.on, h.off⟩
  | schedSwitch w => exact ⟨h.on, h.off⟩
  | stackTrace clear =>
      simp only [Noschedule.step, stackTraceStore]
      split
      · exact ⟨h.on, h.off⟩
      · exact h
  | threshold val =>
      cases val with
      | none => exact h
      | some val => exact ⟨h.on, h.off⟩
  | enable w => exact hok.1

/-- **When switch, timers and probe agree.** In every run of the module, whatever the
tracepoint calls return, each write of `enable` leaves `trace_enable`, the timers and the probe
in agreement, and leaves them alone if it fails, if and only if each one that switches off gets
the probe unregistered and no tracepoint call says `-EEXIST` or `-ENOENT` untruly. -/
theorem enable_ok_iff (k : Kernel) (es : List Event) :
    Steps (step k) EnableOk State.init es ↔ Steps (step k) Clean State.init es :=
  Steps.iff_of_kept (Switched.step k) enableOk_iff_clean
    ((switched_iff _).mpr ⟨rfl, rfl⟩)

/-- The tracer is switched on, and then off when the tracepoint has no memory for its shorter
list of probes. -/
def stuckRun : List Event :=
  [.enable ⟨some true, 1, 0, 0⟩, .enable ⟨some false, 2, 0, -Errno.enomem.code⟩]

/-- The second write returns `-EAGAIN` and has cancelled the timers of an enabled tracer. -/
theorem enable_stuck_without_timers :
    ¬ Steps (step ⟨false, false⟩) EnableOk State.init stuckRun := by
  decide

end UioLinuxSample.Noschedule
