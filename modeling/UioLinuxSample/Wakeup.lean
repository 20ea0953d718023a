import UioLinuxSample.Lib.Run

set_option autoImplicit false

/-! # `wakeup.c`: readers that wait for a flag

`read` waits until `flag` is `'y'` and then sets it to `'n'`; `write` sets `flag` to a byte and wakes the
readers that wait. There is no lock. `wait_event_interruptible` looks at the flag before it goes to
sleep and again after it has put itself into the wait queue, and a wake-up in between makes its
`schedule()` return at once.

* A reader does not sleep through a `'y'` (`no_lost_wakeup`).
* A `'y'` lets every reader through at most once, but a signal lets it through too. A `'y'` may let
  several readers through, and a reader that is on its way out may wipe out a `'y'` that was written
  after the one it has seen.
-/

namespace UioLinuxSample.Wakeup

open Run

/-! ## The readers and the writers -/

/-- Where a reader is. -/
inductive Phase where
  | outside
  /-- The first look at the flag. -/
  | first
  /-- Before `prepare_to_wait_event`. -/
  | prepare
  /-- The look at the flag in the queue. -/
  | again
  /-- In `schedule()`. -/
  | schedule
  /-- Before `flag = 'n'`. -/
  | reset
  deriving DecidableEq

/-- A reader: where it is, and whether its state is `TASK_INTERRUPTIBLE`. -/
structure Reader where
  phase : Phase
  interruptible : Bool
  deriving DecidableEq

/-- The flag, the readers, and the writers that have set the flag and not yet called
`wake_up_interruptible`. The other fields are history: how often `'y'` was written, and how often a
reader has found it, has been let go by a signal, and has returned. -/
structure State (ρ : Type) where
  flag : Char
  readers : ρ → Reader
  waking : Nat
  written : Nat
  seen : ρ → Nat
  interrupted : ρ → Nat
  returned : ρ → Nat

inductive Event (ρ : Type) where
  /-- The next step of a reader; a signal may be pending for it. -/
  | read (r : ρ) (signal : Bool)
  /-- A writer sets the flag; `none` is a buffer that cannot be read. -/
  | write (byte : Option Char)
  | wake

def State.init {ρ : Type} : State ρ where
  flag := 'n'
  readers := fun _ => ⟨.outside, false⟩
  waking := 0
  written := 0
  seen := fun _ => 0
  interrupted := fun _ => 0
  returned := fun _ => 0

section Step

variable {ρ : Type} [DecidableEq ρ]

def State.setReader (s : State ρ) (r : ρ) (reader : Reader) : State ρ :=
  { s with readers := Function.update s.readers r reader }

/-- The reader has seen a `'y'` and leaves the queue. -/
def State.pass (s : State ρ) (r : ρ) : State ρ :=
  { s.setReader r ⟨.reset, false⟩ with seen := Function.update s.seen r (s.seen r + 1) }

/-- A signal ends the wait. -/
def State.interrupt (s : State ρ) (r : ρ) : State ρ :=
  { s.setReader r ⟨.reset, false⟩ with
    interrupted := Function.update s.interrupted r (s.interrupted r + 1) }

/-- The flag is reset, and `read` returns 0. -/
def State.leave (s : State ρ) (r : ρ) : State ρ :=
  { s.setReader r ⟨.outside, false⟩ with
    flag := 'n'
    returned := Function.update s.returned r (s.returned r + 1) }

/-- `read`. The result of `wait_event_interruptible` is not looked at. -/
def State.read (s : State ρ) (r : ρ) (signal : Bool) : State ρ :=
  match (s.readers r).phase with
  | .outside => s.setReader r ⟨.first, false⟩
  | .first => if s.flag = 'y' then s.pass r else s.setReader r ⟨.prepare, false⟩
  | .prepare => s.setReader r ⟨.again, true⟩
  | .again =>
      if s.flag = 'y' then s.pass r
      else if signal then s.interrupt r
      else s.setReader r { s.readers r with phase := .schedule }
  | .schedule =>
      -- it sleeps until a writer or a signal makes it runnable
      if (s.readers r).interruptible && !signal then s else s.setReader r ⟨.prepare, false⟩
  | .reset => s.leave r

/-- `write` up to the wake-up. `__get_user` clears its destination when it fails. -/
def State.write (s : State ρ) : Option Char → State ρ
  | none => { s with flag := '\x00' }
  | some c =>
      { s with
        flag := c
        waking := s.waking + 1
        written := if c = 'y' then s.written + 1 else s.written }

/-- `wake_up_interruptible`. -/
def State.wake (s : State ρ) : State ρ :=
  if s.waking = 0 then s
  else
    { s with
      waking := s.waking - 1
      readers := fun r => { s.readers r with interruptible := false } }

def step (s : State ρ) : Event ρ → State ρ
  | .read r signal => s.read r signal
  | .write byte => s.write byte
  | .wake => s.wake

end Step

/-! ## The invariant -/

section Invariant

variable {ρ : Type}

/-- A reader that will not run by itself. -/
def State.Sleeps (s : State ρ) (r : ρ) : Prop := s.readers r = ⟨.schedule, true⟩

instance (s : State ρ) (r : ρ) : Decidable (s.Sleeps r) := inferInstanceAs (Decidable (_ = _))

/-- A reader that has gone to sleep is owed a wake-up if the flag is `'y'`; and of the `'y'` that the flag
shows now, only the readers that are on their way out have been counted. -/
structure Inv (s : State ρ) : Prop where
  owed : s.flag = 'y' → ∀ r, s.Sleeps r → 0 < s.waking
  counted : ∀ r, s.seen r ≤ s.written
  current : s.flag = 'y' → ∀ r, (s.readers r).phase ≠ .reset → s.seen r < s.written

/-- Whoever is let through has found a `'y'` or got a signal. -/
structure Balanced (s : State ρ) : Prop where
  leaving : ∀ r, (s.readers r).phase = .reset → s.returned r < s.seen r + s.interrupted r
  returned : ∀ r, s.returned r ≤ s.seen r + s.interrupted r

variable {s : State ρ} {r : ρ}

/-- As long as the flag is not `'y'` nobody is owed anything. -/
theorem inv_of_flag (hflag : s.flag ≠ 'y') (hcounted : ∀ r, s.seen r ≤ s.written) : Inv s :=
  ⟨fun hy => absurd hy hflag, hcounted, fun hy => absurd hy hflag⟩

theorem n_ne_y : 'n' ≠ 'y' := by decide

theorem inv_init : Inv (State.init : State ρ) := inv_of_flag n_ne_y fun _ => Nat.le_refl 0

theorem Inv.write (h : Inv s) (byte : Option Char) : Inv (s.write byte) := by
  cases byte with
  | none =>
      have hzero : '\x00' ≠ 'y' := by decide
      exact inv_of_flag hzero h.counted
  | some c =>
      refine ⟨fun _ _ _ => Nat.succ_pos _, fun q => (h.counted q).trans ?_, fun hy q _ => ?_⟩
      · simp only [State.write]
        split <;> omega
      · obtain rfl : c = 'y' := hy
        exact Nat.lt_succ_of_le (h.counted q)

theorem Inv.wake (h : Inv s) : Inv s.wake := by
  unfold State.wake
  split
  · exact h
  · -- nobody sleeps after it
    refine ⟨fun _ q hq => ?_, h.counted, h.current⟩
    simp [State.Sleeps] at hq

theorem balanced_init : Balanced (State.init : State ρ) := ⟨nofun, fun _ => Nat.le_refl 0⟩

/-- The writers let nobody through. -/
theorem Balanced.write (h : Balanced s) (byte : Option Char) : Balanced (s.write byte) := by
  cases byte with
  | none => exact ⟨h.leaving, h.returned⟩
  | some c => exact ⟨h.leaving, h.returned⟩

theorem Balanced.wake (h : Balanced s) : Balanced s.wake := by
  unfold State.wake
  split
  · exact h
  · exact ⟨h.leaving, h.returned⟩

variable [DecidableEq ρ]

/-- A reader moves on, without looking at the flag, to where it does not sleep. -/
theorem Inv.setReader {reader : Reader} (h : Inv s) (hsleep : reader = ⟨.schedule, true⟩ → s.flag ≠ 'y')
    (hreset : s.flag = 'y' → reader.phase ≠ .reset → (s.readers r).phase ≠ .reset) :
    Inv (s.setReader r reader) := by
  refine ⟨fun hy q hq => ?_, h.counted, fun hy q hq => ?_⟩
  · rcases eq_or_ne q r with rfl | hne
    · have hreader : reader = ⟨.schedule, true⟩ := by simpa [State.setReader, State.Sleeps] using hq
      exact absurd hy (hsleep hreader)
    · have hsleeps : s.Sleeps q := by simpa [State.setReader, State.Sleeps, hne] using hq
      exact h.owed hy q hsleeps
  · rcases eq_or_ne q r with rfl | hne
    · have hphase : reader.phase ≠ .reset := by simpa [State.setReader] using hq
      exact h.current hy q (hreset hy hphase)
    · have hphase : (s.readers q).phase ≠ .reset := by simpa [State.setReader, hne] using hq
      exact h.current hy q hphase

theorem Inv.pass (h : Inv s) (hy : s.flag = 'y') (hphase : (s.readers r).phase ≠ .reset) :
    Inv (s.pass r) := by
  have hlt := h.current hy r hphase
  refine ⟨fun hy' q hq => ?_, fun q => ?_, fun hy' q hq => ?_⟩
  · rcases eq_or_ne q r with rfl | hne
    · simp [State.pass, State.setReader, State.Sleeps] at hq
    · have hsleeps : s.Sleeps q := by simpa [State.pass, State.setReader, State.Sleeps, hne] using hq
      exact h.owed hy q hsleeps
  · rcases eq_or_ne q r with rfl | hne
    · simpa [State.pass, State.setReader] using hlt
    · simpa [State.pass, State.setReader, hne] using h.counted q
  · rcases eq_or_ne q r with rfl | hne
    · simp [State.pass, State.setReader] at hq
    · have hother : (s.readers q).phase ≠ .reset := by
        simpa [State.pass, State.setReader, hne] using hq
      simpa [State.pass, State.setReader, hne] using h.current hy q hother

theorem Inv.read (h : Inv s) (signal : Bool) : Inv (s.read r signal) := by
  unfold State.read
  cases hphase : (s.readers r).phase with
  | outside => exact h.setReader nofun fun _ _ => by simp [hphase]
  | first =>
      dsimp only
      split
      · next hy => exact h.pass hy (by simp [hphase])
      · exact h.setReader nofun fun _ _ => by simp [hphase]
  | prepare => exact h.setReader nofun fun _ _ => by simp [hphase]
  | again =>
      dsimp only
      split_ifs with hy
      · exact h.pass hy (by simp [hphase])
      · exact inv_of_flag hy h.counted
      · exact h.setReader (fun _ => hy) fun hy' => absurd hy' hy
  | schedule =>
      dsimp only
      split
      · exact h
      · exact h.setReader nofun fun _ _ => by simp [hphase]
  | reset => exact inv_of_flag n_ne_y h.counted

/-- A reader that does not get out. -/
theorem Balanced.setReader {reader : Reader} (h : Balanced s) (hreset : reader.phase ≠ .reset) :
    Balanced (s.setReader r reader) := by
  refine ⟨fun q hq => ?_, h.returned⟩
  rcases eq_or_ne q r with rfl | hne
  · exact absurd (by simpa [State.setReader] using hq) hreset
  · exact h.leaving q (by simpa [State.setReader, hne] using hq)

theorem Balanced.pass (h : Balanced s) : Balanced (s.pass r) := by
  have hreturned : ∀ q, s.returned q ≤ (s.pass r).seen q + s.interrupted q := by
    intro q
    have hq := h.returned q
    rcases eq_or_ne q r with rfl | hne
    · simp only [State.pass, Function.update_self]
      omega
    · simpa [State.pass, hne] using hq
  refine ⟨fun q hq => ?_, hreturned⟩
  rcases eq_or_ne q r with rfl | hne
  · have hq' := h.returned q
    show s.returned q < Function.update s.seen q (s.seen q + 1) q + s.interrupted q
    rw [Function.update_self]
    omega
  · have hleaving := h.leaving q (by simpa [State.pass, State.setReader, hne] using hq)
    simpa [State.pass, State.setReader, hne] using hleaving

theorem Balanced.interrupt (h : Balanced s) : Balanced (s.interrupt r) := by
  have hreturned : ∀ q, s.returned q ≤ s.seen q + (s.interrupt r).interrupted q := by
    intro q
    have hq := h.returned q
    rcases eq_or_ne q r with rfl | hne
    · simp only [State.interrupt, Function.update_self]
      omega
    · simpa [State.interrupt, hne] using hq
  refine ⟨fun q hq => ?_, hreturned⟩
  rcases eq_or_ne q r with rfl | hne
  · have hq' := h.returned q
    show s.returned q < s.seen q + Function.update s.interrupted q (s.interrupted q + 1) q
    rw [Function.update_self]
    omega
  · have hleaving := h.leaving q (by simpa [State.interrupt, State.setReader, hne] using hq)
    simpa [State.interrupt, State.setReader, hne] using hleaving

theorem Balanced.leave (h : Balanced s) (hphase : (s.readers r).phase = .reset) :
    Balanced (s.leave r) := by
  refine ⟨fun q hq => ?_, fun q => ?_⟩
  · rcases eq_or_ne q r with rfl | hne
    · simp [State.leave, State.setReader] at hq
    · have hleaving := h.leaving q (by simpa [State.leave, State.setReader, hne] using hq)
      simpa [State.leave, State.setReader, hne] using hleaving
  · rcases eq_or_ne q r with rfl | hne
    · have hlt := h.leaving q hphase
      show Function.update s.returned q (s.returned q + 1) q ≤ s.seen q + s.interrupted q
      rw [Function.update_self]
      omega
    · simpa [State.leave, State.setReader, hne] using h.returned q

theorem Balanced.read (h : Balanced s) (signal : Bool) : Balanced (s.read r signal) := by
  unfold State.read
  cases hphase : (s.readers r).phase with
  | outside => exact h.setReader nofun
  | first =>
      dsimp only
      split
      · exact h.pass
      · exact h.setReader nofun
  | prepare => exact h.setReader nofun
  | again =>
      dsimp only
      split_ifs
      · exact h.pass
      · exact h.interrupt
      · exact h.setReader nofun
  | schedule =>
      dsimp only
      split
      · exact h
      · exact h.setReader nofun
  | reset => exact h.leave hphase

theorem Inv.step (s : State ρ) (e : Event ρ) (h : Inv s ∧ Balanced s) :
    Inv (step s e) ∧ Balanced (step s e) := by
  cases e with
  | read r signal => exact ⟨h.1.read signal, h.2.read signal⟩
  | write byte => exact ⟨h.1.write byte, h.2.write byte⟩
  | wake => exact ⟨h.1.wake, h.2.wake⟩

/-- **No wake-up is lost.** When no writer is between setting the flag and waking the readers and the
flag is `'y'`, no reader sleeps. A reader has found the flag set at most once for every `'y'` that was
written, and each time that it has returned it has found the flag set or was let go by a signal. All
this whatever the order in which readers and writers run. -/
theorem no_lost_wakeup (es : List (Event ρ)) :
    let s := run Wakeup.step State.init es
    (s.flag = 'y' → s.waking = 0 → ∀ r, ¬ s.Sleeps r)
      ∧ ∀ r, s.seen r ≤ s.written ∧ s.returned r ≤ s.seen r + s.interrupted r := by
  intro s
  obtain ⟨hinv, hbalanced⟩ : Inv s ∧ Balanced s :=
    inv_run (fun s e h _ => Inv.step s e h) ⟨inv_init, balanced_init⟩
      (Steps.of_forall fun _ _ => trivial)
  refine ⟨fun hy hwaking r hsleeps => ?_, fun r => ⟨hinv.counted r, hbalanced.returned r⟩⟩
  have hpos := hinv.owed hy r hsleeps
  omega

end Invariant

/-! ## What the flag does not do -/

def reads (r : Bool) (n : Nat) : List (Event Bool) := List.replicate n (.read r false)

/-- A reader is asleep; a `'y'` is written and wakes it. -/
theorem no_lost_wakeup_woken :
    let s := run step State.init (reads true 4 ++ [.write (some 'y'), .wake])
    s.flag = 'y' ∧ s.waking = 0 ∧ ¬ s.Sleeps true := by
  intro s
  have hflag : s.flag = 'y' := by decide
  have hwaking : s.waking = 0 := by decide
  exact ⟨hflag, hwaking, (no_lost_wakeup _).1 hflag hwaking true⟩

-- a signal lets a reader through, and no `'y'` was written
example :
    let s := run step State.init (reads true 4 ++ List.replicate 4 (.read true true))
    s.returned true = 1 ∧ s.interrupted true = 1 ∧ s.written = 0 := by decide

-- two readers see the same `'y'`
example : (run step State.init (.write (some 'y') :: reads true 2 ++ reads false 2)).seen
    = fun _ => 1 := by decide

-- the second `'y'` is wiped out by the reader of the first one, and the other reader sleeps on
example :
    let s := run step State.init (reads false 4 ++ [.write (some 'y')] ++ reads true 2
      ++ [.write (some 'y')] ++ reads true 1 ++ [.wake, .wake] ++ reads false 3)
    s.written = 2 ∧ s.flag = 'n' ∧ s.Sleeps false := by decide

end UioLinuxSample.Wakeup
