import UioLinuxSample.Lib.Loop
import UioLinuxSample.Lib.Run

set_option autoImplicit false

/-! # Sections under one lock

Threads share a state that they change in sections, each a loop whose turns are single steps of the
machine. A thread takes the lock before the first turn of a section and gives it back with the last one.
Nothing but the lock keeps the sections apart: after a `release` by somebody who does not hold it, the
next thread enters while the last one is still inside.

* `Serial` runs a list of sections one after the other, each as a whole.
* `Inv.step` says that without such releases one thread is inside at a time, and that the shared state is
  the one which the sections entered so far give in `Serial`, the last of them as far as it has come.
-/

namespace CriticalSection

open Loop Run

variable {ι α κ σ : Type}

/-- `entered` is the history of the sections that were entered. -/
structure State (ι α κ σ : Type) where
  shared : σ
  owner : Option ι
  inside : ι → Option κ
  entered : List (ι × α)

/-- Nobody is inside. -/
def State.init (s : σ) : State ι α κ σ := ⟨s, none, fun _ => none, []⟩

inductive Action (ι α : Type) where
  | enter (t : ι) (a : α)
  | advance (t : ι)
  | release

section Machine

variable [DecidableEq ι]

/-- A thread that finds the lock taken waits. -/
def State.enter (start : α → κ) (s : State ι α κ σ) (t : ι) (a : α) : State ι α κ σ :=
  if s.owner = none ∧ s.inside t = none then
    { s with
      owner := some t
      inside := Function.update s.inside t (some (start a))
      entered := s.entered ++ [(t, a)] }
  else s

def State.advance (turn : κ × σ → Turn (κ × σ) σ) (s : State ι α κ σ) (t : ι) : State ι α κ σ :=
  match s.inside t with
  | none => s
  | some k =>
      match turn (k, s.shared) with
      | .next (k', shared) =>
          { s with shared := shared, inside := Function.update s.inside t (some k') }
      | .done shared =>
          { s with shared := shared, owner := none, inside := Function.update s.inside t none }
      | .blocked => s

def State.step (start : α → κ) (turn : κ × σ → Turn (κ × σ) σ) (s : State ι α κ σ) :
    Action ι α → State ι α κ σ
  | .enter t a => s.enter start t a
  | .advance t => s.advance turn t
  | .release => { s with owner := none }

end Machine

/-! ## One section after the other -/

/-- The sections `es`, each run to its end, lead from `s` to `s'`. -/
def Serial (start : α → κ) (turn : κ × σ → Turn (κ × σ) σ) : List (ι × α) → σ → σ → Prop
  | [], s, s' => s' = s
  | e :: es, s, s' => ∃ m, Returns turn (start e.2, s) m ∧ Serial start turn es m s'

section Serial

variable {start : α → κ} {turn : κ × σ → Turn (κ × σ) σ}

theorem Serial.concat {es : List (ι × α)} {e : ι × α} {s m s' : σ}
    (h : Serial start turn es s m) (he : Returns turn (start e.2, m) s') :
    Serial start turn (es ++ [e]) s s' := by
  induction es generalizing s with
  | nil =>
      obtain rfl : m = s := h
      exact ⟨s', he, rfl⟩
  | cons e' es ih =>
      obtain ⟨m', hm', hrest⟩ := h
      exact ⟨m', hm', ih hrest⟩

/-! ## What the lock gives -/

variable [DecidableEq ι]

/-- Either the lock is free and everything entered is finished, or one thread is inside. `mid` is the
state in which that one entered: what its section still leads to, it leads to from there. -/
inductive Inv (start : α → κ) (turn : κ × σ → Turn (κ × σ) σ) (init : σ) (s : State ι α κ σ) : Prop
  | free (howner : s.owner = none) (hinside : s.inside = fun _ => none)
      (hserial : Serial start turn s.entered init s.shared)
  | taken (t : ι) (k : κ) (a : α) (before : List (ι × α)) (mid : σ) (howner : s.owner = some t)
      (hinside : s.inside = Function.update (fun _ => none) t (some k))
      (hentered : s.entered = before ++ [(t, a)]) (hserial : Serial start turn before init mid)
      (hrest : ∀ r, Returns turn (k, s.shared) r → Returns turn (start a, mid) r)

variable {init : σ} {s : State ι α κ σ}

theorem inv_init : Inv start turn init (State.init init : State ι α κ σ) := .free rfl rfl rfl

theorem Inv.enter (h : Inv start turn init s) (t : ι) (a : α) :
    Inv start turn init (s.enter start t a) := by
  unfold State.enter
  split
  · next hfree =>
      cases h with
      | free howner hinside hserial =>
          refine .taken t (start a) a s.entered s.shared rfl ?_ rfl hserial fun r hr => hr
          show Function.update s.inside t _ = _
          rw [hinside]
      | taken u k b before mid howner hinside hentered hserial hrest =>
          cases howner.symm.trans hfree.1
  · exact h

theorem Inv.advance (h : Inv start turn init s) (t : ι) : Inv start turn init (s.advance turn t) := by
  unfold State.advance
  cases h with
  | free howner hinside hserial =>
      rw [hinside]
      exact .free howner hinside hserial
  | taken u k a before mid howner hinside hentered hserial hrest =>
      by_cases ht : t = u
      · subst ht
        rw [hinside, Function.update_self]
        dsimp only
        cases hturn : turn (k, s.shared) with
        | next next =>
            refine .taken t next.1 a before mid howner (Function.update_idem ..) hentered hserial ?_
            exact fun r hr => hrest r ((returns_next hturn).mpr hr)
        | done shared =>
            refine .free rfl ?_ ?_
            · show Function.update (Function.update (fun _ => none) t (some k)) t none = fun _ => none
              rw [Function.update_idem]
              exact Function.update_eq_self t _
            · show Serial start turn s.entered init shared
              rw [hentered]
              exact hserial.concat (hrest shared ((returns_done hturn).mpr rfl))
        | blocked => exact .taken t k a before mid howner hinside hentered hserial hrest
      · rw [hinside, Function.update_of_ne ht]
        exact .taken u k a before mid howner hinside hentered hserial hrest

/-- **The lock keeps the sections apart**, as long as only its owner gives it back. -/
theorem Inv.step (h : Inv start turn init s) {e : Action ι α} (he : e ≠ .release) :
    Inv start turn init (s.step start turn e) := by
  cases e with
  | enter t a => exact h.enter t a
  | advance t => exact h.advance t
  | release => exact absurd rfl he

theorem Inv.mutex (h : Inv start turn init s) {t u : ι} (ht : s.inside t ≠ none)
    (hu : s.inside u ≠ none) : t = u := by
  cases h with
  | free howner hinside hserial => exact absurd (congrFun hinside t) ht
  | taken v k a before mid howner hinside hentered hserial hrest =>
      have honly : ∀ {x}, s.inside x ≠ none → x = v := by
        intro x hx
        by_contra hne
        exact hx (by rw [hinside, Function.update_of_ne hne])
      rw [honly ht, honly hu]

theorem Inv.serial (h : Inv start turn init s) (hfree : s.owner = none) :
    Serial start turn s.entered init s.shared := by
  cases h with
  | free howner hinside hserial => exact hserial
  | taken v k a before mid howner hinside hentered hserial hrest =>
      cases howner.symm.trans hfree

end Serial

end CriticalSection
