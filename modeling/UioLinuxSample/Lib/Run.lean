import Mathlib.Tactic

set_option autoImplicit false

/-! # Runs of an event-driven component

A component is a total step function `step : σ → ε → σ`: the handler of the event `e`, run to
completion in the state `s`, leaves `step s e`. A run is the fold of `step` over a list of
events.

* `Steps step P s es` says that every step of the run from `s` over `es` meets `P`, a relation
  between the state a step starts in and the event it handles. Assumptions on the environment
  ("the clock never goes back") and properties of single steps ("the index written is in
  range") are both of this form.
* `inv_run` and `Steps.of_inv` are the two induction rules: an invariant that every admitted
  step keeps holds at the end of the run, and what follows from it holds at every step.
* `Steps.iff_of_kept` is the rule for a property that some steps break: it says which condition
  on the steps is exactly the one under which the property lasts.
* `observe` runs a component together with a history variable. The history reads the state and
  the event and is never read by `step`, so a run with it projects to the run without it
  (`run_observe_fst`), and what it says of the steps holds of that run (`steps_observe_iff`).
-/

namespace Run

variable {σ ε γ : Type*}

/-- The state after the events `es`, handled in order from `s`. -/
def run (step : σ → ε → σ) (s : σ) (es : List ε) : σ := es.foldl step s

/-- Every step of the run from `s` over `es` meets `P`. -/
def Steps (step : σ → ε → σ) (P : σ → ε → Prop) : σ → List ε → Prop
  | _, [] => True
  | s, e :: es => P s e ∧ Steps step P (step s e) es

instance Steps.decidable (step : σ → ε → σ) (P : σ → ε → Prop) [∀ s e, Decidable (P s e)] :
    ∀ (s : σ) (es : List ε), Decidable (Steps step P s es)
  | _, [] => inferInstanceAs (Decidable True)
  | s, e :: es =>
      have := Steps.decidable step P (step s e) es
      inferInstanceAs (Decidable (P s e ∧ Steps step P (step s e) es))

section Rules

variable {step : σ → ε → σ} {P Q ok : σ → ε → Prop} {Inv : σ → Prop} {s : σ} {es fs : List ε}

@[simp] theorem run_nil (step : σ → ε → σ) (s : σ) : run step s [] = s := rfl

@[simp] theorem run_cons (step : σ → ε → σ) (s : σ) (e : ε) (es : List ε) :
    run step s (e :: es) = run step (step s e) es := rfl

theorem run_append (step : σ → ε → σ) (s : σ) (es fs : List ε) :
    run step s (es ++ fs) = run step (run step s es) fs :=
  List.foldl_append

@[simp] theorem steps_nil : Steps step P s [] := trivial

@[simp] theorem steps_cons {e : ε} :
    Steps step P s (e :: es) ↔ P s e ∧ Steps step P (step s e) es := Iff.rfl

theorem steps_append :
    Steps step P s (es ++ fs) ↔ Steps step P s es ∧ Steps step P (run step s es) fs := by
  induction es generalizing s with
  | nil => simp
  | cons e es ih => rw [List.cons_append, steps_cons, ih, steps_cons, run_cons, and_assoc]

/-- **The invariant rule.** What every admitted step keeps, the whole run keeps. -/
theorem inv_run (hstep : ∀ s e, Inv s → ok s e → Inv (step s e)) (hs : Inv s)
    (hok : Steps step ok s es) : Inv (run step s es) := by
  induction es generalizing s with
  | nil => exact hs
  | cons e es ih => exact ih (hstep s e hs hok.1) hok.2

/-- **The step rule.** What follows from the invariant at an admitted step holds at every step
of the run. -/
theorem Steps.of_inv (hstep : ∀ s e, Inv s → ok s e → Inv (step s e))
    (hP : ∀ s e, Inv s → ok s e → P s e) (hs : Inv s) (hok : Steps step ok s es) :
    Steps step P s es := by
  induction es generalizing s with
  | nil => trivial
  | cons e es ih => exact ⟨hP s e hs hok.1, ih (hstep s e hs hok.1) hok.2⟩

/-- The step rule for an equivalence: two step conditions that agree under the invariant are
met by the same runs. -/
theorem Steps.iff_of_inv (hstep : ∀ s e, Inv s → ok s e → Inv (step s e))
    (hPQ : ∀ s e, Inv s → ok s e → (P s e ↔ Q s e)) (hs : Inv s) (hok : Steps step ok s es) :
    Steps step P s es ↔ Steps step Q s es := by
  induction es generalizing s with
  | nil => exact Iff.rfl
  | cons e es ih => exact and_congr (hPQ s e hs hok.1) (ih (hstep s e hs hok.1) hok.2)

/-- The same when the invariant lasts only as long as the property does: the two conditions fail
first at the same step. -/
theorem Steps.iff_of_kept (hkeep : ∀ s e, Inv s → P s e → Inv (step s e))
    (hPQ : ∀ s e, Inv s → (P s e ↔ Q s e)) (hs : Inv s) :
    Steps step P s es ↔ Steps step Q s es := by
  induction es generalizing s with
  | nil => exact Iff.rfl
  | cons e es ih =>
      rw [steps_cons, steps_cons, ← hPQ s e hs]
      exact and_congr_right fun hp => ih (hkeep s e hs hp)

theorem Steps.mono (h : ∀ s e, P s e → Q s e) (hP : Steps step P s es) : Steps step Q s es := by
  induction es generalizing s with
  | nil => trivial
  | cons e es ih => exact ⟨h s e hP.1, ih hP.2⟩

theorem Steps.and (hP : Steps step P s es) (hQ : Steps step Q s es) :
    Steps step (fun s e => P s e ∧ Q s e) s es := by
  induction es generalizing s with
  | nil => trivial
  | cons e es ih => exact ⟨⟨hP.1, hQ.1⟩, ih hP.2 hQ.2⟩

/-- A condition that holds of every event of a run, in whatever state. -/
theorem Steps.of_forall_mem (h : ∀ e ∈ es, ∀ s, P s e) : Steps step P s es := by
  induction es generalizing s with
  | nil => trivial
  | cons e es ih =>
      exact ⟨h e List.mem_cons_self s, ih fun e' he' => h e' (List.mem_cons_of_mem e he')⟩

/-- A step condition that always holds is met by every run. -/
theorem Steps.of_forall (h : ∀ s e, P s e) : Steps step P s es := by
  induction es generalizing s with
  | nil => trivial
  | cons e es ih => exact ⟨h s e, ih⟩

end Rules

/-! ## History variables -/

/-- `step` run together with a history variable: `obs` computes the new history from the old
one, the state before the step and the event. -/
def observe (step : σ → ε → σ) (obs : γ → σ → ε → γ) (w : σ × γ) (e : ε) : σ × γ :=
  (step w.1 e, obs w.2 w.1 e)

section Observe

variable {step : σ → ε → σ} {obs : γ → σ → ε → γ}

@[simp] theorem observe_fst (w : σ × γ) (e : ε) : (observe step obs w e).1 = step w.1 e := rfl

@[simp] theorem observe_snd (w : σ × γ) (e : ε) :
    (observe step obs w e).2 = obs w.2 w.1 e := rfl

/-- The history never changes the run it observes. -/
theorem run_observe_fst (w : σ × γ) (es : List ε) :
    (run (observe step obs) w es).1 = run step w.1 es := by
  induction es generalizing w with
  | nil => rfl
  | cons e es ih => exact ih _

/-- A condition on the state and the event alone does not see the history. -/
theorem steps_observe_iff {P : σ → ε → Prop} (w : σ × γ) (es : List ε) :
    Steps (observe step obs) (fun w e => P w.1 e) w es ↔ Steps step P w.1 es := by
  induction es generalizing w with
  | nil => exact Iff.rfl
  | cons e es ih => exact and_congr Iff.rfl (ih _)

end Observe

end Run
