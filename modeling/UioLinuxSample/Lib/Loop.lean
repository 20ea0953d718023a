import Mathlib.Tactic

set_option autoImplicit false

/-! # Loops that may not end

A loop is given by what one turn does with the state: go on with another state, return, or wait
for something that never comes. `run` takes at most a given number of turns, so it can be computed;
`Returns` says that some number is enough.

The rules for a whole run are those for one turn: `returns_next` and `returns_done` take a turn,
`Returns.inv` is the rule for an invariant, `exists_returns_of` the one for an invariant with a
variant, and `not_returns` is the invariant of a loop that never ends.
-/

namespace Loop

inductive Turn (σ ρ : Type) where
  | next (s : σ)
  | done (r : ρ)
  | blocked

variable {σ ρ : Type} {turn : σ → Turn σ ρ} {s s' : σ} {r r' : ρ}

def run (turn : σ → Turn σ ρ) : Nat → σ → Option ρ
  | 0, _ => none
  | fuel + 1, s =>
      match turn s with
      | .next s' => run turn fuel s'
      | .done r => some r
      | .blocked => none

/-- Started in the state `s`, the loop ends with the result `r`. -/
def Returns (turn : σ → Turn σ ρ) (s : σ) (r : ρ) : Prop := ∃ fuel, run turn fuel s = some r

theorem returns_next (h : turn s = .next s') : Returns turn s r ↔ Returns turn s' r := by
  have hrun : ∀ fuel, run turn (fuel + 1) s = run turn fuel s' := by
    intro fuel
    rw [run, h]
  constructor
  · rintro ⟨fuel, hfuel⟩
    cases fuel with
    | zero => cases hfuel
    | succ fuel => exact ⟨fuel, hrun fuel ▸ hfuel⟩
  · rintro ⟨fuel, hfuel⟩
    exact ⟨fuel + 1, (hrun fuel).trans hfuel⟩

theorem returns_done (h : turn s = .done r') : Returns turn s r ↔ r = r' := by
  have hrun : ∀ fuel, run turn (fuel + 1) s = some r' := by
    intro fuel
    rw [run, h]
  constructor
  · rintro ⟨fuel, hfuel⟩
    cases fuel with
    | zero => cases hfuel
    | succ fuel => exact Option.some.inj (hfuel.symm.trans (hrun fuel))
  · rintro rfl
    exact ⟨1, hrun 0⟩

/-- **The rule for an invariant.** What holds of the state before each turn, and gives `Q` for the
result of the last one. -/
theorem Returns.inv {P : σ → Prop} {Q : ρ → Prop} (h : Returns turn s r) (hs : P s)
    (hnext : ∀ s s', P s → turn s = .next s' → P s')
    (hdone : ∀ s r, P s → turn s = .done r → Q r) : Q r := by
  obtain ⟨fuel, hfuel⟩ := h
  induction fuel generalizing s with
  | zero => cases hfuel
  | succ fuel ih =>
      rw [run] at hfuel
      cases hturn : turn s with
      | next s' =>
          rw [hturn] at hfuel
          exact ih (hnext s s' hs hturn) hfuel
      | done r' =>
          rw [hturn] at hfuel
          cases hfuel
          exact hdone s r hs hturn
      | blocked =>
          rw [hturn] at hfuel
          cases hfuel

theorem Returns.unique (h : Returns turn s r) (h' : Returns turn s r') : r = r' :=
  h.inv (P := fun s => Returns turn s r') (Q := fun r => r = r') h'
    (fun _ _ hs hturn => (returns_next hturn).mp hs)
    fun _ _ hs hturn => ((returns_done hturn).mp hs).symm

/-- A loop that can always go on never returns. -/
theorem not_returns {P : σ → Prop} (hs : P s)
    (h : ∀ s, P s → turn s = .blocked ∨ ∃ s', turn s = .next s' ∧ P s') : ¬ Returns turn s r := by
  intro hret
  refine hret.inv (Q := fun _ => False) hs ?_ ?_
  · intro s s' hP hturn
    rcases h s hP with hblocked | ⟨s'', hnext, hP'⟩
    · cases hturn.symm.trans hblocked
    · cases hturn.symm.trans hnext
      exact hP'
  · intro s r hP hturn
    rcases h s hP with hblocked | ⟨s'', hnext, -⟩
    · cases hturn.symm.trans hblocked
    · cases hturn.symm.trans hnext

/-- **The rule for a variant.** Every turn returns what is asked for or makes the variant smaller. -/
theorem exists_returns_of {P : σ → Prop} {Q : ρ → Prop} (variant : σ → Nat) (hs : P s)
    (h : ∀ s, P s → (∃ r, turn s = .done r ∧ Q r)
      ∨ ∃ s', turn s = .next s' ∧ P s' ∧ variant s' < variant s) :
    ∃ r, Returns turn s r ∧ Q r := by
  induction hv : variant s using Nat.strongRecOn generalizing s with
  | _ n ih =>
      rcases h s hs with ⟨r, hdone, hr⟩ | ⟨s', hnext, hP', hlt⟩
      · exact ⟨r, (returns_done hdone).mpr rfl, hr⟩
      · obtain ⟨r, hret, hr⟩ := ih (variant s') (hv ▸ hlt) hP' rfl
        exact ⟨r, (returns_next hnext).mpr hret, hr⟩

end Loop
