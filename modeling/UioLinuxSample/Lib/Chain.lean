import UioLinuxSample.Lib.Loop

set_option autoImplicit false

/-! # Chains of elements

Each element has at most one successor. The chain from an element ends, or goes on forever. A
search looks at one element after the other: it returns the first one that is a hit, if the chain
has one (`Contains.search`), and nothing if the chain ends without one (`search_none_iff`); on any
other chain it does not return (`not_search`).
-/

namespace Chain

open Loop

variable {α : Type} {succ : α → Option α} {hit : α → Bool} {a b : α} {k : Nat}

/-- The element at a position of the chain from `a`. -/
def nth (succ : α → Option α) (a : α) : Nat → Option α
  | 0 => some a
  | k + 1 => (nth succ a k).bind succ

theorem nth_succ : nth succ a (k + 1) = (succ a).bind fun b => nth succ b k := by
  induction k with
  | zero =>
      show succ a = (succ a).bind some
      cases succ a <;> rfl
  | succ k ih =>
      rw [nth, ih, Option.bind_assoc]
      rfl

/-- The chain from `a` ends. -/
def Ends (succ : α → Option α) (a : α) : Prop := ∃ k, nth succ a k = none

/-- There is a hit on the chain from `a`. -/
def Contains (succ : α → Option α) (hit : α → Bool) (a : α) : Prop :=
  ∃ k b, nth succ a k = some b ∧ hit b = true

/-- The element `b` is the first hit on the chain from `a`. -/
def IsFirst (succ : α → Option α) (hit : α → Bool) (a b : α) : Prop :=
  ∃ k, nth succ a k = some b ∧ hit b = true
    ∧ ∀ j < k, ∀ c, nth succ a j = some c → hit c = false

/-- A turn of the search at the element `a`. -/
def searchTurn (succ : α → Option α) (hit : α → Bool) (a : α) : Turn α (Option α) :=
  if hit a then .done (some a)
  else
    match succ a with
    | none => .done none
    | some b => .next b

section Step

theorem contains_iff_of_succ (ha : hit a = false) (hb : succ a = some b) :
    Contains succ hit a ↔ Contains succ hit b := by
  constructor
  · rintro ⟨k, c, hk, hc⟩
    cases k with
    | zero =>
        cases hk
        exact absurd ha (by simp [hc])
    | succ k =>
        rw [nth_succ, hb] at hk
        exact ⟨k, c, hk, hc⟩
  · rintro ⟨k, c, hk, hc⟩
    exact ⟨k + 1, c, by rw [nth_succ, hb]; exact hk, hc⟩

theorem ends_iff_of_succ (hb : succ a = some b) : Ends succ a ↔ Ends succ b := by
  constructor
  · rintro ⟨k, hk⟩
    cases k with
    | zero => cases hk
    | succ k =>
        rw [nth_succ, hb] at hk
        exact ⟨k, hk⟩
  · rintro ⟨k, hk⟩
    exact ⟨k + 1, by rw [nth_succ, hb]; exact hk⟩

theorem isFirst_self (ha : hit a = true) : IsFirst succ hit a a :=
  ⟨0, rfl, ha, fun _ hj => absurd hj (Nat.not_lt_zero _)⟩

theorem isFirst_of_succ {c : α} (ha : hit a = false) (hb : succ a = some b)
    (h : IsFirst succ hit b c) : IsFirst succ hit a c := by
  obtain ⟨k, hk, hc, hbefore⟩ := h
  refine ⟨k + 1, by rw [nth_succ, hb]; exact hk, hc, ?_⟩
  intro j hj d hd
  cases j with
  | zero =>
      cases hd
      exact ha
  | succ j =>
      rw [nth_succ, hb] at hd
      exact hbefore j (Nat.lt_of_succ_lt_succ hj) d hd

theorem IsFirst.contains (h : IsFirst succ hit a b) : Contains succ hit a := by
  obtain ⟨k, hk, hb, -⟩ := h
  exact ⟨k, b, hk, hb⟩

theorem searchTurn_hit (ha : hit a = true) : searchTurn succ hit a = .done (some a) := if_pos ha

theorem searchTurn_last (ha : hit a = false) (hsucc : succ a = none) :
    searchTurn succ hit a = .done none := by
  unfold searchTurn
  rw [if_neg (by simp [ha]), hsucc]

theorem searchTurn_next (ha : hit a = false) (hb : succ a = some b) :
    searchTurn succ hit a = .next b := by
  unfold searchTurn
  rw [if_neg (by simp [ha]), hb]

end Step

/-- A chain with a hit: the search gets to it. The induction is on its position. -/
theorem Contains.search (h : Contains succ hit a) :
    ∃ b, Returns (searchTurn succ hit) a (some b) ∧ IsFirst succ hit a b := by
  obtain ⟨k, c, hk, hc⟩ := h
  induction k generalizing a with
  | zero =>
      cases hk
      exact ⟨c, (returns_done (searchTurn_hit hc)).mpr rfl, isFirst_self hc⟩
  | succ k ih =>
      cases ha : hit a with
      | true => exact ⟨a, (returns_done (searchTurn_hit ha)).mpr rfl, isFirst_self ha⟩
      | false =>
          rw [nth_succ] at hk
          cases hb : succ a with
          | none =>
              rw [hb] at hk
              cases hk
          | some b =>
              rw [hb] at hk
              obtain ⟨d, hret, hfirst⟩ := ih hk
              exact ⟨d, (returns_next (searchTurn_next ha hb)).mpr hret,
                isFirst_of_succ ha hb hfirst⟩

/-- A chain without a hit: the search gets to its end. -/
theorem Ends.search (h : Ends succ a) (hno : ¬ Contains succ hit a) :
    Returns (searchTurn succ hit) a none := by
  obtain ⟨k, hk⟩ := h
  induction k generalizing a with
  | zero => cases hk
  | succ k ih =>
      have ha : hit a = false := by
        rw [Bool.eq_false_iff]
        exact fun ha => hno (isFirst_self ha).contains
      -- one element less to the end
      cases hb : succ a with
      | none => exact (returns_done (searchTurn_last ha hb)).mpr rfl
      | some b =>
          rw [nth_succ, hb] at hk
          rw [contains_iff_of_succ ha hb] at hno
          exact (returns_next (searchTurn_next ha hb)).mpr (ih hno hk)

/-- A chain without hit and end: the search goes on. -/
theorem not_search (hno : ¬ Contains succ hit a) (hends : ¬ Ends succ a) {r : Option α} :
    ¬ Returns (searchTurn succ hit) a r := by
  refine not_returns (P := fun a => ¬ Contains succ hit a ∧ ¬ Ends succ a) ⟨hno, hends⟩ ?_
  rintro a ⟨hno, hends⟩
  have ha : hit a = false := by
    rw [Bool.eq_false_iff]
    exact fun ha => hno (isFirst_self ha).contains
  cases hb : succ a with
  | none => exact absurd ⟨1, hb⟩ hends
  | some b =>
      rw [contains_iff_of_succ ha hb] at hno
      rw [ends_iff_of_succ hb] at hends
      exact .inr ⟨b, searchTurn_next ha hb, hno, hends⟩

theorem search_none_iff :
    Returns (searchTurn succ hit) a none ↔ ¬ Contains succ hit a ∧ Ends succ a := by
  constructor
  · intro h
    have hno : ¬ Contains succ hit a := by
      intro hcontains
      obtain ⟨b, hret, -⟩ := hcontains.search
      cases h.unique hret
    exact ⟨hno, by_contra fun hends => not_search hno hends h⟩
  · rintro ⟨hno, hends⟩
    exact hends.search hno

theorem isFirst_of_search (h : Returns (searchTurn succ hit) a (some b)) :
    IsFirst succ hit a b := by
  by_cases hcontains : Contains succ hit a
  · obtain ⟨c, hret, hfirst⟩ := hcontains.search
    cases h.unique hret
    exact hfirst
  · by_cases hends : Ends succ a
    · cases h.unique (hends.search hcontains)
    · exact absurd h (not_search hcontains hends)

end Chain
