import Mathlib.Tactic
import Mathlib.Data.List.Sort

set_option autoImplicit false

/-! # Rankings

A ranking is a list in descending order of a key, and equal keys in the order of arrival. It is
built by inserting each arrival before the first entry with a smaller key (`insertRanked`).

* `ranking_perm`, `ranking_descending` and `ranking_stable` say that the ranking has the arrivals
  as its entries, in the right order.
* The best `n` entries are the first `n`: none of the others has a larger key
  (`Descending.le_of_not_mem_take`), and a lower bound on the key cuts the ranking at one place
  (`Descending.take_filter`).
-/

namespace Ranking

variable {α κ : Type*} [LinearOrder κ] (key : α → κ)

/-- `a` inserted before the first entry with a smaller key. -/
def insertRanked (a : α) (xs : List α) : List α :=
  xs.orderedInsert (fun a b => key b < key a) a

/-- The ranking after the arrivals `as`, in their order. -/
def ranking (as : List α) : List α := as.foldl (fun xs a => insertRanked key a xs) []

def Descending (xs : List α) : Prop := xs.Pairwise fun a b => key b ≤ key a

variable {key} {a : α} {xs : List α}

theorem insertRanked_perm (a : α) (xs : List α) : (insertRanked key a xs).Perm (a :: xs) :=
  List.perm_orderedInsert _ a xs

theorem mem_insertRanked {b : α} : b ∈ insertRanked key a xs ↔ b = a ∨ b ∈ xs :=
  List.mem_orderedInsert _

/-- The place of an entry that has only larger or equal keys before it and a smaller one after. -/
theorem insertRanked_append {front back : List α} {q : α}
    (hfront : ∀ x ∈ front, ¬ key x < key a) (hq : key q < key a) :
    insertRanked key a (front ++ q :: back) = front ++ a :: q :: back := by
  induction front with
  | nil => exact if_pos hq
  | cons x front ih =>
      have hx : ¬ key x < key a := hfront x List.mem_cons_self
      have hrest := ih fun y hy => hfront y (List.mem_cons_of_mem _ hy)
      exact (if_neg hx).trans (congrArg (x :: ·) hrest)

/-- The last place. -/
theorem insertRanked_last (h : ∀ x ∈ xs, ¬ key x < key a) :
    insertRanked key a xs = xs ++ [a] := by
  induction xs with
  | nil => rfl
  | cons x xs ih =>
      have hx : ¬ key x < key a := h x List.mem_cons_self
      have hrest := ih fun y hy => h y (List.mem_cons_of_mem _ hy)
      exact (if_neg hx).trans (congrArg (x :: ·) hrest)

theorem insertRanked_cons (a x : α) (xs : List α) :
    insertRanked key a (x :: xs)
      = if key x < key a then a :: x :: xs else x :: insertRanked key a xs := rfl

/-- Only the keys of the entries matter. -/
theorem insertRanked_congr {key' : α → κ} (ha : key' a = key a) (h : ∀ x ∈ xs, key' x = key x) :
    insertRanked key' a xs = insertRanked key a xs := by
  induction xs with
  | nil => rfl
  | cons x xs ih =>
      rw [insertRanked_cons, insertRanked_cons, ha, h x List.mem_cons_self,
        ih fun y hy => h y (List.mem_cons_of_mem _ hy)]

theorem Descending.insertRanked (h : Descending key xs) (a : α) :
    Descending key (insertRanked key a xs) := by
  induction xs with
  | nil => exact List.pairwise_singleton _ a
  | cons x xs ih =>
      obtain ⟨hx, hxs⟩ := List.pairwise_cons.mp h
      rw [insertRanked_cons]
      split
      · next hlt =>
          refine List.pairwise_cons.mpr ⟨?_, h⟩
          intro y hy
          rcases List.mem_cons.mp hy with rfl | hy
          · exact hlt.le
          · exact (hx y hy).trans hlt.le
      · next hge =>
          refine List.pairwise_cons.mpr ⟨?_, ih hxs⟩
          intro y hy
          rcases mem_insertRanked.mp hy with rfl | hy
          · exact not_lt.mp hge
          · exact hx y hy

/-- An arrival comes after all entries with its key. -/
theorem Descending.filter_insertRanked (h : Descending key xs) (a : α) (c : κ) :
    (Ranking.insertRanked key a xs).filter (fun x => key x = c)
      = xs.filter (fun x => key x = c) ++ [a].filter (fun x => key x = c) := by
  induction xs with
  | nil => rfl
  | cons x xs ih =>
      obtain ⟨hx, hxs⟩ := List.pairwise_cons.mp h
      rw [insertRanked_cons]
      split
      · next hlt =>
          by_cases hac : key a = c
          · -- no entry from here on has the key of the arrival
            have hnone : (x :: xs).filter (fun x => key x = c) = [] := by
              apply List.filter_eq_nil_iff.mpr
              intro y hy
              rcases List.mem_cons.mp hy with rfl | hy
              · simpa using (hac ▸ hlt.ne)
              · simpa using (hac ▸ ((hx y hy).trans_lt hlt).ne)
            rw [hnone, List.filter_cons, hnone, List.filter_singleton]
            simp [hac]
          · simp [hac]
      · by_cases hxc : key x = c
        · have hkeep : ∀ ys : List α, (x :: ys).filter (fun x => key x = c)
              = x :: ys.filter (fun x => key x = c) :=
            fun ys => List.filter_cons_of_pos (by simpa using hxc)
          rw [hkeep, hkeep, ih hxs, List.cons_append]
        · have hskip : ∀ ys : List α, (x :: ys).filter (fun x => key x = c)
              = ys.filter (fun x => key x = c) :=
            fun ys => List.filter_cons_of_neg (by simpa using hxc)
          rw [hskip, hskip, ih hxs]

/-! ## The ranking of a list of arrivals -/

section Arrivals

theorem ranking_append (as : List α) (a : α) :
    ranking key (as ++ [a]) = insertRanked key a (ranking key as) := List.foldl_concat ..

theorem ranking_perm (as : List α) : (ranking key as).Perm as := by
  induction as using List.reverseRecOn with
  | nil => exact List.Perm.refl _
  | append_singleton as a ih =>
      rw [ranking_append]
      exact (insertRanked_perm a _).trans ((ih.cons a).trans (List.perm_append_singleton a as).symm)

theorem ranking_descending (as : List α) : Descending key (ranking key as) := by
  induction as using List.reverseRecOn with
  | nil => exact List.Pairwise.nil
  | append_singleton as a ih =>
      rw [ranking_append]
      exact ih.insertRanked a

theorem ranking_stable (as : List α) (c : κ) :
    (ranking key as).filter (fun x => key x = c) = as.filter (fun x => key x = c) := by
  induction as using List.reverseRecOn with
  | nil => rfl
  | append_singleton as a ih =>
      rw [ranking_append, (ranking_descending as).filter_insertRanked, ih, List.filter_append]

end Arrivals

/-! ## The best entries -/

theorem Descending.le_of_not_mem_take (h : Descending key xs) (n : Nat) {x y : α}
    (hx : x ∈ xs.take n) (hy : y ∈ xs) (hnot : y ∉ xs.take n) : key y ≤ key x := by
  have hsplit : Descending key (xs.take n ++ xs.drop n) := by rwa [List.take_append_drop]
  have hdrop : y ∈ xs.drop n := by
    rw [← List.take_append_drop n xs, List.mem_append] at hy
    exact hy.resolve_left hnot
  exact (List.pairwise_append.mp hsplit).2.2 x hx y hdrop

/-- The entries from a bound on are the first ones of the ranking. -/
theorem Descending.take_filter (h : Descending key xs) (c : κ) (n : Nat) :
    (xs.take n).filter (fun x => c ≤ key x) = (xs.filter fun x => c ≤ key x).take n := by
  induction xs generalizing n with
  | nil => simp
  | cons x xs ih =>
      obtain ⟨hx, hxs⟩ := List.pairwise_cons.mp h
      cases n with
      | zero => rfl
      | succ n =>
          rw [List.take_succ_cons, List.filter_cons, List.filter_cons]
          split
          · rw [List.take_succ_cons, ih hxs]
          · next hlt =>
              have hnone : ∀ y ∈ xs, ¬ decide (c ≤ key y) = true := by
                intro y hy hle
                exact hlt (by simpa using (of_decide_eq_true hle).trans (hx y hy))
              rw [List.filter_eq_nil_iff.mpr hnone, List.take_nil]
              exact List.filter_eq_nil_iff.mpr fun y hy => hnone y (List.mem_of_mem_take hy)

end Ranking
