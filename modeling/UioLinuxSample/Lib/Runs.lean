import Mathlib.Tactic

set_option autoImplicit false

/-! # Counting by merging neighbours

A list of keys with counts, in any type that can be added up. `addLast` adds an entry at the end, to the count of the last one if that has
the same key. `collapse` does this for a whole list, so every run of one key becomes one entry.

`weight` is the total count of a key. It is not changed by `collapse` (`weight_collapse`) or by the order
of the list (`weight_perm`), and in a sorted list `collapse` leaves each key once (`nodup_collapse`), so
that its count is the total (`num_eq_weight`).
-/

namespace Runs

/-- A key and how many times it was seen. -/
structure Counted (κ ν : Type*) where
  key : κ
  num : ν
  deriving DecidableEq, Repr

variable {κ ν : Type*}

def keys (l : List (Counted κ ν)) : List κ := l.map (·.key)

@[simp] theorem keys_append (l m : List (Counted κ ν)) : keys (l ++ m) = keys l ++ keys m :=
  List.map_append

variable [DecidableEq κ] [AddCommMonoid ν]

def addLast (l : List (Counted κ ν)) (e : Counted κ ν) : List (Counted κ ν) :=
  match l.getLast? with
  | some last =>
      if e.key = last.key then l.dropLast ++ [{ last with num := last.num + e.num }] else l ++ [e]
  | none => l ++ [e]

def collapse (l : List (Counted κ ν)) : List (Counted κ ν) := l.foldl addLast []

/-- The total count of `k`. -/
def weight (k : κ) (l : List (Counted κ ν)) : ν := ((l.filter (·.key = k)).map (·.num)).sum

/-! ## The total counts -/

@[simp] theorem weight_nil (k : κ) : weight k ([] : List (Counted κ ν)) = 0 := rfl

theorem weight_append (k : κ) (l m : List (Counted κ ν)) :
    weight k (l ++ m) = weight k l + weight k m := by
  simp [weight]

theorem weight_singleton (k : κ) (e : Counted κ ν) :
    weight k [e] = if e.key = k then e.num else 0 := by
  by_cases h : e.key = k <;> simp [weight, h]

theorem weight_perm {l m : List (Counted κ ν)} (k : κ) (h : l.Perm m) : weight k l = weight k m :=
  ((h.filter _).map _).sum_eq

/-- Both ways of adding an entry, at the end of a list that is split there. -/
theorem addLast_concat (l : List (Counted κ ν)) (last e : Counted κ ν) :
    addLast (l ++ [last]) e =
      if e.key = last.key then l ++ [{ last with num := last.num + e.num }] else l ++ [last] ++ [e] := by
  simp [addLast]

theorem weight_addLast (k : κ) (l : List (Counted κ ν)) (e : Counted κ ν) :
    weight k (addLast l e) = weight k (l ++ [e]) := by
  rcases List.eq_nil_or_concat l with rfl | ⟨l, last, rfl⟩
  · rfl
  · rw [List.concat_eq_append, addLast_concat]
    split
    · next h =>
        simp only [weight_append, weight_singleton, h]
        split <;> simp [add_assoc]
    · rfl

theorem weight_foldl_addLast (k : κ) (l m : List (Counted κ ν)) :
    weight k (m.foldl addLast l) = weight k l + weight k m := by
  induction m generalizing l with
  | nil => simp
  | cons e m ih =>
      calc weight k (m.foldl addLast (addLast l e))
          = weight k (addLast l e) + weight k m := ih (addLast l e)
        _ = weight k l + weight k ([e] ++ m) := by
            rw [weight_addLast, weight_append, weight_append, add_assoc]

theorem weight_collapse (k : κ) (l : List (Counted κ ν)) : weight k (collapse l) = weight k l := by
  rw [collapse, weight_foldl_addLast, weight_nil, zero_add]

theorem weight_map_one {ν : Type*} [AddCommMonoidWithOne ν] [BEq κ] [LawfulBEq κ] (k : κ) (ks : List κ) :
    weight k (ks.map fun k' => (⟨k', 1⟩ : Counted κ ν)) = ks.count k := by
  induction ks with
  | nil => simp
  | cons k' ks ih =>
      rw [List.map_cons, ← List.singleton_append, weight_append, weight_singleton, ih, List.count_cons]
      simp [add_comm, beq_iff_eq]

/-! ## The keys -/

theorem keys_addLast (l : List (Counted κ ν)) (e : Counted κ ν) :
    keys (addLast l e) = keys l ∧ e.key ∈ (keys l).getLast?
      ∨ keys (addLast l e) = keys l ++ [e.key] ∧ e.key ∉ (keys l).getLast? := by
  rcases List.eq_nil_or_concat l with rfl | ⟨l, last, rfl⟩
  · exact .inr ⟨rfl, nofun⟩
  · rw [List.concat_eq_append, addLast_concat]
    split
    · next h => exact .inl ⟨by simp [keys], by simp [keys, h]⟩
    · next h => exact .inr ⟨by simp [keys], by simpa [keys] using Ne.symm h⟩

theorem length_addLast_le (l : List (Counted κ ν)) (e : Counted κ ν) :
    (addLast l e).length ≤ l.length + 1 := by
  have hlen (m : List (Counted κ ν)) : m.length = (keys m).length := by simp [keys]
  rw [hlen, hlen l]
  rcases keys_addLast l e with ⟨h, -⟩ | ⟨h, -⟩ <;> rw [h] <;> simp

theorem mem_keys_foldl {k : κ} {l m : List (Counted κ ν)} :
    k ∈ keys (m.foldl addLast l) ↔ k ∈ keys l ∨ k ∈ keys m := by
  induction m generalizing l with
  | nil => simp [keys]
  | cons e m ih =>
      have hstep : k ∈ keys (addLast l e) ↔ k ∈ keys l ∨ k = e.key := by
        rcases keys_addLast l e with ⟨h, hlast⟩ | ⟨h, -⟩ <;> rw [h]
        · refine ⟨.inl, fun hk => hk.elim id ?_⟩
          rintro rfl
          exact List.mem_of_getLast? hlast
        · simp
      rw [List.foldl_cons, ih, hstep, or_assoc]
      simp [keys]

theorem mem_keys_collapse {k : κ} {l : List (Counted κ ν)} : k ∈ keys (collapse l) ↔ k ∈ keys l := by
  rw [collapse, mem_keys_foldl]
  simp [keys]

section Sorted

variable {r : κ → κ → Prop}

/-- The keys so far are in order and differ, and what comes is not before them. -/
structure Ordered (r : κ → κ → Prop) (seen todo : List κ) : Prop where
  distinct : seen.Pairwise fun a b => r a b ∧ a ≠ b
  sorted : todo.Pairwise r
  le : ∀ a ∈ seen, ∀ b ∈ todo, r a b

theorem Ordered.addLast (hanti : ∀ a b, r a b → r b a → a = b) {l m : List (Counted κ ν)}
    {e : Counted κ ν} (h : Ordered r (keys l) (e.key :: keys m)) :
    Ordered r (keys (addLast l e)) (keys m) := by
  have htodo := List.pairwise_cons.1 h.sorted
  rcases keys_addLast l e with ⟨hkeys, -⟩ | ⟨hkeys, hlast⟩ <;> rw [hkeys]
  · exact ⟨h.distinct, htodo.2, fun a ha b hb => h.le a ha b (List.mem_cons_of_mem _ hb)⟩
  · refine ⟨List.pairwise_append.2 ⟨h.distinct, List.pairwise_singleton _ _, ?_⟩, htodo.2, ?_⟩
    · intro a ha b hb
      rw [List.mem_singleton] at hb
      subst hb
      refine ⟨h.le a ha e.key List.mem_cons_self, ?_⟩
      rintro rfl
      -- the key was seen, so the last one lies between it and itself
      obtain ⟨init, last, hsplit⟩ : ∃ init last, keys l = init ++ [last] := by
        rcases List.eq_nil_or_concat (keys l) with hnil | ⟨init, last, hconcat⟩
        · rw [hnil] at ha
          exact absurd ha List.not_mem_nil
        · exact ⟨init, last, by rw [hconcat, List.concat_eq_append]⟩
      have hne : e.key ≠ last := by
        rintro rfl
        exact hlast (by simp [hsplit])
      have hmem : last ∈ keys l := by simp [hsplit]
      rw [hsplit] at ha
      rcases List.mem_append.1 ha with hinit | heq
      · have hseen := hsplit ▸ h.distinct
        have hlt := (List.pairwise_append.1 hseen).2.2 e.key hinit last (List.mem_singleton_self _)
        exact hne (hanti _ _ hlt.1 (h.le last hmem e.key List.mem_cons_self))
      · exact hne (List.mem_singleton.1 heq)
    · intro a ha b hb
      rcases List.mem_append.1 ha with hseen | hnew
      · exact h.le a hseen b (List.mem_cons_of_mem _ hb)
      · rw [List.mem_singleton.1 hnew]
        exact htodo.1 b hb

theorem Ordered.foldl (hanti : ∀ a b, r a b → r b a → a = b) {l m : List (Counted κ ν)}
    (h : Ordered r (keys l) (keys m)) : (keys (m.foldl Runs.addLast l)).Nodup := by
  induction m generalizing l with
  | nil => exact h.distinct.imp fun hab => hab.2
  | cons e m ih => exact ih (h.addLast hanti)

/-- In a sorted list every key is left once. -/
theorem nodup_collapse (hanti : ∀ a b, r a b → r b a → a = b) {l : List (Counted κ ν)}
    (h : (keys l).Pairwise r) : (keys (collapse l)).Nodup :=
  Ordered.foldl hanti ⟨List.Pairwise.nil, h, fun _ ha => absurd ha List.not_mem_nil⟩

end Sorted

/-- Where a key stands once, its count is the total. -/
theorem num_eq_weight {l : List (Counted κ ν)} (h : (keys l).Nodup) {e : Counted κ ν} (he : e ∈ l) :
    e.num = weight e.key l := by
  obtain ⟨pre, post, rfl⟩ := List.append_of_mem he
  have hother : ∀ m : List (Counted κ ν), e.key ∉ keys m → weight e.key m = 0 := by
    intro m hm
    have hnil : m.filter (·.key = e.key) = [] := by
      rw [List.filter_eq_nil_iff]
      intro x hx hkey
      exact hm (List.mem_map.2 ⟨x, hx, by simpa using hkey⟩)
    rw [weight, hnil]
    rfl
  have hsplit : keys (pre ++ e :: post) = keys pre ++ e.key :: keys post := by simp [keys]
  rw [hsplit, List.nodup_middle, List.nodup_cons, List.mem_append, not_or] at h
  rw [← List.singleton_append, weight_append, weight_append, hother pre h.1.1, hother post h.1.2,
    weight_singleton, if_pos rfl, zero_add, add_zero]

end Runs
