import Mathlib.Data.Finset.Max
import Mathlib.Tactic

set_option autoImplicit false

/-! # Stores that become visible out of order

One thread writes, others read. The writer issues its stores in program order, and each of them
becomes visible to the others at some later time. Two stores to the same cell become visible in
order, and a store-release becomes visible after all the stores before it; any other two may change
places.

What a reader sees in a cell is what the writer had in it at some earlier time (`Coherent.seen_eq`).
A reader that has seen a store-release finds in every cell what the writer had in it at that store,
or later (`Coherent.seen_after`).
-/

namespace WeakMemory

/-- What a store does to the memory, and which cell it is made to. -/
structure Layout (M S C : Type*) where
  apply : M → S → M
  cell : S → C

structure Issued (S : Type*) where
  store : S
  release : Bool

/-- The stores that were issued, in program order, and the positions of the visible ones. -/
structure World (S : Type*) where
  log : List (Issued S)
  visible : Finset Nat

namespace Layout

section Defs

variable {M S C : Type*} [DecidableEq C] (L : Layout M S C)

/-- The memory after these stores. -/
def written (m : M) (l : List (Issued S)) : M := l.foldl (fun m s => L.apply m s.store) m

/-- What the readers see. -/
def seen (m : M) (w : World S) : M :=
  L.written m ((w.log.zipIdx.filter fun p => p.2 ∈ w.visible).map Prod.fst)

/-- Nothing keeps the store at a position back. -/
def MayCommit (w : World S) (i : Nat) : Prop :=
  i < w.log.length ∧ ∀ s ∈ w.log[i]?, ∀ j < i, ∀ s' ∈ w.log[j]?,
    s.release = true ∨ L.cell s'.store = L.cell s.store → j ∈ w.visible

instance (w : World S) (i : Nat) : Decidable (L.MayCommit w i) :=
  inferInstanceAs (Decidable (_ ∧ _))

def issue (w : World S) (l : List (Issued S)) : World S := { w with log := w.log ++ l }

def commit (w : World S) (i : Nat) : World S :=
  if L.MayCommit w i then { w with visible := insert i w.visible } else w

/-- The order of the stores has been kept so far. -/
def Coherent (w : World S) : Prop := ∀ i ∈ w.visible, L.MayCommit w i

/-- A part of the memory that is one cell. -/
structure IsCell {α : Type*} (view : M → α) (c : C) : Prop where
  other : ∀ m s, L.cell s ≠ c → view (L.apply m s) = view m
  same : ∀ m m' s, view m = view m' → view (L.apply m s) = view (L.apply m' s)

end Defs

section Lists

variable {α : Type*}

theorem take_eq_filter_zipIdx (l : List α) (n k : Nat) :
    l.take n = ((l.zipIdx k).filter fun p => p.2 < k + n).map Prod.fst := by
  induction l generalizing n k with
  | nil => simp
  | cons a l ih =>
      cases n with
      | zero =>
          rw [List.take_zero]
          symm
          rw [List.map_eq_nil_iff, List.filter_eq_nil_iff]
          intro p hp
          have hle := List.le_snd_of_mem_zipIdx hp
          simp [hle]
      | succ n =>
          have hk : k < k + (n + 1) := by omega
          have hsucc : k + 1 + n = k + (n + 1) := by omega
          rw [List.take_succ_cons, List.zipIdx_cons, List.filter_cons_of_pos (by simp),
            List.map_cons, ih n (k + 1), hsucc]

end Lists

section Seen

variable {M S C α : Type*} {L : Layout M S C} {w : World S} {m m' : M} {view : M → α} {c : C}
  {r : Nat} {s : Issued S}

theorem IsCell.written_congr (hview : L.IsCell view c) (l : List (Issued S))
    (h : view m = view m') : view (L.written m l) = view (L.written m' l) := by
  induction l generalizing m m' with
  | nil => exact h
  | cons s l ih => exact ih (hview.same _ _ _ h)

/-- Only the stores to a cell count. -/
theorem IsCell.written_filter [DecidableEq C] (hview : L.IsCell view c) (l : List (Issued S)) :
    view (L.written m l) = view (L.written m (l.filter fun s => L.cell s.store = c)) := by
  induction l generalizing m with
  | nil => rfl
  | cons s l ih =>
      by_cases hs : L.cell s.store = c
      · rw [List.filter_cons_of_pos (by simpa using hs)]
        exact ih
      · rw [List.filter_cons_of_neg (by simpa using hs), ← ih]
        exact hview.written_congr l (hview.other m s.store hs)

/-- The stores to a cell that are visible are the first ones. -/
theorem IsCell.seen_eq_of_first [DecidableEq C] (hview : L.IsCell view c) (n : Nat)
    (h : ∀ i s, w.log[i]? = some s → L.cell s.store = c → (i ∈ w.visible ↔ i < n)) :
    view (L.seen m w) = view (L.written m (w.log.take n)) := by
  unfold seen
  rw [take_eq_filter_zipIdx w.log n 0, hview.written_filter (List.map _ _),
    hview.written_filter (List.map _ (w.log.zipIdx.filter fun p => p.2 < 0 + n))]
  congr 2
  rw [List.filter_map, List.filter_map, List.filter_filter, List.filter_filter]
  congr 1
  apply List.filter_congr
  intro p hp
  have hat : w.log[p.2]? = some p.1 := List.mem_zipIdx_iff_getElem?.mp hp
  by_cases hcell : L.cell p.1.store = c
  · simp [hcell, h p.2 p.1 hat hcell]
  · simp [hcell]

/-- **What a reader sees.** In every cell it finds what the writer had in it after its last visible
store. -/
theorem Coherent.seen_eq [DecidableEq C] (h : L.Coherent w) (hview : L.IsCell view c) (m : M) :
    ∃ n ≤ w.log.length, view (L.seen m w) = view (L.written m (w.log.take n))
      ∧ (∀ i ∈ w.visible, ∀ s ∈ w.log[i]?, L.cell s.store = c → i < n)
      ∧ (0 < n → n - 1 ∈ w.visible ∧ ∃ s ∈ w.log[n - 1]?, L.cell s.store = c) := by
  let mine := w.visible.filter fun i => ∃ s ∈ w.log[i]?, L.cell s.store = c
  by_cases hnone : mine = ∅
  · have hinvisible : ∀ i s, w.log[i]? = some s → L.cell s.store = c → i ∉ w.visible := by
      intro i s hat hcell hi
      have hmem : i ∈ mine := Finset.mem_filter.mpr ⟨hi, s, hat, hcell⟩
      rw [hnone] at hmem
      exact absurd hmem (Finset.notMem_empty i)
    refine ⟨0, Nat.zero_le _, ?_, ?_, nofun⟩
    · refine hview.seen_eq_of_first 0 fun i s hat hcell => ?_
      exact ⟨fun hi => absurd hi (hinvisible i s hat hcell), nofun⟩
    · exact fun i hi s hat hcell => absurd hi (hinvisible i s hat hcell)
  · obtain ⟨r, hr, hmax⟩ := mine.exists_max_image id (Finset.nonempty_iff_ne_empty.mpr hnone)
    obtain ⟨hvisible, s, hat, hcell⟩ := Finset.mem_filter.mp hr
    have hlast : ∀ i ∈ w.visible, ∀ s ∈ w.log[i]?, L.cell s.store = c → i < r + 1 := by
      intro i hi s' hat' hcell'
      exact Nat.lt_succ_of_le (hmax i (Finset.mem_filter.mpr ⟨hi, s', hat', hcell'⟩))
    refine ⟨r + 1, (h r hvisible).1, ?_, hlast, fun _ => ⟨hvisible, s, hat, hcell⟩⟩
    refine hview.seen_eq_of_first (r + 1) fun i s' hat' hcell' => ?_
    refine ⟨fun hi => hlast i hi s' hat' hcell', fun hi => ?_⟩
    rcases Nat.lt_succ_iff_lt_or_eq.mp hi with hlt | rfl
    · exact (h r hvisible).2 s hat i hlt s' hat' (.inr (hcell'.trans hcell.symm))
    · exact hvisible

/-- Stores to other cells make no difference. -/
theorem IsCell.written_take_le (hview : L.IsCell view c) {n n' : Nat} (hle : n ≤ n')
    (h : ∀ i s, n ≤ i → i < n' → w.log[i]? = some s → L.cell s.store ≠ c) :
    view (L.written m (w.log.take n')) = view (L.written m (w.log.take n)) := by
  induction n', hle using Nat.le_induction with
  | base => rfl
  | succ n' hle ih =>
      rw [← ih fun i s hni hin => h i s hni (by omega), List.take_add_one, written,
        List.foldl_append]
      cases hat : w.log[n']? with
      | none => rfl
      | some s => exact hview.other _ s.store (h n' s hle (Nat.lt_succ_self n') hat)

/-- **Publication.** A reader that has seen a store-release finds in a cell what the writer had in
it at that store, or later. -/
theorem Coherent.seen_after [DecidableEq C] (h : L.Coherent w) (hview : L.IsCell view c) (m : M)
    (hr : r ∈ w.visible) (hat : w.log[r]? = some s) (hrelease : s.release = true) :
    ∃ n, r < n ∧ n ≤ w.log.length ∧ view (L.seen m w) = view (L.written m (w.log.take n)) := by
  obtain ⟨n, hle, hseen, hlast, -⟩ := h.seen_eq hview m
  rcases Nat.lt_or_ge r n with hlt | hge
  · exact ⟨n, hlt, hle, hseen⟩
  · refine ⟨r + 1, Nat.lt_succ_self r, (h r hr).1, ?_⟩
    rw [hseen]
    symm
    refine hview.written_take_le (by omega) fun i s' hni hir hat' hcell => ?_
    have hvisible : i ∈ w.visible := by
      rcases Nat.lt_succ_iff_lt_or_eq.mp hir with hlt | rfl
      · exact (h r hr).2 s hat i hlt s' hat' (.inl hrelease)
      · exact hr
    exact absurd (hlast i hvisible s' hat' hcell) (not_lt.mpr hni)

/-- Issuing a store and making one visible keep the order. -/
theorem Coherent.issue (h : L.Coherent w) (l : List (Issued S)) : L.Coherent (Layout.issue w l) := by
  intro i hi
  obtain ⟨hlt, hmay⟩ := h i hi
  have hsame : ∀ j ≤ i, (w.log ++ l)[j]? = w.log[j]? := fun j hj =>
    List.getElem?_append_left (by omega)
  refine ⟨?_, fun s hat j hj s' hat' hor => ?_⟩
  · show i < (w.log ++ l).length
    rw [List.length_append]
    omega
  · exact hmay s ((hsame i le_rfl) ▸ hat) j hj s' ((hsame j hj.le) ▸ hat') hor

theorem Coherent.commit [DecidableEq C] (h : L.Coherent w) (i : Nat) : L.Coherent (L.commit w i) := by
  unfold Layout.commit
  split
  next hmay =>
    intro k hk
    have hof : L.MayCommit w k := by
      rcases Finset.mem_insert.mp hk with rfl | hk
      · exact hmay
      · exact h k hk
    refine ⟨hof.1, fun s hat j hj s' hat' hor => ?_⟩
    exact Finset.mem_insert_of_mem (hof.2 s hat j hj s' hat' hor)
  next => exact h

end Seen

end Layout

end WeakMemory
