import Mathlib.Tactic

set_option autoImplicit false

/-! # Circular doubly linked lists

The intrusive lists of the Linux kernel (`list.h`): every list head and every node has a `next`
and a `prev` pointer, and an empty list is a head that points to itself. `Links` is the memory of
all these pointers, over any type `α` of addresses, and the operations are the pointer writes of
the C functions in their order.

* `Rep l head xs` says that the pointers represent the list `xs`. It is a segment from `head` to
  `head` (`Seg`); the operations change a list at one place, so each proof cuts the segment there
  and frames the rest (`Seg.congr`).
* `forEachSafe` is the loop of `list_for_each_entry_safe`, whose body may delete the node it is
  given or leave the loop. As long as the body keeps the links of the nodes still to come, it is
  the loop over the list that is represented (`forEachSafe_eq`).
-/

namespace CircularList

variable {α : Type*}

/-- The pointers of all list heads and nodes. -/
structure Links (α : Type*) where
  next : α → α
  prev : α → α

/-! ## The operations -/

section Operations

variable [DecidableEq α]

/-- `list_empty(head)`. -/
def listEmpty (l : Links α) (head : α) : Bool := l.next head == head

/-- `__list_add(new, prev, next)`. -/
def listInsert (l : Links α) (new prev next : α) : Links α where
  next := Function.update (Function.update l.next new next) prev new
  prev := Function.update (Function.update l.prev next new) new prev

/-- `list_add(new, head)`. -/
def listAdd (l : Links α) (new head : α) : Links α := listInsert l new head (l.next head)

/-- `list_add_tail(new, head)`. -/
def listAddTail (l : Links α) (new head : α) : Links α := listInsert l new (l.prev head) head

/-- `list_del(entry)`; `poison₁` and `poison₂` are left in the pointers of the entry. -/
def listDel (l : Links α) (entry poison₁ poison₂ : α) : Links α where
  next := Function.update (Function.update l.next (l.prev entry) (l.next entry)) entry poison₁
  prev := Function.update (Function.update l.prev (l.next entry) (l.prev entry)) entry poison₂

end Operations

/-! ## What the pointers represent -/

/-- `b` comes right after `a`. -/
def Edge (l : Links α) (a b : α) : Prop := l.next a = b ∧ l.prev b = a

/-- The pointers lead from `a` through `xs` to `b`, and back. -/
def Seg (l : Links α) : α → List α → α → Prop
  | a, [], b => Edge l a b
  | a, x :: xs, b => Edge l a x ∧ Seg l x xs b

/-- The list at `head` is `xs`. -/
structure Rep (l : Links α) (head : α) (xs : List α) : Prop where
  seg : Seg l head xs head
  nodup : (head :: xs).Nodup

section Segments

variable {l l' : Links α} {a b x : α} {xs ys : List α}

theorem seg_append : Seg l a (xs ++ x :: ys) b ↔ Seg l a xs x ∧ Seg l x ys b := by
  induction xs generalizing a with
  | nil => exact Iff.rfl
  | cons y xs ih => exact (and_congr_right fun _ => ih).trans and_assoc.symm

/-- **The frame rule.** A segment needs the forward pointers of all nodes but the last, and the
backward pointers of all but the first. -/
theorem Seg.congr (h : Seg l a xs b) (hnext : ∀ y ∈ a :: xs, l'.next y = l.next y)
    (hprev : ∀ y ∈ xs ++ [b], l'.prev y = l.prev y) : Seg l' a xs b := by
  induction xs generalizing a with
  | nil => exact ⟨(hnext a (by simp)).trans h.1, (hprev b (by simp)).trans h.2⟩
  | cons x xs ih =>
      refine ⟨⟨(hnext a (by simp)).trans h.1.1, (hprev x (by simp)).trans h.1.2⟩, ?_⟩
      exact ih h.2 (fun y hy => hnext y (List.mem_cons_of_mem _ hy))
        fun y hy => hprev y (List.mem_cons_of_mem _ hy)

/-- The first node of a segment, or its end. -/
theorem Seg.next_eq (h : Seg l a xs b) : l.next a = xs.headD b := by
  cases xs with
  | nil => exact h.1
  | cons x xs => exact h.1.1

/-- A segment ends with an edge, out of its last node or out of its start. -/
theorem Seg.last (h : Seg l a xs b) :
    (xs = [] ∧ Edge l a b) ∨ ∃ ys p, xs = ys ++ [p] ∧ Seg l a ys p ∧ Edge l p b := by
  rcases List.eq_nil_or_concat xs with rfl | ⟨ys, p, rfl⟩
  · exact .inl ⟨rfl, h⟩
  · rw [List.concat_eq_append] at h
    exact .inr ⟨ys, p, List.concat_eq_append, seg_append.mp h⟩

end Segments

/-! ## The operations on what is represented -/

section Insert

variable [DecidableEq α] {l : Links α} {a q new head : α} {xs ys : List α}

/-- Insertion at the end of a segment, before `q`. -/
theorem Seg.insert (h : Seg l a xs q) (hnodup : (a :: xs).Nodup) (hq : q ∉ xs)
    (hnew : new ∉ a :: xs) (hne : new ≠ q) :
    Seg (listInsert l new (l.prev q) q) a (xs ++ [new]) q := by
  have hedge : ∀ p, p ≠ new → l.prev q = p →
      Edge (listInsert l new (l.prev q) q) p new ∧ Edge (listInsert l new (l.prev q) q) new q := by
    rintro p hp rfl
    refine ⟨⟨?_, ?_⟩, ?_, ?_⟩
    · exact Function.update_self _ _ _
    · exact Function.update_self _ _ _
    · exact (Function.update_of_ne hp.symm _ _).trans (Function.update_self _ _ _)
    · exact (Function.update_of_ne hne.symm _ _).trans (Function.update_self _ _ _)
  rcases h.last with ⟨rfl, hlast⟩ | ⟨ys, p, rfl, hseg, hlast⟩
  · exact hedge a (fun heq => hnew (by simp [heq])) hlast.2
  · -- the edges before `p` are framed
    rw [List.append_assoc, List.singleton_append, seg_append]
    have hp : p ≠ new := fun heq => hnew (by simp [heq])
    refine ⟨hseg.congr ?_ ?_, hedge p hp hlast.2⟩
    · intro y hy
      have hyp : y ≠ p := by
        rintro rfl
        rw [← List.cons_append, List.nodup_append] at hnodup
        exact hnodup.2.2 y hy y (List.mem_singleton_self y) rfl
      have hyn : y ≠ new := fun heq => hnew (by
        rw [← List.cons_append, ← heq]
        exact List.mem_append_left _ hy)
      show Function.update (Function.update l.next new q) (l.prev q) new y = l.next y
      rw [hlast.2, Function.update_of_ne hyp, Function.update_of_ne hyn]
    · intro y hy
      have hyq : y ≠ q := fun heq => hq (heq ▸ hy)
      have hyn : y ≠ new := fun heq => hnew (heq ▸ List.mem_cons_of_mem a hy)
      show Function.update (Function.update l.prev q new) new (l.prev q) y = l.prev y
      rw [Function.update_of_ne hyn, Function.update_of_ne hyq]

/-- `list_add(new, node->prev)` puts the new node before `node`. -/
theorem Rep.insert_before (h : Rep l head (xs ++ q :: ys)) (hnew : new ∉ head :: (xs ++ q :: ys)) :
    Rep (listAdd l new (l.prev q)) head (xs ++ new :: q :: ys) := by
  obtain ⟨hfront, hback⟩ := seg_append.mp h.seg
  have hnodup := h.nodup
  rw [← List.cons_append, List.nodup_append] at hnodup
  obtain ⟨hnodup₁, hnodup₂, hdisj⟩ := hnodup
  have hnext : l.next (l.prev q) = q := by
    rcases hfront.last with ⟨-, hlast⟩ | ⟨-, p, -, -, hlast⟩ <;> rw [hlast.2, hlast.1]
  have hprev : l.prev q ∈ head :: xs := by
    rcases hfront.last with ⟨-, hlast⟩ | ⟨zs, p, rfl, -, hlast⟩ <;> rw [hlast.2] <;> simp
  have hq : q ∉ head :: xs := fun hmem => hdisj q hmem q (by simp) rfl
  have hne : new ≠ q := fun heq => hnew (by simp [heq])
  unfold listAdd
  rw [hnext]
  refine ⟨?_, ?_⟩
  · have hins := hfront.insert hnodup₁ (fun hmem => hq (List.mem_cons_of_mem _ hmem))
      (fun hmem => hnew (by
        rw [← List.cons_append]
        exact List.mem_append_left _ hmem)) hne
    rw [show xs ++ new :: q :: ys = (xs ++ [new]) ++ q :: ys by simp, seg_append]
    refine ⟨hins, hback.congr ?_ ?_⟩
    · intro y hy
      have hyp : y ≠ l.prev q := fun heq => hdisj (l.prev q) hprev y hy heq.symm
      have hyn : y ≠ new := fun heq => hnew (by
        rw [← List.cons_append, ← heq]
        exact List.mem_append_right _ hy)
      show Function.update (Function.update l.next new q) (l.prev q) new y = l.next y
      rw [Function.update_of_ne hyp, Function.update_of_ne hyn]
    · intro y hy
      have hyq : y ≠ q := by
        rintro rfl
        rcases List.mem_append.mp hy with hmem | hmem
        · exact (List.nodup_cons.mp hnodup₂).1 hmem
        · exact hq (by simp [List.mem_singleton.mp hmem])
      have hyn : y ≠ new := by
        rintro rfl
        rcases List.mem_append.mp hy with hmem | hmem
        · exact hnew (by simp [hmem])
        · exact hnew (by simp [List.mem_singleton.mp hmem])
      show Function.update (Function.update l.prev q new) new (l.prev q) y = l.prev y
      rw [Function.update_of_ne hyn, Function.update_of_ne hyq]
  · have hperm : (head :: (xs ++ new :: q :: ys)).Perm (new :: head :: (xs ++ q :: ys)) := by
      rw [← List.cons_append, ← List.cons_append]
      exact List.perm_middle
    exact hperm.nodup_iff.mpr (List.nodup_cons.mpr ⟨hnew, h.nodup⟩)

/-- `list_add_tail(new, head)`. -/
theorem Rep.insert_tail (h : Rep l head xs) (hnew : new ∉ head :: xs) :
    Rep (listAddTail l new head) head (xs ++ [new]) := by
  refine ⟨h.seg.insert h.nodup (List.nodup_cons.mp h.nodup).1 hnew ?_, ?_⟩
  · exact fun heq => hnew (by simp [heq])
  · have hperm : (head :: (xs ++ [new])).Perm (new :: head :: xs) := by
      rw [← List.cons_append]
      exact List.perm_append_singleton _ _
    exact hperm.nodup_iff.mpr (List.nodup_cons.mpr ⟨hnew, h.nodup⟩)

/-- `list_add(new, head)` on an empty list. -/
theorem Rep.insert_empty (h : Rep l head []) (hnew : new ≠ head) :
    Rep (listAdd l new head) head [new] := by
  have htail : Rep (listAddTail l new head) head [new] := h.insert_tail (by simpa using hnew)
  have hnext : l.next head = head := h.seg.1
  have hprev : l.prev head = head := h.seg.2
  unfold listAddTail at htail
  unfold listAdd
  rw [hprev] at htail
  rwa [hnext]

theorem Rep.empty_iff (h : Rep l head xs) : listEmpty l head = true ↔ xs = [] := by
  unfold listEmpty
  rw [beq_iff_eq, h.seg.next_eq]
  cases xs with
  | nil => simp
  | cons x xs =>
      refine iff_of_false (fun heq => ?_) (List.cons_ne_nil x xs)
      exact (List.nodup_cons.mp h.nodup).1 (by simp [← show x = head from heq])

/-- `list_del` of the first node. -/
theorem Rep.del_first {x : α} (h : Rep l head (x :: xs)) (poison₁ poison₂ : α) :
    Rep (listDel l x poison₁ poison₂) head xs := by
  obtain ⟨hhead, hseg⟩ := h.seg
  obtain ⟨hheadx, hx, hxs⟩ : head ∉ x :: xs ∧ x ∉ xs ∧ xs.Nodup :=
    ⟨(List.nodup_cons.mp h.nodup).1, List.nodup_cons.mp (List.nodup_cons.mp h.nodup).2⟩
  have hne : head ≠ x := fun heq => hheadx (by simp [heq])
  have hhxs : head ∉ xs := fun hmem => hheadx (List.mem_cons_of_mem _ hmem)
  have hnext : ∀ y, y ≠ x → (listDel l x poison₁ poison₂).next y
      = Function.update l.next head (l.next x) y := by
    intro y hy
    show Function.update (Function.update l.next (l.prev x) (l.next x)) x poison₁ y = _
    rw [Function.update_of_ne hy, hhead.2]
  have hprev : ∀ y, y ≠ x → (listDel l x poison₁ poison₂).prev y
      = Function.update l.prev (l.next x) head y := by
    intro y hy
    show Function.update (Function.update l.prev (l.next x) (l.prev x)) x poison₂ y = _
    rw [Function.update_of_ne hy, hhead.2]
  refine ⟨?_, List.nodup_cons.mpr ⟨hhxs, hxs⟩⟩
  cases xs with
  | nil =>
      have hend : l.next x = head := hseg.1
      refine ⟨?_, ?_⟩
      · rw [hnext head hne, Function.update_self, hend]
      · rw [hprev head hne, hend, Function.update_self]
  | cons y ys =>
      have hy : l.next x = y := hseg.1.1
      have hyx : y ≠ x := fun heq => hx (by simp [heq])
      refine ⟨⟨?_, ?_⟩, hseg.2.congr ?_ ?_⟩
      · rw [hnext head hne, Function.update_self, hy]
      · rw [hprev y hyx, hy, Function.update_self]
      · intro z hz
        have hzx : z ≠ x := fun heq => hx (heq ▸ hz)
        have hzh : z ≠ head := fun heq => hhxs (heq ▸ hz)
        rw [hnext z hzx, Function.update_of_ne hzh]
      · intro z hz
        have hzy : z ≠ y := by
          rintro rfl
          rcases List.mem_append.mp hz with hmem | hmem
          · exact (List.nodup_cons.mp hxs).1 hmem
          · exact hhxs (by simp [List.mem_singleton.mp hmem])
        have hzx : z ≠ x := by
          rintro rfl
          rcases List.mem_append.mp hz with hmem | hmem
          · exact hx (List.mem_cons_of_mem _ hmem)
          · exact hne (List.mem_singleton.mp hmem).symm
        rw [hprev z hzx, hy, Function.update_of_ne hzy]

end Insert

/-! ## The loop -/

section ListLoop

variable {σ ε : Type*}

/-- A loop over a list. The body goes on with a new state, leaves the loop, or fails. -/
def forList (body : α → σ → Except ε (ForInStep σ)) : List α → σ → Except ε (ForInStep σ)
  | [], s => .ok (.yield s)
  | x :: xs, s =>
      match body x s with
      | .ok (.yield s) => forList body xs s
      | r => r

variable {body : α → σ → Except ε (ForInStep σ)} {x : α} {s s' : σ}

theorem forList_of_yield (h : body x s = .ok (.yield s')) (xs : List α) :
    forList body (x :: xs) s = forList body xs s' := by
  rw [forList, h]

theorem forList_of_done (h : body x s = .ok (.done s')) (xs : List α) :
    forList body (x :: xs) s = .ok (.done s') := by
  rw [forList, h]

end ListLoop

section Loop

variable [DecidableEq α] {σ ε : Type*}

/-- `list_for_each_entry_safe` from `node` on, for at most `n` tests of its condition; `fault` is
what becomes of a loop that does not come back to the head. -/
def forEachSafe (links : σ → Links α) (fault : σ → ε) (head : α)
    (body : α → σ → Except ε (ForInStep σ)) : Nat → α → σ → Except ε (ForInStep σ)
  | 0, _, s => .error (fault s)
  | n + 1, node, s =>
      if node = head then .ok (.yield s)
      else
        -- the successor is read before the body may unlink the node
        let tmp := (links s).next node
        match body node s with
        | .ok (.yield s) => forEachSafe links fault head body n tmp s
        | r => r

variable {links : σ → Links α} {fault : σ → ε} {head : α}
  {body : α → σ → Except ε (ForInStep σ)} {P : List α → σ → Prop}

/-- **The pointer loop is a list loop.** `P rem s` is what holds when the nodes `rem` are still to
come. The induction is on them: the body may change the pointers as long as it keeps `P`. -/
theorem forEachSafe_eq
    (hwalk : ∀ x rem s, P (x :: rem) s → x ≠ head ∧ (links s).next x = rem.headD head)
    (hkeep : ∀ x rem s s', P (x :: rem) s → body x s = .ok (.yield s') → P rem s')
    {rem : List α} {s : σ} (hP : P rem s) {n : Nat} (hn : rem.length < n) :
    forEachSafe links fault head body n (rem.headD head) s = forList body rem s := by
  induction rem generalizing s n with
  | nil =>
      obtain ⟨n, rfl⟩ : ∃ m, n = m + 1 := ⟨n - 1, by simp at hn; omega⟩
      exact if_pos rfl
  | cons x rem ih =>
      obtain ⟨n, rfl⟩ : ∃ m, n = m + 1 := ⟨n - 1, by simp at hn; omega⟩
      obtain ⟨hne, hnext⟩ := hwalk x rem s hP
      show forEachSafe links fault head body (n + 1) x s = forList body (x :: rem) s
      unfold forEachSafe forList
      rw [if_neg hne, hnext]
      dsimp only
      split
      · next s' hbody => exact ih (hkeep x rem s s' hP hbody) (by simpa using hn)
      · rfl

end Loop

end CircularList
