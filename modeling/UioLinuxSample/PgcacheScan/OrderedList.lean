import UioLinuxSample.Lib.Ranking
import UioLinuxSample.PgcacheScan.Model

set_option autoImplicit false

/-! # The ordered list is a ranking

`Lists w xs` relates the pointers and the heap to the list `xs` of the addresses of the nodes, in
their order. On that list

* `order_list_add` is `insertRanked` by the page count (`orderListAdd_spec`),
* `order_list_clear` leaves nothing (`orderListClear_spec`),
* `print_top_num` prints the lines of the first nodes (`printTopNum_spec`),

and none of them fails: every node they touch is allocated. What is printed after a scan is thus
the top of the ranking of the nodes that were added (`top_n_report`).
-/

namespace UioLinuxSample.PgcacheScan

open CircularList Ranking

/-! ## What the state represents -/

/-- The nodes of `ordered_list`, by address. -/
structure Lists (w : World) (xs : List Nat) : Prop where
  rep : Rep w.links .orderedList (xs.map .node)
  allocated : ∀ x ∈ xs, (w.deref (.node x)).isSome = true

/-- The page count of a node, as a number. -/
def World.pagecountOf (w : World) (n : Nat) : Nat :=
  ((w.deref (.node n)).map fun node => node.pagecount.toNat).getD 0

theorem pagecountOf_eq {w : World} {n : Nat} {node : Node} (h : w.deref (.node n) = some node) :
    w.pagecountOf n = node.pagecount.toNat := by
  unfold World.pagecountOf
  rw [h]
  rfl

section Lists

variable {w : World} {xs : List Nat}

theorem Lists.nodup (h : Lists w xs) : xs.Nodup :=
  List.Nodup.of_map _ (List.nodup_cons.mp h.rep.nodup).2

theorem lt_heap_of_deref {n : Nat} (h : (w.deref (.node n)).isSome = true) :
    n < w.heap.length := by
  by_contra hge
  have hnone : w.deref (.node n) = none := by
    show w.heap[n]?.join = none
    rw [List.getElem?_eq_none (not_lt.mp hge)]
    rfl
  rw [hnone] at h
  cases h

/-- A list has no more nodes than the heap, so the loops do not run out of turns. -/
theorem Lists.length_le (h : Lists w xs) : xs.length ≤ w.heap.length := by
  have hsub : xs ⊆ List.range w.heap.length :=
    fun x hx => List.mem_range.mpr (lt_heap_of_deref (h.allocated x hx))
  simpa using (h.nodup.subperm hsub).length_le

/-- Only the links and the heap matter. -/
theorem Lists.congr {w' : World} (h : Lists w xs) (hlinks : w'.links = w.links)
    (hheap : w'.heap = w.heap) : Lists w' xs := by
  refine ⟨by rw [hlinks]; exact h.rep, fun x hx => ?_⟩
  show (w'.heap[x]?.join).isSome = true
  rw [hheap]
  exact h.allocated x hx

theorem Lists.empty_iff (h : Lists w xs) : listEmpty w.links .orderedList = true ↔ xs = [] := by
  rw [h.rep.empty_iff, List.map_eq_nil_iff]

end Lists

/-- A loop whose body keeps the links is the loop over the list. -/
theorem forEachNode_eq {σ : Type} (world : σ → World)
    {body : Ptr → σ → Except World (ForInStep σ)} {s : σ} {xs : List Nat}
    (h : Lists (world s) xs)
    (hkeep : ∀ x t t', body x t = .ok (.yield t') → (world t').links = (world t).links) :
    forEachNode world body s = forList body (xs.map .node) s := by
  have hfirst : (world s).links.next .orderedList = (xs.map Ptr.node).headD .orderedList :=
    h.rep.seg.next_eq
  unfold forEachNode
  rw [hfirst]
  apply forEachSafe_eq (P := fun rem t => (world t).links = (world s).links
    ∧ ∃ front, front ++ rem = xs.map Ptr.node)
  · rintro x rem t ⟨hlinks, front, hsplit⟩
    have hrep := h.rep
    rw [← hsplit] at hrep
    refine ⟨?_, ?_⟩
    · rintro rfl
      exact (List.nodup_cons.mp hrep.nodup).1 (by simp)
    · show (world t).links.next x = rem.headD .orderedList
      rw [hlinks]
      exact (seg_append.mp hrep.seg).2.next_eq
  · rintro x rem t t' ⟨hlinks, front, hsplit⟩ hbody
    exact ⟨(hkeep x t t' hbody).trans hlinks, front ++ [x], by simpa using hsplit⟩
  · exact ⟨rfl, [], rfl⟩
  · rw [List.length_map]
    exact Nat.lt_succ_of_le h.length_le

/-! ## `order_list_add` -/

section Add

variable {w : World} {new : Nat} {node : Node}

/-- The loop stops at the first node with a smaller count, if there is one. -/
theorem forList_add (hnew : w.deref (.node new) = some node) (xs : List Nat)
    (hxs : ∀ x ∈ xs, (w.deref (.node x)).isSome = true) :
    (∃ front q back, xs = front ++ q :: back
        ∧ (∀ x ∈ front, ¬ w.pagecountOf x < w.pagecountOf new)
        ∧ w.pagecountOf q < w.pagecountOf new
        ∧ forList (orderListAddBody new) (xs.map .node) w
          = .ok (.done
            { w with links := listAdd w.links (.node new) (w.links.prev (.node q)) }))
      ∨ ((∀ x ∈ xs, ¬ w.pagecountOf x < w.pagecountOf new)
        ∧ forList (orderListAddBody new) (xs.map .node) w = .ok (.yield w)) := by
  induction xs with
  | nil => exact .inr ⟨by simp, rfl⟩
  | cons x xs ih =>
      obtain ⟨other, hother⟩ := Option.isSome_iff_exists.mp (hxs x List.mem_cons_self)
      have hbody : orderListAddBody new (.node x) w
          = if w.pagecountOf x < w.pagecountOf new then
              .ok (.done
                { w with links := listAdd w.links (.node new) (w.links.prev (.node x)) })
            else .ok (.yield w) := by
        unfold orderListAddBody
        rw [hnew, hother, pagecountOf_eq hnew, pagecountOf_eq hother]
        simp only [gt_iff_lt, UInt64.lt_iff_toNat_lt]
      rw [List.map_cons]
      by_cases hlt : w.pagecountOf x < w.pagecountOf new
      · rw [if_pos hlt] at hbody
        exact .inl ⟨[], x, xs, rfl, by simp, hlt, forList_of_done hbody _⟩
      · rw [if_neg hlt] at hbody
        rw [forList_of_yield hbody]
        rcases ih fun y hy => hxs y (List.mem_cons_of_mem _ hy) with
          ⟨front, q, back, rfl, hfront, hq, hloop⟩ | ⟨hall, hloop⟩
        · refine .inl ⟨x :: front, q, back, rfl, ?_, hq, hloop⟩
          exact List.forall_mem_cons.mpr ⟨hlt, hfront⟩
        · exact .inr ⟨List.forall_mem_cons.mpr ⟨hlt, hall⟩, hloop⟩

/-- **`order_list_add` inserts by rank.** It changes nothing but links. -/
theorem orderListAdd_spec {xs : List Nat} (h : Lists w xs) (hnew : w.deref (.node new) = some node)
    (hfresh : new ∉ xs) :
    ∃ links, orderListAdd w new = .ok { w with links := links }
      ∧ Lists { w with links := links } (insertRanked w.pagecountOf new xs) := by
  have hptr : Ptr.node new ∉ Ptr.orderedList :: xs.map .node := by
    simpa using hfresh
  have halloc : ∀ x ∈ insertRanked w.pagecountOf new xs, (w.deref (.node x)).isSome = true := by
    intro x hx
    rcases mem_insertRanked.mp hx with rfl | hx
    · rw [hnew]
      rfl
    · exact h.allocated x hx
  unfold orderListAdd
  by_cases hempty : xs = []
  · subst hempty
    rw [if_pos (h.empty_iff.mpr rfl)]
    exact ⟨_, rfl, h.rep.insert_empty (by simp), halloc⟩
  · rw [if_neg (fun he => hempty (h.empty_iff.mp he)), forEachNode_eq id h]
    · rcases forList_add hnew xs h.allocated with
        ⟨front, q, back, rfl, hfront, hq, hloop⟩ | ⟨hall, hloop⟩
      · rw [hloop]
        refine ⟨_, rfl, ?_, halloc⟩
        have hrep := h.rep
        rw [List.map_append, List.map_cons] at hrep hptr
        rw [insertRanked_append hfront hq, List.map_append, List.map_cons, List.map_cons]
        exact hrep.insert_before hptr
      · rw [hloop]
        refine ⟨_, rfl, ?_, halloc⟩
        rw [insertRanked_last hall, List.map_append, List.map_singleton]
        exact h.rep.insert_tail hptr
    · intro x t t' hbody
      unfold orderListAddBody at hbody
      split at hbody
      · split at hbody
        · cases hbody
        · cases hbody
          rfl
      · cases hbody

end Add

/-! ## `order_list_clear` -/

/-- One turn of the loop: the first node is unlinked and freed. -/
theorem orderListClearBody_spec {w : World} {x : Nat} {xs : List Nat} (h : Lists w (x :: xs)) :
    ∃ links, orderListClearBody (.node x) w
        = .ok (.yield { w with links := links, heap := w.heap.set x none })
      ∧ Lists { w with links := links, heap := w.heap.set x none } xs := by
  have hsome : (w.heap[x]?.join).isSome = true := h.allocated x List.mem_cons_self
  refine ⟨listDel w.links (.node x) .poison1 .poison2, ?_, ?_, ?_⟩
  · unfold orderListClearBody World.kfree
    dsimp only
    rw [if_pos hsome]
    rfl
  · exact Rep.del_first h.rep _ _
  · intro y hy
    have hne : y ≠ x := by
      rintro rfl
      exact (List.nodup_cons.mp h.nodup).1 hy
    show ((w.heap.set x none)[y]?.join).isSome = true
    rw [List.getElem?_set_ne hne.symm]
    exact h.allocated y (List.mem_cons_of_mem _ hy)

/-- The whole loop. It frees the nodes of the list and no others. -/
theorem forList_clear {w : World} {xs : List Nat} (h : Lists w xs) :
    ∃ links heap, forList orderListClearBody (xs.map .node) w
        = .ok (.yield { w with links := links, heap := heap })
      ∧ Lists { w with links := links, heap := heap } []
      ∧ ∀ n, heap[n]?.join = if n ∈ xs then none else w.heap[n]?.join := by
  induction xs generalizing w with
  | nil => exact ⟨w.links, w.heap, rfl, h, fun n => (if_neg (List.not_mem_nil)).symm⟩
  | cons x xs ih =>
      obtain ⟨links, hbody, hrest⟩ := orderListClearBody_spec h
      obtain ⟨links', heap', hloop, hend, hfreed⟩ := ih hrest
      refine ⟨links', heap', ?_, hend, fun n => ?_⟩
      · rw [List.map_cons, forList_of_yield hbody]
        exact hloop
      · rw [hfreed n]
        by_cases hx : n = x
        · subst hx
          by_cases hn : n < w.heap.length <;> simp [hn]
        · rw [List.getElem?_set_ne (Ne.symm hx)]
          simp [hx]

/-- **`order_list_clear` empties the list**, under its lock. -/
theorem orderListClear_spec {w : World} {xs : List Nat} (h : Lists w xs) :
    ∃ links heap, orderListClear w
        = .ok { w with
            links := links
            heap := heap
            ops := w.ops ++ [.acquire .orderedListLock] ++ [.release .orderedListLock] }
      ∧ Lists { w with links := links, heap := heap } []
      ∧ ∀ n, heap[n]?.join = if n ∈ xs then none else w.heap[n]?.join := by
  have hlocked : Lists (w.spinLock .orderedListLock) xs := h.congr rfl rfl
  obtain ⟨links, heap, hloop, hend, hfreed⟩ := forList_clear hlocked
  refine ⟨links, heap, ?_, hend.congr rfl rfl, hfreed⟩
  have hfirst : (w.spinLock .orderedListLock).links.next .orderedList
      = (xs.map Ptr.node).headD .orderedList := hlocked.rep.seg.next_eq
  -- the body unlinks the node it is at, which the nodes to come do not need
  have heq : forEachNode id orderListClearBody (w.spinLock .orderedListLock)
      = forList orderListClearBody (xs.map .node) (w.spinLock .orderedListLock) := by
    unfold forEachNode
    dsimp only [id]
    rw [hfirst]
    apply forEachSafe_eq (P := fun rem t => ∃ zs : List Nat, rem = zs.map .node ∧ Lists t zs)
    · rintro x rem t ⟨zs, hrem, ht⟩
      cases zs with
      | nil => cases hrem
      | cons z zs =>
          obtain ⟨rfl, rfl⟩ := List.cons.inj hrem
          exact ⟨by simp, ht.rep.seg.2.next_eq⟩
    · rintro x rem t t' ⟨zs, hrem, ht⟩ hbody
      cases zs with
      | nil => cases hrem
      | cons z zs =>
          obtain ⟨rfl, rfl⟩ := List.cons.inj hrem
          obtain ⟨links, hyield, hrest⟩ := orderListClearBody_spec ht
          rw [hyield] at hbody
          cases hbody
          exact ⟨zs, rfl, hrest⟩
    · exact ⟨xs, rfl, hlocked⟩
    · rw [List.length_map]
      exact Nat.lt_succ_of_le hlocked.length_le
  unfold orderListClear
  dsimp only
  rw [heq, hloop]
  rfl

/-! ## `print_top_num` -/

section Units

variable (bytes : UInt64)

theorem toNat_gbOf : (gbOf bytes).toNat = bytes.toNat / 2 ^ 30 := by
  unfold gbOf
  rw [UInt64.toNat_div, show giga.toNat = 2 ^ 30 by decide]

theorem toNat_afterGb : (bytes - gbOf bytes * giga).toNat = bytes.toNat % 2 ^ 30 := by
  have hbytes := UInt64.toNat_lt bytes
  have hmul : (gbOf bytes * giga).toNat = bytes.toNat / 2 ^ 30 * 2 ^ 30 := by
    rw [UInt64.toNat_mul, toNat_gbOf, show giga.toNat = 2 ^ 30 by decide]
    exact Nat.mod_eq_of_lt (by omega)
  rw [UInt64.toNat_sub_of_le _ _ (by rw [UInt64.le_iff_toNat_le, hmul]; omega), hmul]
  omega

theorem toNat_mbOf : (mbOf bytes).toNat = bytes.toNat % 2 ^ 30 / 2 ^ 20 := by
  unfold mbOf
  rw [UInt64.toNat_div, toNat_afterGb, show mega.toNat = 2 ^ 20 by decide]

theorem toNat_kbOf : (kbOf bytes).toNat = bytes.toNat % 2 ^ 20 / 2 ^ 10 := by
  have hmul : (mbOf bytes * mega).toNat = bytes.toNat % 2 ^ 30 / 2 ^ 20 * 2 ^ 20 := by
    rw [UInt64.toNat_mul, toNat_mbOf, show mega.toNat = 2 ^ 20 by decide]
    exact Nat.mod_eq_of_lt (by omega)
  have hle : mbOf bytes * mega ≤ bytes - gbOf bytes * giga := by
    rw [UInt64.le_iff_toNat_le, hmul, toNat_afterGb]
    omega
  unfold kbOf
  rw [UInt64.toNat_div, UInt64.toNat_sub_of_le _ _ hle, toNat_afterGb, hmul,
    show kilo.toNat = 2 ^ 10 by decide]
  omega

end Units

/-- The line says what is in the node, and its three units add up to the pages of the node. The
unit of the megabytes is misspelt on the lines of less than one megabyte. -/
structure Line.Describes (l : Line) (n : Node) : Prop where
  devname : l.devname = n.devname
  ino : l.ino = n.ino
  icount : l.icount = n.icount
  nrpage : l.nrpage = n.pagecount
  isz : l.isz = n.size
  pid : l.pid = n.pid
  comm : l.comm = n.comm
  path : l.path = n.abspath
  mb : l.mb.toNat < 1024
  kb : l.kb.toNat < 1024
  sum : l.gb.toNat * 2 ^ 30 + l.mb.toNat * 2 ^ 20 + l.kb.toNat * 2 ^ 10
    = n.pagecount.toNat * pageSize.toNat
  mbUnit : l.mbUnit = if n.pagecount.toNat * pageSize.toNat < 2 ^ 20 then "Mb" else "MB"

section Line

variable {n : Node}

theorem toNat_bytes (h : n.pagecount.toNat < 2 ^ 52) :
    (n.pagecount * pageSize).toNat = n.pagecount.toNat * 4096 := by
  rw [UInt64.toNat_mul, show pageSize.toNat = 4096 by decide]
  exact Nat.mod_eq_of_lt (by omega)

theorem ne_zero_iff_toNat (x : UInt64) : x ≠ 0 ↔ x.toNat ≠ 0 := by
  rw [Ne, ← UInt64.toNat_inj, UInt64.toNat_zero]

/-- The units of the line, in terms of the pages. -/
theorem toNat_units (h : n.pagecount.toNat < 2 ^ 52) :
    (gbOf (n.pagecount * pageSize)).toNat = n.pagecount.toNat * 4096 / 2 ^ 30
      ∧ (mbOf (n.pagecount * pageSize)).toNat = n.pagecount.toNat * 4096 % 2 ^ 30 / 2 ^ 20
      ∧ (kbOf (n.pagecount * pageSize)).toNat = n.pagecount.toNat * 4096 % 2 ^ 20 / 2 ^ 10 := by
  rw [toNat_gbOf, toNat_mbOf, toNat_kbOf, toNat_bytes h]
  exact ⟨rfl, rfl, rfl⟩

/-- A line is printed for every node that has pages. -/
theorem lineOf_isSome_iff (h : n.pagecount.toNat < 2 ^ 52) :
    (lineOf n).isSome = true ↔ 1 ≤ n.pagecount.toNat := by
  obtain ⟨hgb, hmb, hkb⟩ := toNat_units h
  unfold lineOf
  dsimp only
  simp only [ne_zero_iff_toNat]
  rw [hgb, hmb, hkb]
  split
  · exact iff_of_true rfl (by omega)
  · split
    · exact iff_of_true rfl (by omega)
    · split
      · exact iff_of_true rfl (by omega)
      · exact iff_of_false (by simp) (by omega)

theorem lineOf_describes {l : Line} (hl : lineOf n = some l) (h : n.pagecount.toNat < 2 ^ 52) :
    l.Describes n := by
  obtain ⟨hgb, hmb, hkb⟩ := toNat_units h
  have hpage : pageSize.toNat = 4096 := by decide
  have hsum : (gbOf (n.pagecount * pageSize)).toNat * 2 ^ 30
      + (mbOf (n.pagecount * pageSize)).toNat * 2 ^ 20
      + (kbOf (n.pagecount * pageSize)).toNat * 2 ^ 10
      = n.pagecount.toNat * pageSize.toNat := by
    rw [hgb, hmb, hkb, hpage]
    omega
  -- the three branches differ in the unit of the megabytes only
  have hline : ∀ unit, (unit = if n.pagecount.toNat * pageSize.toNat < 2 ^ 20 then "Mb" else "MB") →
      Line.Describes ⟨n.devname, n.ino, n.icount, n.pagecount, gbOf (n.pagecount * pageSize),
        mbOf (n.pagecount * pageSize), unit, kbOf (n.pagecount * pageSize), n.size, n.pid, n.comm,
        n.abspath⟩ n := fun unit hunit =>
    ⟨rfl, rfl, rfl, rfl, rfl, rfl, rfl, rfl, by dsimp only; omega, by dsimp only; omega, hsum, hunit⟩
  unfold lineOf at hl
  dsimp only at hl
  simp only [ne_zero_iff_toNat] at hl
  split at hl
  · cases hl
    exact hline _ (if_neg (by omega)).symm
  · split at hl
    · cases hl
      exact hline _ (if_neg (by omega)).symm
    · split at hl
      · cases hl
        exact hline _ (if_pos (by omega)).symm
      · cases hl

end Line

/-- The line for the node at an address. -/
def World.lineAt (w : World) (x : Nat) : Option Line := (w.deref (.node x)).bind lineOf

theorem lineAt_log (w : World) (log : List Printk) :
    World.lineAt { w with log := log } = w.lineAt := rfl

/-- One turn of the loop. -/
theorem printTopNumBody_spec (num : Int) {w : World} {x : Nat}
    (h : (w.deref (.node x)).isSome = true) (count : Int) :
    printTopNumBody num (.node x) (w, count)
      = .ok (.yield
        ({ w with
            log := w.log ++ if count < num then (w.lineAt x).toList.map .line else [] },
          count + 1)) := by
  obtain ⟨node, hnode⟩ := Option.isSome_iff_exists.mp h
  unfold printTopNumBody World.lineAt
  dsimp only
  rw [hnode]
  split
  · cases hl : lineOf node with
    | none => simp [hl]
    | some l => simp [hl, World.printk]
  · simp

/-- The loop prints the lines of the nodes that are reached before the counter is at `num`. -/
theorem forList_print (num : Int) {xs : List Nat} {w : World}
    (h : ∀ x ∈ xs, (w.deref (.node x)).isSome = true) (count : Int) :
    forList (printTopNumBody num) (xs.map .node) (w, count)
      = .ok (.yield
        ({ w with
            log := w.log ++ ((xs.take (num - count).toNat).filterMap w.lineAt).map .line },
          count + xs.length)) := by
  induction xs generalizing w count with
  | nil => simp [forList]
  | cons x xs ih =>
      have hxs : ∀ y ∈ xs, (w.deref (.node y)).isSome = true :=
        fun y hy => h y (List.mem_cons_of_mem _ hy)
      have hcount : count + 1 + (xs.length : Int) = count + ((x :: xs).length : Int) := by
        rw [List.length_cons]
        push_cast
        ring
      rw [List.map_cons, forList_of_yield (printTopNumBody_spec num (h x List.mem_cons_self) count),
        ← hcount]
      by_cases hlt : count < num
      · obtain ⟨n, hn⟩ : ∃ n, (num - count).toNat = n + 1 := ⟨(num - count).toNat - 1, by omega⟩
        have hn' : (num - (count + 1)).toNat = n := by omega
        rw [if_pos hlt, ih (by exact hxs), hn, hn', List.take_succ_cons]
        cases hl : w.lineAt x with
        | none =>
            rw [List.filterMap_cons_none hl]
            simp [lineAt_log]
        | some l =>
            rw [List.filterMap_cons_some hl]
            simp [lineAt_log]
      · have hn : (num - count).toNat = 0 := by omega
        have hn' : (num - (count + 1)).toNat = 0 := by omega
        rw [if_neg hlt, ih (by exact hxs), hn, hn']
        simp

/-- **What `print_top_num` does with a list that is not empty.** -/
theorem printTopNum_spec {w : World} {ys : List Nat} (h : Lists w ys) (hne : ys ≠ []) (num : Int) :
    printTopNum w num = .ok
      { w with
        ops := w.ops ++ [.acquire .orderedListLock] ++ [.release .orderedListLock]
        log := w.log ++ [.text "\n"]
          ++ ((ys.take num.toNat).filterMap w.lineAt).map .line ++ [.text "\n"] } := by
  have hlocked : Lists ((w.spinLock .orderedListLock).printk (.text "\n")) ys := h.congr rfl rfl
  unfold printTopNum
  rw [if_neg (fun he => hne (h.empty_iff.mp he))]
  dsimp only
  rw [forEachNode_eq Prod.fst hlocked]
  · rw [forList_print num hlocked.allocated, Int.sub_zero]
    rfl
  · intro x t t' hbody
    unfold printTopNumBody at hbody
    split at hbody
    · split at hbody
      · cases hbody
      · split at hbody <;> cases hbody <;> rfl
    · cases hbody
      rfl

/-! ## A list built from nothing -/

/-- A node is allocated, filled in and added, as both scans do it. -/
def addNode (w : World) (node : Node) : Except World World :=
  orderListAdd (w.kzalloc.2.store w.kzalloc.1 node) w.kzalloc.1

def addNodes : List Node → World → Except World World
  | [], w => .ok w
  | node :: nodes, w => do
      let w ← addNode w node
      addNodes nodes w

section Alloc

variable {w : World} {xs : List Nat}

theorem kzalloc_store (w : World) (node : Node) :
    w.kzalloc.2.store w.kzalloc.1 node = { w with heap := w.heap ++ [some node] } := by
  unfold World.kzalloc World.store
  simp

theorem deref_fresh (w : World) (node : Node) :
    World.deref { w with heap := w.heap ++ [some node] } (.node w.heap.length) = some node := by
  simp [World.deref]

/-- A larger heap has the old nodes. -/
theorem deref_append {n : Nat} (hn : n < w.heap.length) (more : List (Option Node)) :
    World.deref { w with heap := w.heap ++ more } (.node n) = w.deref (.node n) := by
  show (w.heap ++ more)[n]?.join = w.heap[n]?.join
  rw [List.getElem?_append_left hn]

theorem Lists.lt_heap (h : Lists w xs) {x : Nat} (hx : x ∈ xs) : x < w.heap.length :=
  lt_heap_of_deref (h.allocated x hx)

theorem Lists.alloc (h : Lists w xs) (more : List (Option Node)) :
    Lists { w with heap := w.heap ++ more } xs :=
  ⟨h.rep, fun x hx => by
    rw [deref_append (h.lt_heap hx)]
    exact h.allocated x hx⟩

theorem addNode_spec (h : Lists w xs) (node : Node) :
    ∃ links, addNode w node = .ok { w with links := links, heap := w.heap ++ [some node] }
      ∧ Lists { w with links := links, heap := w.heap ++ [some node] }
        (insertRanked (World.pagecountOf { w with heap := w.heap ++ [some node] })
          w.heap.length xs) := by
  unfold addNode
  rw [kzalloc_store]
  exact orderListAdd_spec (h.alloc _) (deref_fresh w node) fun hmem =>
    (h.lt_heap hmem).false

/-- Nodes that were put at the end of a heap are read back at consecutive addresses. -/
theorem map_deref_range' {base rest : List (Option Node)} {nodes : List Node}
    (hheap : w.heap = base ++ nodes.map some ++ rest) :
    (List.range' base.length nodes.length).map (fun n => w.deref (.node n)) = nodes.map some := by
  apply List.ext_getElem?
  intro i
  by_cases hi : i < nodes.length
  · rw [List.getElem?_map, List.getElem?_range' hi, Option.map_some]
    show some (w.heap[base.length + 1 * i]?.join) = _
    rw [hheap, Nat.one_mul, List.append_assoc, List.getElem?_append_right (Nat.le_add_right _ _),
      Nat.add_sub_cancel_left, List.getElem?_append_left (by simpa using hi), List.getElem?_map,
      List.getElem?_eq_getElem hi]
    rfl
  · rw [List.getElem?_eq_none (by simpa using hi), List.getElem?_eq_none (by simpa using hi)]

/-- The nodes added are at consecutive addresses, and each is inserted by its rank. The induction
is on the nodes to come; their keys are read in the heap at the end, which has all of them. -/
theorem addNodes_spec (h : Lists w xs) (nodes : List Node) :
    ∃ links, addNodes nodes w = .ok { w with links := links, heap := w.heap ++ nodes.map some }
      ∧ Lists { w with links := links, heap := w.heap ++ nodes.map some }
        ((List.range' w.heap.length nodes.length).foldl
          (fun ys n => insertRanked
            (World.pagecountOf { w with heap := w.heap ++ nodes.map some }) n ys) xs) := by
  induction nodes generalizing w xs with
  | nil =>
      refine ⟨w.links, ?_, ?_⟩
      · simp [addNodes]
      · simpa using h
  | cons node nodes ih =>
      obtain ⟨links, hadd, hlists⟩ := addNode_spec h node
      obtain ⟨links', hrest, hend⟩ := ih hlists
      have hheap : w.heap ++ [some node] ++ nodes.map some = w.heap ++ (node :: nodes).map some := by
        simp
      have hkey : ∀ n < (w.heap ++ [some node]).length,
          World.pagecountOf { w with heap := w.heap ++ (node :: nodes).map some } n
            = World.pagecountOf { w with heap := w.heap ++ [some node] } n := by
        intro n hn
        rw [← hheap]
        exact congrArg (fun o : Option Node => (o.map fun node => node.pagecount.toNat).getD 0)
          (deref_append (w := { w with heap := w.heap ++ [some node] }) hn (nodes.map some))
      refine ⟨links', ?_, ?_⟩
      · rw [addNodes, hadd]
        dsimp only at hrest
        rw [hheap] at hrest
        exact hrest
      · dsimp only at hend
        rw [hheap, List.length_append, List.length_singleton] at hend
        rw [List.length_cons, List.range'_succ, List.foldl_cons,
          insertRanked_congr (hkey _ (by simp)) fun x hx => hkey x
            ((h.lt_heap hx).trans (by simp))]
        exact hend

end Alloc

/-! ## The report -/

/-- The list `ys` is the nodes `ns`, the largest first, and those of one size in the order of
`ns`. -/
structure Ranked (w : World) (ns ys : List Nat) : Prop where
  perm : ys.Perm ns
  descending : ys.Pairwise fun x y => w.pagecountOf y ≤ w.pagecountOf x
  stable : ∀ c, ys.filter (fun x => w.pagecountOf x = c) = ns.filter (fun x => w.pagecountOf x = c)

/-- The nodes that `print_top_num` prints a line for: those with pages among the first `num`. -/
def World.printed (w : World) (ys : List Nat) (num : Int) : List Nat :=
  (ys.take num.toNat).filter fun y => 1 ≤ w.pagecountOf y

/-- The line describes the node at the address. -/
def World.Describes (w : World) (y : Nat) (l : Line) : Prop :=
  ∃ node, w.deref (.node y) = some node ∧ l.Describes node

/-- From `w` to `w'` the first nodes of `ys` are printed. -/
structure TopPrinted (w : World) (ys : List Nat) (num : Int) (w' : World) : Prop where
  log : ∃ lines : List Line,
    w'.log = w.log ++ [.text "\n"] ++ lines.map .line ++ [.text "\n"]
      ∧ List.Forall₂ w.Describes (w.printed ys num) lines
  /-- It is the same to skip the nodes without pages first. -/
  first : w.printed ys num = (ys.filter fun y => 1 ≤ w.pagecountOf y).take num.toNat
  best : (w.printed ys num).length = num.toNat →
    ∀ x ∈ w.printed ys num, ∀ y ∈ ys, y ∉ w.printed ys num → w.pagecountOf y ≤ w.pagecountOf x

section Report

variable {w : World} {ys : List Nat}

/-- The lines that are printed, node by node. -/
theorem filterMap_lineAt (xs : List Nat) (halloc : ∀ x ∈ xs, (w.deref (.node x)).isSome = true)
    (hsmall : ∀ x ∈ xs, w.pagecountOf x < 2 ^ 52) :
    List.Forall₂ w.Describes
      (xs.filter fun y => 1 ≤ w.pagecountOf y) (xs.filterMap w.lineAt) := by
  induction xs with
  | nil => exact List.Forall₂.nil
  | cons x xs ih =>
      have hrest := ih (fun y hy => halloc y (List.mem_cons_of_mem _ hy))
        fun y hy => hsmall y (List.mem_cons_of_mem _ hy)
      obtain ⟨node, hnode⟩ := Option.isSome_iff_exists.mp (halloc x List.mem_cons_self)
      have hcount := pagecountOf_eq hnode
      have hpages : node.pagecount.toNat < 2 ^ 52 := hcount ▸ hsmall x List.mem_cons_self
      have hline : w.lineAt x = lineOf node := by
        unfold World.lineAt
        rw [hnode]
        rfl
      have hsome := lineOf_isSome_iff hpages
      cases hl : lineOf node with
      | none =>
          rw [hl, ← hcount] at hsome
          rw [List.filterMap_cons_none (hline.trans hl),
            List.filter_cons_of_neg (by simpa using hsome)]
          exact hrest
      | some l =>
          rw [hl, ← hcount] at hsome
          rw [List.filterMap_cons_some (hline.trans hl),
            List.filter_cons_of_pos (by simpa using hsome)]
          exact .cons ⟨node, hnode, lineOf_describes hl hpages⟩ hrest

theorem topPrinted (h : Lists w ys) (hne : ys ≠ [])
    (hdesc : ys.Pairwise fun x y => w.pagecountOf y ≤ w.pagecountOf x)
    (hsmall : ∀ y ∈ ys, w.pagecountOf y < 2 ^ 52) (num : Int) :
    ∃ w', printTopNum w num = .ok w' ∧ TopPrinted w ys num w' := by
  refine ⟨_, printTopNum_spec h hne num, ⟨_, rfl, ?_⟩, ?_, ?_⟩
  · exact filterMap_lineAt _ (fun x hx => h.allocated x (List.mem_of_mem_take hx))
      fun x hx => hsmall x (List.mem_of_mem_take hx)
  · exact Descending.take_filter hdesc 1 num.toNat
  · intro hfull x hx y hy hnot
    -- `num` lines are printed, so none of the first `num` nodes is left out
    have hall : w.printed ys num = ys.take num.toNat := by
      apply List.filter_sublist.eq_of_length_le
      rw [show ((ys.take num.toNat).filter _).length = num.toNat from hfull]
      exact List.length_take_le _ _
    rw [hall] at hx hnot
    exact Descending.le_of_not_mem_take hdesc num.toNat hx hy hnot

end Report

/-- Nodes added to an empty list. -/
theorem addNodes_ranked {w : World} (h : Lists w []) (nodes : List Node) :
    ∃ w₁ ys, addNodes nodes w = .ok w₁ ∧ Lists w₁ ys
      ∧ (List.range' w.heap.length nodes.length).map (fun n => w₁.deref (.node n))
        = nodes.map some
      ∧ Ranked w₁ (List.range' w.heap.length nodes.length) ys := by
  obtain ⟨links, hadd, hlists⟩ := addNodes_spec h nodes
  exact ⟨_, _, hadd, hlists, map_deref_range' (List.append_nil _).symm,
    ranking_perm _, ranking_descending _, ranking_stable _⟩

/-- **The report is the top of the ranking.** After `order_list_clear`, whatever the list was, and
any sequence of nodes added, `ordered_list` is the ranking of these nodes; and `print_top_num`
then prints its first nodes, as far as they have pages, with their sizes. -/
theorem top_n_report {w : World} {xs : List Nat} (h : Lists w xs) (nodes : List Node) :
    ∃ w₀ w₁ ys, orderListClear w = .ok w₀ ∧ addNodes nodes w₀ = .ok w₁ ∧ Lists w₁ ys
      ∧ (List.range' w₀.heap.length nodes.length).map (fun n => w₁.deref (.node n))
        = nodes.map some
      ∧ Ranked w₁ (List.range' w₀.heap.length nodes.length) ys
      ∧ ∀ num : Int, 0 ≤ num → nodes ≠ [] → (∀ node ∈ nodes, node.pagecount.toNat < 2 ^ 52) →
          ∃ w₂, printTopNum w₁ num = .ok w₂ ∧ TopPrinted w₁ ys num w₂ := by
  obtain ⟨links, heap, hclear, hempty, -⟩ := orderListClear_spec h
  obtain ⟨w₁, ys, hadd, hlists, hderef, hranked⟩ := addNodes_ranked (w := { w with
    links := links
    heap := heap
    ops := w.ops ++ [.acquire .orderedListLock] ++ [.release .orderedListLock] })
    (hempty.congr rfl rfl) nodes
  refine ⟨_, w₁, ys, hclear, hadd, hlists, hderef, hranked, ?_⟩
  intro num _ hne hsmall
  refine topPrinted hlists ?_ hranked.descending ?_ num
  · rintro rfl
    have hlen := hranked.perm.length_eq
    rw [List.length_range'] at hlen
    exact hne (List.length_eq_zero_iff.mp hlen.symm)
  · intro y hy
    have hmem : w₁.deref (.node y) ∈ nodes.map some := by
      rw [← hderef]
      exact List.mem_map_of_mem (hranked.perm.subset hy)
    obtain ⟨node, hnode, heq⟩ := List.mem_map.mp hmem
    rw [pagecountOf_eq heq.symm]
    exact hsmall node hnode

theorem lists_init : Lists World.init [] :=
  ⟨⟨⟨rfl, rfl⟩, List.nodup_singleton _⟩, fun _ hx => nomatch hx⟩

/-- A node with this many pages, and nothing else. -/
def pages (pagecount : UInt64) : Node := { Node.zero with pagecount := pagecount }

theorem top_n_report_three :
    ∃ w₀ w₁ ys, orderListClear World.init = .ok w₀
      ∧ addNodes [pages 3, pages 700, pages 3] w₀ = .ok w₁ ∧ Lists w₁ ys
      ∧ ∃ w₂, printTopNum w₁ 2 = .ok w₂ ∧ TopPrinted w₁ ys 2 w₂ := by
  obtain ⟨w₀, w₁, ys, hclear, hadd, hlists, -, -, hprint⟩ :=
    top_n_report lists_init [pages 3, pages 700, pages 3]
  exact ⟨w₀, w₁, ys, hclear, hadd, hlists, hprint 2 (by decide) (by decide) (by decide)⟩

end UioLinuxSample.PgcacheScan
