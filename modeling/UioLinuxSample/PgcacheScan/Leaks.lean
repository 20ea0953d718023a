import UioLinuxSample.PgcacheScan.Scans

set_option autoImplicit false

/-! # The nodes that the scan of a superblock allocates

`scan_inodes_pagecache_one_sb` allocates a node at the top of a turn, before it knows whether the
inode is skipped, and keeps it in `pgc` for the next turn. So the heap grows by the nodes that are
filled in, in the order of their inodes, and by one node of zeros if `pgc` is not `NULL` at the end
(`scanInodes_heap`). That one is not in `ordered_list`, and nobody has its address.
-/

namespace UioLinuxSample.PgcacheScan

open CircularList Ranking

/-! ## The inodes that get a node -/

/-- The inodes whose turn comes: up to the first turn that needs a node and gets none. `spare` says
whether `pgc` holds a node at the start. -/
def visited : Bool → List Visit → List Visit
  | _, [] => []
  | spare, v :: vs =>
      if spare || v.kzalloc then v :: visited v.inode.skipped vs else []

/-- If no `kzalloc` fails, every turn comes. -/
theorem visited_of_kzalloc {vs : List Visit} (h : ∀ v ∈ vs, v.kzalloc = true) (spare : Bool) :
    visited spare vs = vs := by
  induction vs generalizing spare with
  | nil => rfl
  | cons v vs ih =>
      obtain ⟨hv, hvs⟩ := List.forall_mem_cons.mp h
      unfold visited
      rw [hv, Bool.or_true, if_pos rfl, ih hvs]

/-- The nodes for the inodes among them that are not skipped. -/
def nodesFor (sb : SuperBlock) (vs : List Visit) : List Node :=
  (vs.filter fun v => !v.inode.skipped).map fun v => fillFromSb sb v.inode Node.zero

/-- A node is in `pgc` after the turns of `vs`: the last inode was skipped. -/
def spareAfter (spare : Bool) (vs : List Visit) : Bool :=
  (vs.getLast?.map fun v => v.inode.skipped).getD spare

/-- The node of `pgc`, at the end of the heap. -/
def spareNode (spare : Bool) : List (Option Node) := if spare then [some Node.zero] else []

theorem spareAfter_cons (spare : Bool) (v : Visit) (vs : List Visit) :
    spareAfter spare (v :: vs) = spareAfter v.inode.skipped vs := by
  unfold spareAfter
  rw [List.getLast?_cons]
  cases vs.getLast? <;> rfl

theorem spareAfter_eq_false_iff {vs : List Visit} :
    spareAfter false vs = false ↔ ∀ v ∈ vs.getLast?, v.inode.skipped = false := by
  unfold spareAfter
  cases vs.getLast? <;> simp

section Loop

variable {w : World} {xs : List Nat} {base : List (Option Node)} {pgc : Option Nat}

/-- The node of a turn is the last one of the heap, and holds zeros. -/
theorem takeNode_heap {v : Visit} (h : Lists w xs)
    (hheap : w.heap = base ++ spareNode pgc.isSome) (hpgc : ∀ n ∈ pgc, n = base.length)
    (hmem : (pgc.isSome || v.kzalloc) = true) :
    ∃ w', takeNode pgc v w = some (base.length, w') ∧ Lists w' xs
      ∧ w'.heap = base ++ [some Node.zero] := by
  cases pgc with
  | some n =>
      obtain rfl := hpgc n rfl
      exact ⟨w, rfl, h, hheap⟩
  | none =>
      have hk : v.kzalloc = true := hmem
      have hbase : w.heap = base := by simpa [spareNode] using hheap
      refine ⟨w.kzalloc.2, ?_, h.alloc _, by rw [← hbase]; rfl⟩
      unfold takeNode
      rw [hk, ← hbase]
      rfl

/-- The turn of an inode that is not skipped: the node is filled in and inserted. -/
theorem scanInode_kept (sb : SuperBlock) {inode : Inode} (h : Lists w xs)
    (hheap : w.heap = base ++ [some Node.zero]) (hxs : ∀ x ∈ xs, x < base.length)
    (hkeep : inode.skipped = false) :
    ∃ w' ys, scanInode sb inode base.length w = .ok (w', none) ∧ Lists w' ys
      ∧ w'.heap = base ++ [some (fillFromSb sb inode Node.zero)]
      ∧ ys.Perm (base.length :: xs) := by
  have hn : (w.spinLock (.iLock inode.addr)).deref (.node base.length) = some Node.zero := by
    show w.heap[base.length]?.join = some Node.zero
    rw [hheap]
    simp
  have hlt : base.length < w.heap.length := by
    rw [hheap]
    simp
  have hfresh : base.length ∉ xs := fun hmem => (hxs _ hmem).false
  have hstored := (h.store hfresh (fillFromSb sb inode Node.zero))
  obtain ⟨links, hadd, hlists⟩ := orderListAdd_spec (w := ((((w.spinLock
    (.iLock inode.addr)).store base.length (fillFromSb sb inode Node.zero)).spinUnlock
      (.iLock inode.addr)).note inode (fillFromSb sb inode Node.zero)))
    (hstored.congr rfl rfl) (deref_store hlt _) hfresh
  refine ⟨_, _, ?_, hlists, ?_, insertRanked_perm _ _⟩
  · unfold scanInode
    dsimp only
    rw [if_neg (by rw [hkeep]; exact Bool.false_ne_true), hn]
    dsimp only
    rw [hadd]
    rfl
  · show w.heap.set base.length (some (fillFromSb sb inode Node.zero)) = _
    rw [hheap]
    simp

/-- **The loop.** The induction carries the heap without the node of `pgc`, which is at its end. -/
theorem scanInodes_heap (sb : SuperBlock) (vs : List Visit) (h : Lists w xs)
    (hheap : w.heap = base ++ spareNode pgc.isSome) (hpgc : ∀ n ∈ pgc, n = base.length)
    (hxs : ∀ x ∈ xs, x < base.length) :
    ∃ w' ys, scanInodes sb vs w pgc = .ok w' ∧ Lists w' ys
      ∧ w'.heap = base ++ (nodesFor sb (visited pgc.isSome vs)).map some
          ++ spareNode (spareAfter pgc.isSome (visited pgc.isSome vs))
      ∧ ys.Perm (List.range' base.length (nodesFor sb (visited pgc.isSome vs)).length ++ xs) := by
  induction vs generalizing w xs base pgc with
  | nil => exact ⟨w, xs, rfl, h, by simpa [visited, nodesFor, spareAfter] using hheap, .refl _⟩
  | cons v vs ih =>
      unfold scanInodes visited
      cases hmem : pgc.isSome || v.kzalloc with
      | false =>
          -- `goto out` with `pgc` still `NULL`
          obtain ⟨hnone, hk⟩ := Bool.or_eq_false_iff.mp hmem
          obtain rfl : pgc = none := by simpa using hnone
          have htake : takeNode none v w = none := by
            unfold takeNode
            rw [hk]
            rfl
          rw [htake]
          exact ⟨_, xs, rfl, h.congr rfl rfl,
            by simpa [nodesFor, spareAfter, World.printk] using hheap, .refl _⟩
      | true =>
          obtain ⟨w₁, htake, hlists, hheap₁⟩ := takeNode_heap h hheap hpgc hmem
          rw [htake, if_pos rfl, spareAfter_cons]
          dsimp only
          cases hskip : v.inode.skipped with
          | true =>
              -- the node stays in `pgc` for the next turn
              rw [scanInode_skipped sb base.length hskip]
              have hheap₁' : w₁.heap = base ++ spareNode (some base.length).isSome := hheap₁
              have hkept : ∀ n ∈ some base.length, n = base.length := by
                rintro n ⟨⟩
                rfl
              obtain ⟨w', ys, hrest, hlists', hheap', hperm⟩ :=
                ih (w := (w₁.spinLock (.iLock v.inode.addr)).spinUnlock (.iLock v.inode.addr))
                  (hlists.congr rfl rfl) hheap₁' hkept hxs
              have hnodes : nodesFor sb (v :: visited true vs) = nodesFor sb (visited true vs) := by
                simp [nodesFor, hskip]
              rw [hnodes]
              exact ⟨w', ys, hrest, hlists', hheap', hperm⟩
          | false =>
              -- the node becomes part of the heap below `pgc`
              obtain ⟨w₂, zs, hturn, hlists₂, hheap₂, hzs⟩ :=
                scanInode_kept sb hlists hheap₁ hxs hskip
              have hlen : (base ++ [some (fillFromSb sb v.inode Node.zero)]).length
                  = base.length + 1 := by simp
              have hlt : ∀ x ∈ zs, x < (base ++ [some (fillFromSb sb v.inode Node.zero)]).length := by
                intro x hx
                rw [hlen]
                rcases List.mem_cons.mp (hzs.subset hx) with rfl | hx
                · exact Nat.lt_succ_self _
                · exact (hxs x hx).trans (Nat.lt_succ_self _)
              obtain ⟨w', ys, hrest, hlists', hheap', hperm⟩ :=
                ih hlists₂ (hheap₂.trans (List.append_nil _).symm)
                  (fun n hn => absurd hn (Option.not_mem_none n)) hlt
              have hnodes : nodesFor sb (v :: visited false vs)
                  = fillFromSb sb v.inode Node.zero :: nodesFor sb (visited false vs) := by
                simp [nodesFor, hskip]
              rw [hturn, hnodes]
              refine ⟨w', ys, hrest, hlists', ?_, ?_⟩
              · rw [hheap']
                simp
              · rw [hlen] at hperm
                rw [List.length_cons, List.range'_succ, List.cons_append]
                exact hperm.trans ((hzs.append_left _).trans List.perm_middle)

end Loop

/-! ## Lost nodes -/

/-- Between the states `w` and `w'`, which has the list `ys`, the nodes `ns` were inserted and no
other node was allocated; so the next `order_list_clear` frees all that was allocated. -/
structure NothingLost (w w' : World) (ys ns : List Nat) : Prop where
  count : w'.heap.length - w.heap.length = ns.length
  reachable : ∀ n, w.heap.length ≤ n → n < w'.heap.length → n ∈ ys
  freed : ∀ w'', orderListClear w' = .ok w'' → ∀ n, w.heap.length ≤ n → w''.deref (.node n) = none

theorem nothingLost_iff {w w' : World} {ys ns : List Nat} {spare : Bool} (h : Lists w' ys)
    (hlen : w'.heap.length = w.heap.length + ns.length + (spareNode spare).length)
    (hys : List.range' w.heap.length ns.length ⊆ ys) :
    NothingLost w w' ys ns ↔ spare = false := by
  constructor
  · intro hlost
    cases spare with
    | false => rfl
    | true =>
        have hcount := hlost.count
        have hone : (spareNode true).length = 1 := rfl
        omega
  · rintro rfl
    have hzero : (spareNode false).length = 0 := rfl
    have hmem : ∀ n, w.heap.length ≤ n → n < w'.heap.length → n ∈ ys := by
      intro n hge hlt
      exact hys (List.mem_range'_1.mpr ⟨hge, by omega⟩)
    refine ⟨by omega, hmem, ?_⟩
    intro w'' hclear n hge
    obtain ⟨links, heap, hok, -, hfreed⟩ := orderListClear_spec h
    rw [hok] at hclear
    cases hclear
    show heap[n]?.join = none
    rw [hfreed n]
    by_cases hlt : n < w'.heap.length
    · rw [if_pos (hmem n hge hlt)]
    · rw [List.getElem?_eq_none (not_lt.mp hlt)]
      simp

/-- **What the scan of a superblock inserts and loses.** It inserts exactly one node for each inode
that it visits and does not skip, whatever was in the list; if no `kzalloc` fails, it visits all of
them. All that it allocates is in the list exactly if the last inode it visits is not a skipped
one. -/
theorem oneSb_nothingLost_iff {w : World} {xs : List Nat} (h : Lists w xs) (sb : SuperBlock)
    (sInodes : List Visit) :
    ∃ w' ys ns, scanInodesPagecacheOneSb w sb sInodes = .ok w' ∧ Lists w' ys
      ∧ ys.Perm (ns ++ xs)
      ∧ ns.map (fun n => w'.deref (.node n))
        = ((visited false sInodes).filter fun v => !v.inode.skipped).map
            (fun v => some (fillFromSb sb v.inode Node.zero))
      ∧ ((∀ v ∈ sInodes, v.kzalloc = true) → visited false sInodes = sInodes)
      ∧ (NothingLost w w' ys ns
        ↔ ∀ v ∈ (visited false sInodes).getLast?, v.inode.skipped = false) := by
  have hlocked : Lists ((w.spinLock .orderedListLock).spinLock .inodeSbListLock) xs :=
    h.congr rfl rfl
  have hheap₀ : w.heap = w.heap ++ spareNode (none : Option Nat).isSome :=
    (List.append_nil w.heap).symm
  obtain ⟨w', ys, hscan, hlists, hheap, hperm⟩ :=
    scanInodes_heap sb sInodes hlocked hheap₀ (fun n hn => nomatch hn) (fun x hx => h.lt_heap hx)
  refine ⟨(w'.spinUnlock .inodeSbListLock).spinUnlock .orderedListLock, ys, _, ?_,
    hlists.congr rfl rfl, hperm, ?_, fun hk => visited_of_kzalloc hk false, ?_⟩
  · unfold scanInodesPagecacheOneSb
    dsimp only
    rw [hscan]
    rfl
  · exact (map_deref_range' hheap).trans List.map_map
  · have hmem : List.range' w.heap.length (nodesFor sb (visited false sInodes)).length ⊆ ys :=
      fun n hn => hperm.symm.subset (List.mem_append_left _ hn)
    have hlen : w'.heap.length = w.heap.length
        + (List.range' w.heap.length (nodesFor sb (visited false sInodes)).length).length
        + (spareNode (spareAfter false (visited false sInodes))).length := by
      rw [hheap]
      simp [Nat.add_assoc]
    rw [← spareAfter_eq_false_iff]
    exact nothingLost_iff (hlists.congr rfl rfl) hlen (by rwa [List.length_range'])

/-- An inode without pages, as that of a directory. -/
def emptyInode (addr : Nat) : Inode :=
  { addr := addr, iIno := 2, iNlink := 1, iCount := 1, freeing := false, willFree := false,
    new := false, nrpages := 0, iSize := 4096, iSb := none }

/-- The directory first, and then a file of eight pages: the node is used. -/
theorem oneSb_nothingLost_file_last :
    ∃ w' ys ns,
      scanInodesPagecacheOneSb World.init ⟨none⟩
          [⟨emptyInode 0, true⟩, ⟨{ emptyInode 1 with nrpages := 8 }, false⟩] = .ok w'
        ∧ ys.Perm (ns ++ []) ∧ NothingLost World.init w' ys ns := by
  obtain ⟨w', ys, ns, hscan, -, hperm, -, -, hiff⟩ := oneSb_nothingLost_iff lists_init ⟨none⟩
    [⟨emptyInode 0, true⟩, ⟨{ emptyInode 1 with nrpages := 8 }, false⟩]
  exact ⟨w', ys, ns, hscan, hperm, hiff.mpr (by rintro v ⟨⟩; rfl)⟩

/-- One directory: a node is allocated, `ordered_list` stays empty, and the node is still there
after the next `order_list_clear`. -/
theorem oneSb_loses_node :
    ∃ w' w'', scanInodesPagecacheOneSb World.init ⟨none⟩ [⟨emptyInode 0, true⟩] = .ok w'
      ∧ World.init.heap.length = 0 ∧ w'.heap.length = 1
      ∧ listEmpty w'.links .orderedList = true
      ∧ orderListClear w' = .ok w'' ∧ w''.deref (.node 0) = some Node.zero :=
  ⟨_, _, rfl, rfl, rfl, rfl, rfl, rfl⟩

end UioLinuxSample.PgcacheScan
