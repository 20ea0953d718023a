import UioLinuxSample.PgcacheScan.OrderedList

set_option autoImplicit false

/-! # What the scans do

Both scans call `order_list_add` under the lock of the list. `Scanned` says what such a piece of
the program leaves: the locks it was called with, a list that is longer if the scan has found
something, and a history of nodes of a given kind. A piece may also end in a dereference of
`NULL`; then it has found something, and has kept the lock discipline up to there. The pieces
compose (`Scanned.bind`), so there is one lemma for each function.

The two scans fill their nodes in differently. For an inode that both of them find, the nodes
agree exactly if its superblock is on a disk (`scanners_agree_iff`): the scan of the superblock
leaves all fields but the name empty otherwise.
-/

namespace UioLinuxSample.PgcacheScan

open CircularList LockTrace Ranking

/-! ## Pieces of a scan -/

/-- The state `w` after a piece that was called in the state `start`, with the locks `held` and
the list `xs`. -/
structure Reached (held : List Lock) (start : World) (xs : List Nat) (found : Prop)
    (Made : Inode → Node → Prop) (w : World) : Prop where
  locks : Holds start.ops held → Holds w.ops held
  list : ∃ ys, Lists w ys ∧ (ys = [] ↔ xs = [] ∧ ¬ found)
  added : ∃ more, w.added = start.added ++ more ∧ ∀ e ∈ more, Made e.1 e.2

def Scanned (held : List Lock) (start : World) (xs : List Nat) (found : Prop)
    (Made : Inode → Node → Prop) : Except World World → Prop
  | .ok w => Reached held start xs found Made w
  | .error w => (Holds start.ops held → ∃ locks, Holds w.ops locks) ∧ found

section Pieces

variable {held : List Lock} {start w : World} {xs : List Nat} {found found' : Prop}
  {Made : Inode → Node → Prop} {o : Except World World}

/-- A piece that finds nothing. -/
theorem Scanned.nothing (h : Lists w xs) (hops : w.ops = start.ops)
    (hadded : w.added = start.added) (hfound : ¬ found) :
    Scanned held start xs found Made (.ok w) :=
  ⟨fun hheld => hops ▸ hheld, ⟨xs, h, by simp [hfound]⟩, [], by simp [hadded], by simp⟩

/-- **One piece after the other.** -/
theorem Scanned.bind {f : World → Except World World} (ho : Scanned held start xs found Made o)
    (hf : ∀ w ys, Lists w ys → Scanned held w ys found' Made (f w)) :
    Scanned held start xs (found ∨ found') Made (o >>= f) := by
  cases o with
  | error w => exact ⟨ho.1, .inl ho.2⟩
  | ok w =>
      obtain ⟨hlocks, ⟨ys, hys, hempty⟩, more, hadded, hmore⟩ := ho
      have hnext := hf w ys hys
      show Scanned held start xs (found ∨ found') Made (f w)
      cases hfw : f w with
      | error w' =>
          rw [hfw] at hnext
          exact ⟨fun hheld => hnext.1 (hlocks hheld), .inr hnext.2⟩
      | ok w' =>
          rw [hfw] at hnext
          obtain ⟨hlocks', ⟨zs, hzs, hempty'⟩, more', hadded', hmore'⟩ := hnext
          refine ⟨fun hheld => hlocks' (hlocks hheld), ⟨zs, hzs, ?_⟩, more ++ more', ?_, ?_⟩
          · rw [hempty', hempty, not_or, and_assoc]
          · rw [hadded', hadded, List.append_assoc]
          · intro e he
            rcases List.mem_append.mp he with he | he
            · exact hmore e he
            · exact hmore' e he

/-- A piece inside two nested locks. -/
theorem Scanned.locked {outer inner : Lock} (houter : outer ∉ held)
    (hinner : inner ∉ outer :: held)
    (ho : Scanned (inner :: outer :: held) ((start.spinLock outer).spinLock inner) xs found
      Made o) :
    Scanned held start xs found Made
      (o >>= fun w => .ok ((w.spinUnlock inner).spinUnlock outer)) := by
  have hlock : Holds start.ops held →
      Holds ((start.spinLock outer).spinLock inner).ops (inner :: outer :: held) :=
    fun hheld => (hheld.acquire houter).acquire hinner
  cases o with
  | error w => exact ⟨fun hheld => ho.1 (hlock hheld), ho.2⟩
  | ok w =>
      obtain ⟨hlocks, ⟨ys, hys, hempty⟩, hadded⟩ := ho
      exact ⟨fun hheld => (hlocks (hlock hheld)).release.release,
        ⟨ys, hys.congr rfl rfl, hempty⟩, hadded⟩

/-- A piece that starts from a state with the same locks and history. -/
theorem Scanned.start_eq (ho : Scanned held w xs found Made o) (hadded : w.added = start.added)
    (hlocks : Holds start.ops held → Holds w.ops held) :
    Scanned held start xs found Made o := by
  cases o with
  | error w' => exact ⟨fun hheld => ho.1 (hlocks hheld), ho.2⟩
  | ok w' => exact ⟨fun hheld => ho.locks (hlocks hheld), ho.list, hadded ▸ ho.added⟩

theorem Scanned.iff (h : Scanned held start xs found Made o) (hiff : found ↔ found') :
    Scanned held start xs found' Made o := by
  rwa [propext hiff] at h

theorem Scanned.forget (h : Scanned held start xs found Made o) :
    Scanned held start xs found (fun _ _ => True) o := by
  cases o with
  | error w => exact h
  | ok w =>
      obtain ⟨hlocks, hlist, more, hadded, -⟩ := h
      exact ⟨hlocks, hlist, more, hadded, fun _ _ => trivial⟩

/-- The call of `order_list_add`, for a node that has been noted. -/
theorem scanned_add {n : Nat} {inode : Inode} {node : Node} (h : Lists w xs)
    (hnode : w.deref (.node n) = some node) (hn : n ∉ xs) (hmade : Made inode node) :
    Scanned held w xs True Made (orderListAdd (w.note inode node) n) := by
  have hnoted : Lists (w.note inode node) xs := h.congr rfl rfl
  obtain ⟨links, hadd, hlists⟩ := orderListAdd_spec hnoted hnode hn
  rw [hadd]
  refine ⟨fun hheld => hheld, ⟨_, hlists, ?_⟩, [(inode, node)], rfl, by simpa using hmade⟩
  refine iff_of_false (fun hnil => ?_) (by simp)
  have hmem : n ∈ insertRanked (w.note inode node).pagecountOf n xs :=
    mem_insertRanked.mpr (.inl rfl)
  rw [hnil] at hmem
  cases hmem

end Pieces

/-! ## Writes to a node that is not in the list -/

theorem Lists.store {w : World} {xs : List Nat} {n : Nat} (h : Lists w xs) (hn : n ∉ xs)
    (node : Node) : Lists (w.store n node) xs := by
  refine ⟨h.rep, fun x hx => ?_⟩
  have hne : n ≠ x := fun heq => hn (heq ▸ hx)
  show ((w.heap.set n (some node))[x]?.join).isSome = true
  rw [List.getElem?_set_ne hne]
  exact h.allocated x hx

theorem deref_store {w : World} {n : Nat} (hn : n < w.heap.length) (node : Node) :
    (w.store n node).deref (.node n) = some node := by
  show (w.heap.set n (some node))[n]?.join = some node
  rw [List.getElem?_set_self hn]
  rfl

/-! ## The scan of a superblock -/

/-- The node that the scan of a superblock makes for an inode. -/
def MadeFromSb (sb : SuperBlock) (inode : Inode) (node : Node) : Prop :=
  inode.skipped = false ∧ node = fillFromSb sb inode Node.zero

/-- The loop finds something: an inode that is not skipped, and memory for the first node that is
needed. A node in `pgc` is kept until it is used. -/
def FoundFrom (pgc : Option Nat) (vs : List Visit) : Prop :=
  (∃ v ∈ vs, v.inode.skipped = false)
    ∧ (pgc.isSome = true ∨ ∃ v, vs.head? = some v ∧ v.kzalloc = true)

theorem foundFrom_cons_skipped {pgc : Option Nat} {v : Visit} {vs : List Visit} {n : Nat}
    (hskip : v.inode.skipped = true) (hmem : pgc.isSome = true ∨ v.kzalloc = true) :
    FoundFrom (some n) vs ↔ FoundFrom pgc (v :: vs) := by
  unfold FoundFrom
  simp [hskip, hmem]

theorem foundFrom_cons_kept {pgc : Option Nat} {v : Visit} {vs : List Visit}
    (hkeep : v.inode.skipped = false) (hmem : pgc.isSome = true ∨ v.kzalloc = true) :
    FoundFrom pgc (v :: vs) := by
  unfold FoundFrom
  simp [hkeep, hmem]

section Superblock

variable {held : List Lock} {w : World} {xs : List Nat} (sb : SuperBlock)

/-- The node of a turn is one of zeros, whatever inodes were skipped before, and is not in the
list. -/
theorem takeNode_spec {pgc : Option Nat} (v : Visit) (h : Lists w xs)
    (hpgc : ∀ m ∈ pgc, w.deref (.node m) = some Node.zero ∧ m ∉ xs) :
    (takeNode pgc v w = none ∧ ¬ (pgc.isSome = true ∨ v.kzalloc = true))
      ∨ ((pgc.isSome = true ∨ v.kzalloc = true) ∧ ∃ n w', takeNode pgc v w = some (n, w')
        ∧ Lists w' xs ∧ w'.ops = w.ops ∧ w'.added = w.added
        ∧ w'.deref (.node n) = some Node.zero ∧ n ∉ xs) := by
  cases pgc with
  | some n =>
      obtain ⟨hn, hfresh⟩ := hpgc n rfl
      exact .inr ⟨.inl rfl, n, w, rfl, h, rfl, rfl, hn, hfresh⟩
  | none =>
      unfold takeNode
      cases hk : v.kzalloc with
      | false => exact .inl ⟨rfl, by simp⟩
      | true =>
          have hfresh : w.heap.length ∉ xs := fun hmem => (h.lt_heap hmem).false
          exact .inr ⟨.inr rfl, w.heap.length, w.kzalloc.2, rfl, h.alloc _, rfl, rfl,
            deref_fresh w Node.zero, hfresh⟩

/-- A skipped inode leaves its node for the next one. -/
theorem scanInode_skipped {inode : Inode} (n : Nat) (hskip : inode.skipped = true) :
    scanInode sb inode n w
      = .ok ((w.spinLock (.iLock inode.addr)).spinUnlock (.iLock inode.addr), some n) := by
  unfold scanInode
  dsimp only
  rw [if_pos hskip]

/-- Any other inode has its node added. -/
theorem scanned_scanInode {inode : Inode} {n : Nat} (h : Lists w xs)
    (hfree : .iLock inode.addr ∉ held) (hn : w.deref (.node n) = some Node.zero) (hfresh : n ∉ xs)
    (hkeep : inode.skipped = false) :
    ∃ o, scanInode sb inode n w = (o >>= fun w => .ok (w, none))
      ∧ Scanned held w xs True (MadeFromSb sb) o := by
  have hstored : Lists (((w.spinLock (.iLock inode.addr)).store n
      (fillFromSb sb inode Node.zero)).spinUnlock (.iLock inode.addr)) xs :=
    (h.store hfresh (fillFromSb sb inode Node.zero)).congr rfl rfl
  have hlt : n < w.heap.length := lt_heap_of_deref (by rw [hn]; rfl)
  have hmade : MadeFromSb sb inode (fillFromSb sb inode Node.zero) := ⟨hkeep, rfl⟩
  refine ⟨_, ?_, Scanned.start_eq (scanned_add hstored (deref_store hlt _) hfresh hmade) rfl
    fun hheld => (hheld.acquire hfree).release⟩
  unfold scanInode
  dsimp only
  rw [if_neg (by rw [hkeep]; exact Bool.false_ne_true),
    show (w.spinLock (.iLock inode.addr)).deref (.node n) = some Node.zero from hn]

/-- **The loop over the inodes of a superblock.** The induction carries the node in `pgc`, which
is not in the list and has not been written. -/
theorem scanned_scanInodes (vs : List Visit) {pgc : Option Nat} (h : Lists w xs)
    (hfree : ∀ i, .iLock i ∉ held)
    (hpgc : ∀ m ∈ pgc, w.deref (.node m) = some Node.zero ∧ m ∉ xs) :
    Scanned held w xs (FoundFrom pgc vs) (MadeFromSb sb) (scanInodes sb vs w pgc) := by
  induction vs generalizing w xs pgc with
  | nil => exact .nothing h rfl rfl (by simp [FoundFrom])
  | cons v vs ih =>
      unfold scanInodes
      rcases takeNode_spec v h hpgc with
        ⟨hnone, hmem⟩ | ⟨hmem, n, w', hsome, hlists, hops, hadded, hn, hfresh⟩
      · -- no memory: `goto out`, and a node was needed at this turn, so none has been found
        rw [hnone]
        refine Scanned.nothing (h.congr rfl rfl) rfl rfl fun hfound => hmem ?_
        simpa [FoundFrom] using hfound.2
      · rw [hsome]
        dsimp only
        refine Scanned.start_eq (w := w') ?_ hadded fun hheld => hops ▸ hheld
        cases hskip : v.inode.skipped with
        | true =>
            -- `pgc` is kept, and still holds zeros at the next turn
            rw [scanInode_skipped sb n hskip]
            have hlists' : Lists ((w'.spinLock (.iLock v.inode.addr)).spinUnlock
                (.iLock v.inode.addr)) xs := hlists.congr rfl rfl
            have hkept : ∀ m ∈ some n, w'.deref (.node m) = some Node.zero ∧ m ∉ xs := by
              rintro m ⟨⟩
              exact ⟨hn, hfresh⟩
            exact Scanned.iff (Scanned.start_eq (ih hlists' hkept) rfl fun hheld =>
              (hheld.acquire (hfree v.inode.addr)).release) (foundFrom_cons_skipped hskip hmem)
        | false =>
            obtain ⟨o, ho, hadd⟩ :=
              scanned_scanInode sb hlists (hfree v.inode.addr) hn hfresh hskip
            have hrest := hadd.bind (f := fun w => scanInodes sb vs w none) fun w ys hys =>
              ih hys fun m hm => nomatch hm
            have hturn : ((o >>= fun w => .ok (w, none)) >>= fun r => scanInodes sb vs r.1 r.2)
                = o >>= fun w => scanInodes sb vs w none := by
              cases o <;> rfl
            rw [ho, hturn]
            exact hrest.iff (iff_of_true (.inl trivial) (foundFrom_cons_kept hskip hmem))

/-- **The scan of a superblock.** -/
theorem scanned_oneSb (sInodes : List Visit) (h : Lists w xs) :
    Scanned [] w xs (FoundFrom none sInodes) (MadeFromSb sb)
      (scanInodesPagecacheOneSb w sb sInodes) := by
  have hlists : Lists ((w.spinLock .orderedListLock).spinLock .inodeSbListLock) xs :=
    h.congr rfl rfl
  exact Scanned.locked (by simp) (by simp)
    (scanned_scanInodes sb sInodes hlists (by simp) fun m hm => nomatch hm)

theorem scanned_iterateSupers (supers : List (SuperBlock × List Visit)) (h : Lists w xs) :
    Scanned [] w xs (∃ s ∈ supers, FoundFrom none s.2) (fun _ _ => True)
      (iterateSupers supers w) := by
  induction supers generalizing w xs with
  | nil => exact .nothing h rfl rfl (by simp)
  | cons s supers ih =>
      refine ((scanned_oneSb s.1 s.2 h).forget.bind fun w ys hys => ih hys).iff ?_
      simp

end Superblock

/-! ## The scan of the open files -/

/-- The file has an inode that the scan wants, and memory for its node. -/
def File.found (deletedButUsed : Bool) (f : File) : Prop :=
  ∃ inode, f.host = some inode ∧ inode.wanted deletedButUsed = true ∧ f.kzalloc = true

/-- The node that the scan of the open files makes for an inode. -/
def MadeFromFile (tsk : Process) (f : File) (inode : Inode) (node : Node) : Prop :=
  inode.nrpages ≠ 0 ∧ ∃ devname, fileDevname inode.iSb Node.zero.devname = some devname
    ∧ node = fillFromFile tsk f inode devname Node.zero

/-- A process whose descriptor table the scan looks at, with something to find in it. -/
def Process.found (deletedButUsed : Bool) (p : Process) : Prop :=
  (p.isInit || p.isCurrent) = false
    ∧ ∃ fds, p.files = some fds ∧ ∃ f, some f ∈ fds.drop 1 ∧ f.found deletedButUsed

section OpenFiles

variable {held : List Lock} {w : World} {xs : List Nat} (deletedButUsed : Bool)

/-- `scan_file_inode` returns 0, and fails only for a file that it wants. -/
theorem scanned_scanFileInode (tsk : Process) (f : File) (h : Lists w xs) :
    ∃ o, scanFileInode deletedButUsed tsk (some f) w = (o >>= fun w => .ok (0, w))
      ∧ Scanned held w xs (f.found deletedButUsed) (MadeFromFile tsk f) o := by
  cases hhost : f.host with
  | none =>
      have hno : ¬ f.found deletedButUsed := fun ⟨_, hsome, _⟩ => nomatch hhost.symm.trans hsome
      refine ⟨.ok w, ?_, .nothing h rfl rfl hno⟩
      simp only [scanFileInode, hhost]
      rfl
  | some inode =>
      have hfound : f.found deletedButUsed
          ↔ inode.wanted deletedButUsed = true ∧ f.kzalloc = true := by
        unfold File.found
        rw [hhost]
        simp
      by_cases hyes : f.found deletedButUsed
      · obtain ⟨hwanted, hk⟩ := hfound.mp hyes
        have hpages : inode.nrpages ≠ 0 := by
          unfold Inode.wanted at hwanted
          simpa using (Bool.and_eq_true_iff.mp hwanted).1
        simp only [scanFileInode, hhost, hwanted, hk, Bool.not_true, Bool.false_eq_true, if_false]
        cases hdev : fileDevname inode.iSb Node.zero.devname with
        -- a disk without a partition: the scan ends at the `NULL` in `bd_part`
        | none => exact ⟨.error w.kzalloc.2, rfl, fun hheld => ⟨held, hheld⟩, hyes⟩
        | some devname =>
            have hmade : MadeFromFile tsk f inode (fillFromFile tsk f inode devname Node.zero) :=
              ⟨hpages, devname, hdev, rfl⟩
            have hlists := h.alloc [some (fillFromFile tsk f inode devname Node.zero)]
            have hnode := deref_fresh w (fillFromFile tsk f inode devname Node.zero)
            rw [← kzalloc_store] at hlists hnode
            have hfresh : w.heap.length ∉ xs := fun hmem => (h.lt_heap hmem).false
            exact ⟨_, rfl, Scanned.iff (Scanned.start_eq (scanned_add hlists hnode hfresh hmade)
              rfl id) (iff_of_true trivial hyes)⟩
      · refine ⟨.ok w, ?_, .nothing h rfl rfl hyes⟩
        rw [hfound, not_and] at hyes
        simp only [scanFileInode, hhost]
        cases hwanted : inode.wanted deletedButUsed with
        | false => rfl
        | true =>
            rw [Bool.eq_false_iff.mpr (hyes hwanted)]
            rfl

theorem scanned_iterateFd (tsk : Process) (fds : List (Option File)) (h : Lists w xs) :
    Scanned held w xs (∃ f, some f ∈ fds ∧ f.found deletedButUsed) (fun _ _ => True)
      (iterateFd deletedButUsed tsk fds w) := by
  induction fds generalizing w xs with
  | nil => exact .nothing h rfl rfl (by simp)
  | cons fd fds ih =>
      cases fd with
      | none =>
          refine (ih h).iff ?_
          simp
      | some f =>
          obtain ⟨o, ho, hscan⟩ := scanned_scanFileInode deletedButUsed tsk f h
          have hturn : iterateFd deletedButUsed tsk (some f :: fds) w
              = o >>= fun w => iterateFd deletedButUsed tsk fds w := by
            rw [iterateFd, ho]
            cases o <;> rfl
          rw [hturn]
          refine (hscan.forget.bind fun w ys hys => ih hys).iff ?_
          simp

/-- The turn of a process that has a descriptor table. -/
theorem scanned_oneProcess (p : Process) (fds : List (Option File)) (h : Lists w xs) :
    Scanned [] w xs (∃ f, some f ∈ fds.drop 1 ∧ f.found deletedButUsed) (fun _ _ => True)
      (iterateFd deletedButUsed p (fds.drop 1)
          ((w.spinLock (.taskLock p.pid)).spinLock .orderedListLock) >>=
        fun w => .ok ((w.spinUnlock .orderedListLock).spinUnlock (.taskLock p.pid))) := by
  have hlists : Lists ((w.spinLock (.taskLock p.pid)).spinLock .orderedListLock) xs :=
    h.congr rfl rfl
  exact Scanned.locked (by simp) (by simp)
    (scanned_iterateFd deletedButUsed p (fds.drop 1) hlists)

/-- **The scan of the open files.** -/
theorem scanned_processes (ps : List Process) (h : Lists w xs) :
    Scanned [] w xs (∃ p ∈ ps, p.found deletedButUsed) (fun _ _ => True)
      (scanProcessInodesPagecache deletedButUsed ps w) := by
  induction ps generalizing w xs with
  | nil => exact .nothing h rfl rfl (by simp)
  | cons p ps ih =>
      unfold scanProcessInodesPagecache
      cases hskip : p.isInit || p.isCurrent with
      | true =>
          have hno : ¬ p.found deletedButUsed := fun hp => nomatch hskip.symm.trans hp.1
          rw [if_pos rfl]
          refine (ih h).iff ?_
          simp [hno]
      | false =>
          rw [if_neg Bool.false_ne_true]
          dsimp only
          cases hfiles : p.files with
          | none =>
              have hno : ¬ p.found deletedButUsed :=
                fun ⟨_, _, hsome, _⟩ => nomatch hfiles.symm.trans hsome
              have hlists : Lists ((w.spinLock (.taskLock p.pid)).spinUnlock (.taskLock p.pid)) xs :=
                h.congr rfl rfl
              refine Scanned.iff (Scanned.start_eq (ih hlists) rfl fun hfree =>
                (hfree.acquire (by simp)).release) ?_
              simp [hno]
          | some fds =>
              have hfound : p.found deletedButUsed
                  ↔ ∃ f, some f ∈ fds.drop 1 ∧ f.found deletedButUsed := by
                constructor
                · rintro ⟨-, fds', hfds', hf⟩
                  rw [hfiles] at hfds'
                  cases hfds'
                  exact hf
                · exact fun hf => ⟨hskip, fds, hfiles, hf⟩
              have hrest := (scanned_oneProcess deletedButUsed p fds h).bind fun w ys hys => ih hys
              rw [bind_assoc] at hrest
              refine Scanned.iff hrest ?_
              rw [← hfound]
              simp

end OpenFiles

/-! ## The nodes of the two scans -/

/-- The superblock is on a block device with a disk. -/
def SuperBlock.HasDisk (sb : SuperBlock) : Prop :=
  ∃ bdev, sb.sBdev = some bdev ∧ bdev.bdDisk.isSome = true

/-- The nodes agree in the fields that both scans fill in. -/
structure Node.Agrees (a b : Node) : Prop where
  ino : a.ino = b.ino
  pagecount : a.pagecount = b.pagecount
  icount : a.icount = b.icount
  devname : a.devname = b.devname

/-- What a call made in the state `w` has added to the history, if it has returned. -/
def addedBy (w : World) : Except World World → List (Inode × Node)
  | .ok w' => w'.added.drop w.added.length
  | .error _ => []

theorem Scanned.made {held : List Lock} {w : World} {xs : List Nat} {found : Prop}
    {Made : Inode → Node → Prop} {o : Except World World} (h : Scanned held w xs found Made o)
    {inode : Inode} {node : Node} (hmem : (inode, node) ∈ addedBy w o) : Made inode node := by
  cases o with
  | error w' => cases hmem
  | ok w' =>
      obtain ⟨more, hadded, hmade⟩ := h.added
      replace hmem : (inode, node) ∈ w'.added.drop w.added.length := hmem
      rw [hadded, List.drop_left] at hmem
      exact hmade _ hmem

/-- Without a disk, the scan of the superblock leaves the page count at zero. -/
theorem agrees_iff {sb : SuperBlock} {inode : Inode} {tsk : Process} {f : File} {a b : Node}
    (hsb : inode.iSb = some sb) (ha : MadeFromSb sb inode a) (hb : MadeFromFile tsk f inode b) :
    a.Agrees b ↔ sb.HasDisk := by
  obtain ⟨-, rfl⟩ := ha
  obtain ⟨hpages, devname, hdev, rfl⟩ := hb
  have hcount : (fillFromSb sb inode Node.zero).pagecount = 0 →
      ¬ (fillFromSb sb inode Node.zero).Agrees (fillFromFile tsk f inode devname Node.zero) :=
    fun hzero hagree => hpages (hagree.pagecount.symm.trans hzero)
  unfold fileDevname at hdev
  rw [hsb] at hdev
  dsimp only at hdev
  unfold fillFromSb at hcount ⊢
  unfold SuperBlock.HasDisk
  cases hbdev : sb.sBdev with
  | none =>
      rw [hbdev] at hcount
      exact iff_of_false (hcount rfl) (by simp)
  | some bdev =>
      rw [hbdev] at hdev hcount
      obtain ⟨bdPart, bdDisk⟩ := bdev
      cases bdDisk with
      | none =>
          cases bdPart <;> exact iff_of_false (hcount rfl) (by simp)
      | some diskName =>
          cases bdPart with
          | none =>
              -- `bd_part` was dereferenced, so there is no second node
              cases hdev
          | some partno =>
              have hname : partitionName diskName partno = devname := Option.some.inj hdev
              exact iff_of_true ⟨rfl, rfl, rfl, hname⟩ ⟨_, rfl, rfl⟩

/-- **When the two scanners agree.** For an inode of a superblock, a node that the scan of the
superblock adds for it and one that the scan of an open file adds for it agree exactly if the
superblock is on a block device with a disk. -/
theorem scanners_agree_iff {w₁ w₂ : World} {xs₁ xs₂ : List Nat} (h₁ : Lists w₁ xs₁)
    (h₂ : Lists w₂ xs₂) {sb : SuperBlock} {inode : Inode} (hsb : inode.iSb = some sb)
    (sInodes : List Visit) (deletedButUsed : Bool) (tsk : Process) (f : File) {a b : Node}
    (ha : (inode, a) ∈ addedBy w₁ (scanInodesPagecacheOneSb w₁ sb sInodes))
    (hb : (inode, b) ∈ addedBy w₂
      ((scanFileInode deletedButUsed tsk (some f) w₂).map Prod.snd)) :
    a.Agrees b ↔ sb.HasDisk := by
  obtain ⟨o, ho, hscan⟩ := @scanned_scanFileInode [] _ _ deletedButUsed tsk f h₂
  have hmap : (scanFileInode deletedButUsed tsk (some f) w₂).map Prod.snd = o := by
    rw [ho]
    cases o <;> rfl
  rw [hmap] at hb
  exact agrees_iff hsb ((scanned_oneSb sb sInodes h₁).made ha) (hscan.made hb)

/-- A file of five pages, and a process that has it open. -/
def cachedInode (sb : SuperBlock) : Inode :=
  { addr := 0, iIno := 12, iNlink := 1, iCount := 1, freeing := false, willFree := false,
    new := false, nrpages := 5, iSize := 20000, iSb := some sb }

def cachedFile (sb : SuperBlock) : File := ⟨some (cachedInode sb), "/var/log/messages", true⟩

def reader : Process := ⟨100, Comm.empty, false, false, none⟩

/-- A file system on `/dev/sda1`. -/
def sda1 : SuperBlock := ⟨some ⟨some 1, some "sda"⟩⟩

/-- A file system without a block device, such as `tmpfs`. -/
def tmpfs : SuperBlock := ⟨none⟩

theorem mem_addedBy_oneSb (sb : SuperBlock) :
    (cachedInode sb, fillFromSb sb (cachedInode sb) Node.zero) ∈
      addedBy World.init (scanInodesPagecacheOneSb World.init sb [⟨cachedInode sb, true⟩]) :=
  List.mem_singleton_self _

theorem scanners_agree_sda1 :
    (fillFromSb sda1 (cachedInode sda1) Node.zero).Agrees
      (fillFromFile reader (cachedFile sda1) (cachedInode sda1) (partitionName "sda" 1)
        Node.zero) := by
  have hdisk : sda1.HasDisk := ⟨_, rfl, rfl⟩
  have hsb : (cachedInode sda1).iSb = some sda1 := rfl
  exact (scanners_agree_iff lists_init lists_init hsb [⟨cachedInode sda1, true⟩] false reader
    (cachedFile sda1) (mem_addedBy_oneSb sda1) (List.mem_singleton_self _)).mpr hdisk

/-- A file of a `tmpfs` has five pages in the node of one scan and none in that of the other. -/
theorem scanners_disagree_tmpfs :
    ∃ a b, (cachedInode tmpfs, a) ∈ addedBy World.init
          (scanInodesPagecacheOneSb World.init tmpfs [⟨cachedInode tmpfs, true⟩])
      ∧ (cachedInode tmpfs, b) ∈ addedBy World.init
          ((scanFileInode false reader (some (cachedFile tmpfs)) World.init).map Prod.snd)
      ∧ a.pagecount = 0 ∧ b.pagecount = 5 ∧ ¬ a.Agrees b := by
  refine ⟨fillFromSb tmpfs (cachedInode tmpfs) Node.zero,
    fillFromFile reader (cachedFile tmpfs) (cachedInode tmpfs) noDevice Node.zero,
    mem_addedBy_oneSb tmpfs, List.mem_singleton_self _, rfl, rfl, fun hagree => ?_⟩
  have hpages : (0 : UInt64) = 5 := hagree.pagecount
  exact absurd hpages (by decide)

end UioLinuxSample.PgcacheScan
