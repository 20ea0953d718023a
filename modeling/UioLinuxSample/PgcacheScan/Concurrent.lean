import UioLinuxSample.Lib.CriticalSection
import UioLinuxSample.PgcacheScan.Locks

set_option autoImplicit false

/-! # Several writers of the sysctl

Nothing keeps two processes from writing to the sysctl at the same time, so several handlers may run on
one `ordered_list`. A handler is a sequence of sections under `ordered_list_lock`: the clearing, the scan
of each superblock and of each descriptor table, and the printing. Before the last one `print_top_num`
looks at the list without the lock.

This file models the handlers turn by turn of the loops in these sections. `concurrent_scans` says that
the lock does its work as long as no `print_top_num` takes the jump to its `spin_unlock`, and
`two_writers_inside` that two writers are enough to get there, whatever they find: with the next write
both are in a section.

The other locks are taken around the sections or inside them, in one order; here they only appear in
the trace of the operations.
-/

namespace UioLinuxSample.PgcacheScan

open CircularList CriticalSection LockTrace Loop

/-! ## The sections -/

inductive Section where
  | clear
  | oneSb (sb : SuperBlock) (sInodes : List Visit)
  | files (deletedButUsed : Bool) (p : Process) (fds : List (Option File))
  | print (num : Int)

/-- `print_top_num` after its test. -/
def printLocked (num : Int) (w : World) : Except World World :=
  let w := (w.spinLock .orderedListLock).printk (.text "\n")
  match forEachNode Prod.fst (printTopNumBody num) (w, 0) with
  | .ok (.yield s) | .ok (.done s) => .ok ((s.1.printk (.text "\n")).spinUnlock .orderedListLock)
  | .error w => .error w

/-- A section as a whole. -/
def Section.run : Section → World → Except World World
  | .clear, w => orderListClear w
  | .oneSb sb sInodes, w => scanInodesPagecacheOneSb w sb sInodes
  | .files deletedButUsed p fds, w => do
      let w ← iterateFd deletedButUsed p (fds.drop 1)
        ((w.spinLock (.taskLock p.pid)).spinLock .orderedListLock)
      return (w.spinUnlock .orderedListLock).spinUnlock (.taskLock p.pid)
  | .print num, w => printLocked num w

def sbSections (supers : List (SuperBlock × List Visit)) : List Section :=
  supers.map fun s => .oneSb s.1 s.2

def fileSections (deletedButUsed : Bool) (processes : List Process) : List Section :=
  processes.filterMap fun p =>
    if p.isInit || p.isCurrent then none else p.files.map (.files deletedButUsed p)

/-- The sections of the scan. -/
def Request.scanSections (r : Request) : List Section :=
  if r.mode = 0 then fileSections r.deletedButUsed r.processes
  else if r.mode = 1 then sbSections r.supers
  else sbSections r.supers ++ fileSections r.deletedButUsed r.processes

instance (r : Request) : Decidable r.Scans :=
  decidable_of_iff (r.ret = 0 ∧ r.write = true ∧ (r.mode = 0 ∨ r.mode = 1 ∨ r.mode = 2))
    ⟨fun h => ⟨h.1, h.2.1, h.2.2⟩, fun h => ⟨h.1, h.2, h.3⟩⟩

/-- The sections of a call of the handler. -/
def Request.sections (r : Request) : List Section :=
  if r.Scans then .clear :: r.scanSections ++ [.print r.topN] else []

/-- Some sections one after the other. -/
def runAll (secs : List Section) (w : World) : Except World World := secs.foldlM (fun w s => s.run w) w

theorem runAll_cons (sec : Section) (secs : List Section) (w : World) :
    runAll (sec :: secs) w = sec.run w >>= runAll secs := List.foldlM_cons

theorem runAll_append (secs secs' : List Section) (w : World) :
    runAll (secs ++ secs') w = runAll secs w >>= runAll secs' := List.foldlM_append

theorem runAll_sbSections (supers : List (SuperBlock × List Visit)) (w : World) :
    runAll (sbSections supers) w = iterateSupers supers w := by
  induction supers generalizing w with
  | nil => rfl
  | cons s supers ih =>
      rw [sbSections, List.map_cons, runAll_cons, iterateSupers]
      exact bind_congr fun w => ih w

/-- A process without a descriptor table leaves nothing but its lock in the trace. -/
theorem runAll_fileSections (deletedButUsed : Bool) (ps : List Process)
    (hfiles : ∀ p ∈ ps, p.files.isSome = true) (w : World) :
    runAll (fileSections deletedButUsed ps) w = scanProcessInodesPagecache deletedButUsed ps w := by
  induction ps generalizing w with
  | nil => rfl
  | cons p ps ih =>
      obtain ⟨hp, hps⟩ := List.forall_mem_cons.mp hfiles
      obtain ⟨fds, hfds⟩ := Option.isSome_iff_exists.mp hp
      unfold scanProcessInodesPagecache
      cases hskip : p.isInit || p.isCurrent with
      | true =>
          have hsame : fileSections deletedButUsed (p :: ps) = fileSections deletedButUsed ps := by
            rw [fileSections, List.filterMap_cons_none (by rw [if_pos hskip])]
            rfl
          rw [hsame, if_pos rfl, ih hps]
      | false =>
          have hcons : fileSections deletedButUsed (p :: ps)
              = .files deletedButUsed p fds :: fileSections deletedButUsed ps := by
            have hnot : ¬ (p.isInit || p.isCurrent) = true := by simp [hskip]
            rw [fileSections, List.filterMap_cons_some (by rw [if_neg hnot, hfds]; rfl)]
            rfl
          rw [hcons, runAll_cons, if_neg Bool.false_ne_true, hfds]
          simp only [Section.run, bind_assoc]
          exact bind_congr fun w => ih hps _

/-- **A call of the handler is its sections**, but for the test of `print_top_num`. -/
theorem report_eq_runAll (r : Request) (hfiles : ∀ p ∈ r.processes, p.files.isSome = true)
    (w : World) :
    r.report w = runAll (.clear :: r.scanSections) w >>= fun w => printTopNum w r.topN := by
  have hscan : ∀ w, r.scan w = runAll r.scanSections w := by
    intro w
    unfold Request.scan Request.scanSections
    split
    · rw [runAll_fileSections _ _ hfiles]
    · split
      · rw [runAll_sbSections]
      · rw [runAll_append, runAll_sbSections]
        exact bind_congr fun w => (runAll_fileSections _ _ hfiles w).symm
  rw [runAll_cons, bind_assoc]
  exact bind_congr fun w => by rw [hscan]

theorem printTopNum_eq (w : World) (num : Int) :
    printTopNum w num =
      if listEmpty w.links .orderedList then
        .ok ((w.printk (.text "ordered_list is empty !\n")).spinUnlock .orderedListLock)
      else printLocked num w := rfl

/-! ## The sections, turn by turn -/

/-- How far a section has come. -/
inductive Control where
  | start (sec : Section)
  | clearing (node : Ptr)
  | scanning (sb : SuperBlock) (left : List Visit) (pgc : Option Nat)
  | iterating (deletedButUsed : Bool) (p : Process) (left : List (Option File))
  | printing (num : Int) (node : Ptr) (count : Int)

/-- One turn of `list_for_each_entry_safe`, for the loop that goes on as `again`. -/
def nodeTurn {σ : Type} (world : σ → World) (body : Ptr → σ → Except World (ForInStep σ))
    (again : Ptr → σ → Control × World) (leave : σ → World) (node : Ptr) (s : σ) :
    Turn (Control × World) World :=
  if node = .orderedList then .done (leave s)
  else
    match body node s with
    | .ok (.yield s') => .next (again ((world s).links.next node) s')
    | .ok (.done s') => .done (leave s')
    | .error _ => .blocked

def leaveList (w : World) : World := w.spinUnlock .orderedListLock

def leavePrint (s : World × Int) : World := leaveList (s.1.printk (.text "\n"))

def leaveSb (w : World) : World := leaveList (w.spinUnlock .inodeSbListLock)

def leaveFiles (p : Process) (w : World) : World := (leaveList w).spinUnlock (.taskLock p.pid)

/-- The first node, read under the lock. -/
def firstNode (w : World) : Ptr := w.links.next .orderedList

/-- `.blocked` is a turn that does not come back. -/
def sectionTurn : Control × World → Turn (Control × World) World
  | (.start .clear, w) =>
      let w := w.spinLock .orderedListLock
      .next (.clearing (firstNode w), w)
  | (.clearing node, w) =>
      nodeTurn id orderListClearBody (fun node w => (.clearing node, w)) leaveList node w
  | (.start (.oneSb sb sInodes), w) =>
      .next (.scanning sb sInodes none, (w.spinLock .orderedListLock).spinLock .inodeSbListLock)
  | (.scanning _ [] _, w) => .done (leaveSb w)
  | (.scanning sb (v :: left) pgc, w) =>
      match takeNode pgc v w with
      | none => .done (leaveSb (w.printk (.text "kmalloc failed, nomem")))
      | some (n, w) =>
          match scanInode sb v.inode n w with
          | .ok (w, pgc) => .next (.scanning sb left pgc, w)
          | .error _ => .blocked
  | (.start (.files deletedButUsed p fds), w) =>
      .next (.iterating deletedButUsed p (fds.drop 1),
        (w.spinLock (.taskLock p.pid)).spinLock .orderedListLock)
  | (.iterating _ p [], w) => .done (leaveFiles p w)
  | (.iterating deletedButUsed p (none :: left), w) => .next (.iterating deletedButUsed p left, w)
  | (.iterating deletedButUsed p (some f :: left), w) =>
      match scanFileInode deletedButUsed p (some f) w with
      | .ok (res, w) =>
          if res ≠ 0 then .done (leaveFiles p w) else .next (.iterating deletedButUsed p left, w)
      | .error _ => .blocked
  | (.start (.print num), w) =>
      let w := (w.spinLock .orderedListLock).printk (.text "\n")
      .next (.printing num (firstNode w) 0, w)
  | (.printing num node count, w) =>
      nodeTurn Prod.fst (printTopNumBody num) (fun node s => (.printing num node s.2, s.1)) leavePrint
        node (w, count)

/-- A loop over the list that ends, turn by turn. -/
theorem returns_nodes {σ : Type} {world : σ → World}
    {body : Ptr → σ → Except World (ForInStep σ)} (again : Ptr → σ → Control × World)
    (leave : σ → World)
    (hturn : ∀ node s, sectionTurn (again node s) = nodeTurn world body again leave node s)
    {n : Nat} {node : Ptr} {s : σ} {o : ForInStep σ} {r : World}
    (h : forEachSafe (fun s => (world s).links) world .orderedList body n node s = .ok o) :
    Returns sectionTurn (again node s) r ↔ r = leave o.value := by
  induction n generalizing node s with
  | zero => cases h
  | succ n ih =>
      unfold forEachSafe at h
      have hstep := hturn node s
      unfold nodeTurn at hstep
      split at h
      · next hnode =>
          cases h
          rw [if_pos hnode] at hstep
          exact returns_done hstep
      · next hnode =>
          rw [if_neg hnode] at hstep
          cases hbody : body node s with
          | error w =>
              rw [hbody] at h
              cases h
          | ok o' =>
              rw [hbody] at h hstep
              cases o' with
              | done t =>
                  cases h
                  exact returns_done hstep
              | yield t =>
                  rw [returns_next hstep]
                  exact ih h

theorem returns_of_turn {c c' : Control × World} (r : World) (h : sectionTurn c = .next c') :
    Returns sectionTurn c r ↔ Returns sectionTurn c' r := returns_next h

theorem not_returns_of_blocked {c : Control × World} {r : World} (h : sectionTurn c = .blocked) :
    ¬ Returns sectionTurn c r :=
  not_returns (P := fun s => s = c) rfl fun _ hs => .inl (hs ▸ h)

theorem returns_scanning (sb : SuperBlock) (left : List Visit) (pgc : Option Nat) (w r : World) :
    Returns sectionTurn (.scanning sb left pgc, w) r
      ↔ (scanInodes sb left w pgc >>= fun w => .ok (leaveSb w)) = .ok r := by
  induction left generalizing pgc w with
  | nil =>
      rw [returns_done (show sectionTurn (.scanning sb [] pgc, w) = _ from rfl), eq_comm]
      exact Except.ok.injEq _ _ ▸ Iff.rfl
  | cons v left ih =>
      cases htake : takeNode pgc v w with
      | none =>
          have hturn : sectionTurn (.scanning sb (v :: left) pgc, w)
              = .done (leaveSb (w.printk (.text "kmalloc failed, nomem"))) := by
            simp only [sectionTurn, htake]
          rw [returns_done hturn, scanInodes, htake, eq_comm]
          exact Except.ok.injEq _ _ ▸ Iff.rfl
      | some taken =>
          obtain ⟨n, w₁⟩ := taken
          cases hscan : scanInode sb v.inode n w₁ with
          | error w₂ =>
              have hturn : sectionTurn (.scanning sb (v :: left) pgc, w) = .blocked := by
                simp only [sectionTurn, htake, hscan]
              refine iff_of_false (not_returns_of_blocked hturn) ?_
              rw [scanInodes, htake]
              dsimp only
              rw [hscan]
              intro hok
              cases hok
          | ok next =>
              have hturn : sectionTurn (.scanning sb (v :: left) pgc, w)
                  = .next (.scanning sb left next.2, next.1) := by
                simp only [sectionTurn, htake, hscan]
              rw [returns_next hturn, ih, scanInodes, htake]
              dsimp only
              rw [hscan]
              rfl

theorem returns_iterating (deletedButUsed : Bool) (p : Process) (left : List (Option File))
    (w r : World) :
    Returns sectionTurn (.iterating deletedButUsed p left, w) r
      ↔ (iterateFd deletedButUsed p left w >>= fun w => .ok (leaveFiles p w)) = .ok r := by
  induction left generalizing w with
  | nil =>
      rw [returns_done (show sectionTurn (.iterating deletedButUsed p [], w) = _ from rfl), eq_comm]
      exact Except.ok.injEq _ _ ▸ Iff.rfl
  | cons fd left ih =>
      cases fd with
      | none =>
          rw [returns_next (show sectionTurn (.iterating deletedButUsed p (none :: left), w) = _
            from rfl), ih, iterateFd]
      | some f =>
          rw [iterateFd]
          cases hscan : scanFileInode deletedButUsed p (some f) w with
          | error w₁ =>
              have hturn : sectionTurn (.iterating deletedButUsed p (some f :: left), w)
                  = .blocked := by
                simp only [sectionTurn, hscan]
              refine iff_of_false (not_returns_of_blocked hturn) fun hok => ?_
              cases hok
          | ok out =>
              obtain ⟨res, w₁⟩ := out
              by_cases hres : res = 0
              · have hturn : sectionTurn (.iterating deletedButUsed p (some f :: left), w)
                    = .next (.iterating deletedButUsed p left, w₁) := by
                  simp only [sectionTurn, hscan, hres, ne_eq, not_true_eq_false, if_false]
                rw [returns_next hturn, ih, hres]
                rfl
              · have hturn : sectionTurn (.iterating deletedButUsed p (some f :: left), w)
                    = .done (leaveFiles p w₁) := by
                  simp only [sectionTurn, hscan, ne_eq, hres, not_false_eq_true, if_true]
                have hres' : res ≠ 0 := hres
                rw [returns_done hturn, eq_comm]
                show _ ↔ ((if res ≠ 0 then Except.ok w₁ else iterateFd deletedButUsed p left w₁) >>=
                  fun w => .ok (leaveFiles p w)) = .ok r
                rw [if_pos hres']
                exact Except.ok.injEq _ _ ▸ Iff.rfl

theorem printLocked_spec {w : World} {xs : List Nat} (h : Lists w xs) (num : Int) :
    printLocked num w = .ok
      { w with
        ops := w.ops ++ [.acquire .orderedListLock] ++ [.release .orderedListLock]
        log := w.log ++ [.text "\n"]
          ++ ((xs.take num.toNat).filterMap w.lineAt).map .line ++ [.text "\n"] } := by
  by_cases hne : xs = []
  · -- the list was emptied after the test
    subst hne
    have hfirst : w.links.next .orderedList = .orderedList := h.rep.seg.next_eq
    have hloop : forEachNode Prod.fst (printTopNumBody num)
        ((w.spinLock .orderedListLock).printk (.text "\n"), 0)
          = .ok (.yield ((w.spinLock .orderedListLock).printk (.text "\n"), 0)) :=
      if_pos hfirst
    unfold printLocked
    dsimp only
    rw [hloop]
    simp [World.printk, World.spinLock, World.spinUnlock]
  · have hprint := printTopNum_spec h hne num
    rwa [printTopNum_eq, if_neg (fun he => hne (h.empty_iff.mp he))] at hprint

/-- The loops of these two end on an intact list. -/
theorem clear_loop {w : World} {xs : List Nat} (h : Lists w xs) :
    ∃ o, forEachNode id orderListClearBody (w.spinLock .orderedListLock) = .ok o
      ∧ orderListClear w = .ok (leaveList o.value) := by
  obtain ⟨links, heap, hclear, -⟩ := orderListClear_spec h
  unfold orderListClear at hclear ⊢
  dsimp only at hclear ⊢
  cases hloop : forEachNode id orderListClearBody (w.spinLock .orderedListLock) with
  | error w' =>
      rw [hloop] at hclear
      cases hclear
  | ok o => cases o <;> exact ⟨_, rfl, rfl⟩

theorem print_loop {w : World} {xs : List Nat} (h : Lists w xs) (num : Int) :
    ∃ o, forEachNode Prod.fst (printTopNumBody num)
        ((w.spinLock .orderedListLock).printk (.text "\n"), 0) = .ok o
      ∧ printLocked num w = .ok (leavePrint o.value) := by
  have hprint := printLocked_spec h num
  unfold printLocked at hprint ⊢
  dsimp only at hprint ⊢
  cases hloop : forEachNode Prod.fst (printTopNumBody num)
      ((w.spinLock .orderedListLock).printk (.text "\n"), 0) with
  | error w' =>
      rw [hloop] at hprint
      cases hprint
  | ok o => cases o <;> exact ⟨_, rfl, rfl⟩

/-- **Turn by turn or as a whole**, a section does the same. -/
theorem returns_start_iff {w : World} {xs : List Nat} (h : Lists w xs) (sec : Section) (r : World) :
    Returns sectionTurn (.start sec, w) r ↔ sec.run w = .ok r := by
  cases sec with
  | clear =>
      obtain ⟨o, hloop, hclear⟩ := clear_loop h
      have hends : Returns sectionTurn (.start .clear, w) r ↔ r = leaveList o.value :=
        (returns_of_turn r rfl).trans
          (returns_nodes (fun node w => (.clearing node, w)) leaveList (fun _ _ => rfl) hloop)
      rw [hends, Section.run, hclear, Except.ok.injEq, eq_comm]
  | oneSb sb sInodes => exact (returns_of_turn r rfl).trans (returns_scanning sb sInodes none _ r)
  | files deletedButUsed p fds =>
      exact (returns_of_turn r rfl).trans (returns_iterating deletedButUsed p (fds.drop 1) _ r)
  | print num =>
      obtain ⟨o, hloop, hprint⟩ := print_loop h num
      have hends : Returns sectionTurn (.start (.print num), w) r ↔ r = leavePrint o.value :=
        (returns_of_turn r rfl).trans (returns_nodes (fun node (s : World × Int) =>
          (.printing num node s.2, s.1)) leavePrint (fun _ _ => rfl) hloop)
      rw [hends, Section.run, hprint, Except.ok.injEq, eq_comm]

/-- A section leaves the list intact, and the locks as they were. -/
theorem lists_run {w w' : World} {xs : List Nat} (h : Lists w xs) (sec : Section)
    (hrun : sec.run w = .ok w') : (∃ ys, Lists w' ys) ∧ (Holds w.ops [] → Holds w'.ops []) := by
  cases sec with
  | clear =>
      obtain ⟨links, heap, hclear, hlists, -⟩ := orderListClear_spec h
      cases hclear.symm.trans hrun
      exact ⟨⟨[], hlists.congr rfl rfl⟩, fun hfree => (hfree.acquire (by simp)).release⟩
  | oneSb sb sInodes =>
      have hscan : Scanned [] w xs _ _ ((Section.oneSb sb sInodes).run w) := scanned_oneSb sb sInodes h
      rw [hrun] at hscan
      obtain ⟨hlocks, ⟨ys, hys, -⟩, -⟩ := hscan
      exact ⟨⟨ys, hys⟩, hlocks⟩
  | files deletedButUsed p fds =>
      have hscan : Scanned [] w xs _ _ ((Section.files deletedButUsed p fds).run w) :=
        scanned_oneProcess deletedButUsed p fds h
      rw [hrun] at hscan
      obtain ⟨hlocks, ⟨ys, hys, -⟩, -⟩ := hscan
      exact ⟨⟨ys, hys⟩, hlocks⟩
  | print num =>
      cases (printLocked_spec h num).symm.trans hrun
      exact ⟨⟨xs, h.congr rfl rfl⟩, fun hfree => (hfree.acquire (by simp)).release⟩

theorem serial_runAll {ι : Type} {es : List (ι × Section)} {w w' : World} {xs : List Nat}
    (h : Serial Control.start sectionTurn es w w') (hlists : Lists w xs) (hfree : Holds w.ops []) :
    runAll (es.map Prod.snd) w = .ok w' ∧ (∃ ys, Lists w' ys) ∧ Holds w'.ops [] := by
  induction es generalizing w xs with
  | nil =>
      obtain rfl : w' = w := h
      exact ⟨rfl, ⟨xs, hlists⟩, hfree⟩
  | cons e es ih =>
      obtain ⟨m, hm, hrest⟩ := h
      have hrun := (returns_start_iff hlists e.2 m).mp hm
      obtain ⟨⟨ys, hys⟩, hlocks⟩ := lists_run hlists e.2 hrun
      rw [List.map_cons, runAll_cons, hrun]
      exact ih hrest hys (hlocks hfree)

/-! ## The writers -/

/-- `todo` is what a writer has still to do, and `test` what its `print_top_num` has read. `issued` is
the history of the calls. -/
structure System (ι : Type) where
  cs : CriticalSection.State ι Section Control World
  todo : ι → List Section
  test : ι → Option Bool
  issued : ι → List Section

inductive Event (ι : Type) where
  | call (t : ι) (r : Request)
  | go (t : ι)

def System.init {ι : Type} : System ι := ⟨.init World.init, fun _ => [], fun _ => none, fun _ => []⟩

section Writers

variable {ι : Type} [DecidableEq ι]

/-- A write to the sysctl, by a process that has returned from the last one. -/
def System.call (s : System ι) (t : ι) (r : Request) : System ι :=
  if s.todo t = [] ∧ s.cs.inside t = none then
    { s with
      todo := Function.update s.todo t r.sections
      issued := Function.update s.issued t (s.issued t ++ r.sections) }
  else s

/-- `spin_lock(&ordered_list_lock)` at the start of `sec`. -/
def System.lock (s : System ι) (t : ι) (sec : Section) (rest : List Section) : System ι :=
  if s.cs.owner = none then
    { s with
      cs := s.cs.enter .start t sec
      todo := Function.update s.todo t rest
      test := Function.update s.test t none }
  else s

/-- `print_top_num` from its `goto out` on. -/
def System.jump (s : System ι) (t : ι) (rest : List Section) : System ι :=
  let w := s.cs.shared.printk (.text "ordered_list is empty !\n")
  { s with
    cs := CriticalSection.State.step .start sectionTurn
      { s.cs with shared := w.spinUnlock .orderedListLock } .release
    todo := Function.update s.todo t rest
    test := Function.update s.test t none }

/-- The next step of a writer. -/
def System.go (s : System ι) (t : ι) : System ι :=
  match s.cs.inside t with
  | some _ => { s with cs := s.cs.advance sectionTurn t }
  | none =>
      match s.todo t with
      | [] => s
      | .print num :: rest =>
          match s.test t with
          | none =>
              let empty := listEmpty s.cs.shared.links .orderedList
              { s with test := Function.update s.test t (some empty) }
          | some true => s.jump t rest
          | some false => s.lock t (.print num) rest
      | sec :: rest => s.lock t sec rest

def System.step (s : System ι) : Event ι → System ι
  | .call t r => s.call t r
  | .go t => s.go t

/-- The step is the jump to the `spin_unlock`. -/
def System.Jumps (s : System ι) : Event ι → Prop
  | .call _ _ => False
  | .go t => s.cs.inside t = none ∧ (∃ num rest, s.todo t = .print num :: rest) ∧ s.test t = some true

instance (s : System ι) (e : Event ι) : Decidable (s.Jumps e) :=
  match e with
  | .call _ _ => inferInstanceAs (Decidable False)
  | .go t =>
      have : Decidable (s.cs.inside t = none) := decidable_of_iff _ Option.isNone_iff_eq_none
      have : Decidable (∃ num rest, s.todo t = .print num :: rest) :=
        match s.todo t with
        | .print num :: rest => isTrue ⟨num, rest, rfl⟩
        | [] | .clear :: _ | .oneSb _ _ :: _ | .files _ _ _ :: _ => isFalse nofun
      inferInstanceAs (Decidable (_ ∧ _ ∧ _))

/-! ## While nobody jumps -/

/-- What a step that is no jump can do. -/
theorem go_cases (s : System ι) (t : ι) (h : ¬ s.Jumps (.go t)) :
    s.go t = s ∨ s.go t = { s with cs := s.cs.advance sectionTurn t }
      ∨ (∃ empty, s.go t = { s with test := Function.update s.test t (some empty) })
      ∨ ∃ sec rest, s.cs.inside t = none ∧ s.todo t = sec :: rest ∧ s.go t = s.lock t sec rest := by
  unfold System.go
  cases hinside : s.cs.inside t with
  | some k => exact .inr (.inl rfl)
  | none =>
      dsimp only
      split
      · exact .inl rfl
      · next num rest htodo =>
          split
          · exact .inr (.inr (.inl ⟨_, rfl⟩))
          · next htest => exact absurd ⟨hinside, ⟨num, rest, htodo⟩, htest⟩ h
          · exact .inr (.inr (.inr ⟨_, rest, rfl, htodo, rfl⟩))
      · next sec rest _ htodo => exact .inr (.inr (.inr ⟨sec, rest, rfl, htodo, rfl⟩))

/-- The sections of `t` that were entered, in order. -/
def System.enteredBy (s : System ι) (t : ι) : List Section :=
  (s.cs.entered.filter fun e => e.1 = t).map Prod.snd

structure Inv (s : System ι) : Prop where
  cs : CriticalSection.Inv Control.start sectionTurn World.init s.cs
  order : ∀ t, s.enteredBy t ++ s.todo t = s.issued t

theorem entered_advance (s : CriticalSection.State ι Section Control World) (t : ι) :
    (s.advance sectionTurn t).entered = s.entered := by
  unfold CriticalSection.State.advance
  split
  · rfl
  · split <;> rfl

theorem Inv.lock {s : System ι} (h : Inv s) {t : ι} {sec : Section} {rest : List Section}
    (hinside : s.cs.inside t = none) (htodo : s.todo t = sec :: rest) : Inv (s.lock t sec rest) := by
  unfold System.lock
  split
  · next howner =>
      refine ⟨h.cs.step (e := .enter t sec) (by simp), fun u => ?_⟩
      have hentered : (s.cs.enter Control.start t sec).entered = s.cs.entered ++ [(t, sec)] := by
        rw [CriticalSection.State.enter, if_pos ⟨howner, hinside⟩]
      have horder := h.order u
      simp only [System.enteredBy, hentered]
      by_cases hu : u = t
      · subst hu
        rw [htodo] at horder
        simpa [System.enteredBy] using horder
      · rw [Function.update_of_ne hu]
        simpa [System.enteredBy, Ne.symm hu] using horder
  · exact h

theorem Inv.step (s : System ι) (e : Event ι) (h : Inv s) (he : ¬ s.Jumps e) : Inv (s.step e) := by
  cases e with
  | call t r =>
      show Inv (s.call t r)
      unfold System.call
      split
      · next hidle =>
          refine ⟨h.cs, fun u => ?_⟩
          have horder := h.order u
          by_cases hu : u = t
          · subst hu
            rw [hidle.1, List.append_nil] at horder
            simp only [Function.update_self, ← horder]
            rfl
          · simp only [Function.update_of_ne hu]
            exact horder
      · exact h
  | go t =>
      show Inv (s.go t)
      rcases go_cases s t he with heq | heq | ⟨empty, heq⟩ | ⟨sec, rest, hinside, htodo, heq⟩ <;> rw [heq]
      · exact h
      · refine ⟨h.cs.step (e := .advance t) (by simp), fun u => ?_⟩
        simp only [System.enteredBy, entered_advance]
        exact h.order u
      · exact ⟨h.cs, h.order⟩
      · exact h.lock hinside htodo

/-- **The writers take turns.** Let any number of processes write to the sysctl, again and again, and
let no `print_top_num` jump to its `spin_unlock`. Then one of them is in a section at a time; when the
lock is free, the list is intact, and everything is as if the sections had been run as a whole, in the
order in which they were entered; and this is for each writer the order of its calls. -/
theorem concurrent_scans (es : List (Event ι))
    (h : Run.Steps System.step (fun s e => ¬ s.Jumps e) System.init es) :
    let s := Run.run System.step System.init es
    (∀ t u, s.cs.inside t ≠ none → s.cs.inside u ≠ none → t = u)
      ∧ (s.cs.owner = none →
        runAll (s.cs.entered.map Prod.snd) World.init = .ok s.cs.shared
          ∧ (∃ xs, Lists s.cs.shared xs) ∧ Holds s.cs.shared.ops [])
      ∧ ∀ t, s.enteredBy t ++ s.todo t = s.issued t := by
  intro s
  have hinv : Inv s := Run.inv_run Inv.step ⟨inv_init, fun _ => rfl⟩ h
  refine ⟨fun t u => hinv.cs.mutex, fun hfree => ?_, hinv.order⟩
  exact serial_runAll (hinv.cs.serial hfree) lists_init rfl

/-! ## When one jumps -/

section Jump

variable {s : System ι} {t u : ι} {sec : Section} {rest : List Section} {w : World} {xs : List Nat}

theorem go_lock (hinside : s.cs.inside t = none) (htodo : s.todo t = sec :: rest)
    (hsec : ∀ num, sec ≠ .print num) : s.go t = s.lock t sec rest := by
  unfold System.go
  rw [hinside]
  dsimp only
  split
  · next hnil => cases hnil.symm.trans htodo
  · next num _ hprint =>
      cases hprint.symm.trans htodo
      exact absurd rfl (hsec num)
  · next hcons =>
      cases hcons.symm.trans htodo
      rfl

theorem lock_of_free (hfree : s.cs.owner = none) (hinside : s.cs.inside t = none) :
    s.lock t sec rest =
      { s with
        cs := { s.cs with
          owner := some t
          inside := Function.update s.cs.inside t (some (.start sec))
          entered := s.cs.entered ++ [(t, sec)] }
        todo := Function.update s.todo t rest
        test := Function.update s.test t none } := by
  rw [System.lock, if_pos hfree, CriticalSection.State.enter, if_pos ⟨hfree, hinside⟩]

/-- The writer alone, for `n` steps. -/
def goes {ι : Type} (t : ι) (n : ℕ) : List (Event ι) := List.replicate n (.go t)

theorem run_goes_succ (s : System ι) (t : ι) (n : ℕ) :
    Run.run System.step s (goes t (n + 1)) = Run.run System.step (s.go t) (goes t n) := rfl

theorem run_goes_add (s : System ι) (t : ι) (m n : ℕ) :
    Run.run System.step s (goes t (m + n))
      = Run.run System.step (Run.run System.step s (goes t m)) (goes t n) := by
  rw [← Run.run_append, goes, goes, goes, List.replicate_append_replicate]

/-- A writer finishes its section undisturbed. -/
theorem exists_finish {k : Control} {r : World} (hinside : s.cs.inside t = some k)
    (h : Returns sectionTurn (k, s.cs.shared) r) :
    ∃ n, Run.run System.step s (goes t n) =
      { s with cs := { s.cs with
        shared := r, owner := none, inside := Function.update s.cs.inside t none } } := by
  obtain ⟨fuel, hfuel⟩ := h
  induction fuel generalizing s k with
  | zero => cases hfuel
  | succ fuel ih =>
      have hgo : s.go t = { s with cs := s.cs.advance sectionTurn t } := by
        simp only [System.go, hinside]
      rw [Loop.run] at hfuel
      cases hturn : sectionTurn (k, s.cs.shared) with
      | next c =>
          rw [hturn] at hfuel
          have hnext : s.go t =
              { s with cs := { s.cs with
                shared := c.2, inside := Function.update s.cs.inside t (some c.1) } } := by
            simp only [hgo, CriticalSection.State.advance, hinside, hturn]
          obtain ⟨n, hn⟩ := ih (s := s.go t) (k := c.1) (by rw [hnext]; exact Function.update_self ..)
            (by rw [hnext]; exact hfuel)
          refine ⟨n + 1, (run_goes_succ s t n).trans (hn.trans ?_)⟩
          rw [hnext]
          simp
      | done r' =>
          rw [hturn] at hfuel
          cases hfuel
          refine ⟨1, ?_⟩
          show s.go t = _
          simp only [hgo, CriticalSection.State.advance, hinside, hturn]
      | blocked =>
          rw [hturn] at hfuel
          cases hfuel

/-- The same from before the lock. -/
theorem exists_section (hfree : s.cs.owner = none) (hinside : s.cs.inside t = none)
    (htest : s.test t = none) (htodo : s.todo t = sec :: rest) (hsec : ∀ num, sec ≠ .print num)
    (hlists : Lists s.cs.shared xs) (hrun : sec.run s.cs.shared = .ok w) :
    ∃ n, Run.run System.step s (goes t n) =
      { s with
        cs := { s.cs with shared := w, entered := s.cs.entered ++ [(t, sec)] }
        todo := Function.update s.todo t rest } := by
  have hlock : s.go t = _ := (go_lock hinside htodo hsec).trans (lock_of_free hfree hinside)
  have hret : Returns sectionTurn (.start sec, (s.go t).cs.shared) w := by
    rw [hlock]
    exact (returns_start_iff hlists sec w).mpr hrun
  obtain ⟨n, hn⟩ := exists_finish (s := s.go t) (t := t) (k := .start sec)
    (by rw [hlock]; exact Function.update_self ..) hret
  refine ⟨n + 1, (run_goes_succ s t n).trans (hn.trans ?_)⟩
  rw [hlock]
  have hsame : Function.update s.cs.inside t none = s.cs.inside := by
    rw [← hinside, Function.update_eq_self]
  have htests : Function.update s.test t none = s.test := by
    rw [← htest, Function.update_eq_self]
  simp [hsame, htests, hfree]

/-- Several sections, none of which is the printing. -/
theorem exists_sections {secs : List Section} (hsecs : ∀ sec ∈ secs, ∀ num, sec ≠ .print num)
    (hfree : s.cs.owner = none) (hinside : s.cs.inside t = none) (htest : s.test t = none)
    (htodo : s.todo t = secs ++ rest) (hlists : Lists s.cs.shared xs)
    (hrun : runAll secs s.cs.shared = .ok w) :
    ∃ n entered ys, Run.run System.step s (goes t n) =
        { s with
          cs := { s.cs with shared := w, entered := entered }
          todo := Function.update s.todo t rest }
      ∧ Lists w ys := by
  induction secs generalizing s xs with
  | nil =>
      cases hrun
      refine ⟨0, s.cs.entered, xs, ?_, hlists⟩
      rw [goes, List.replicate_zero, Run.run_nil, ← List.nil_append rest, ← htodo, Function.update_eq_self]
  | cons sec secs ih =>
      obtain ⟨hsec, hsecs⟩ := List.forall_mem_cons.mp hsecs
      rw [runAll_cons] at hrun
      cases hfirst : sec.run s.cs.shared with
      | error w' =>
          rw [hfirst] at hrun
          cases hrun
      | ok w₁ =>
          rw [hfirst] at hrun
          obtain ⟨n, hn⟩ := exists_section hfree hinside htest htodo hsec hlists hfirst
          obtain ⟨⟨ys, hys⟩, -⟩ := lists_run hlists sec hfirst
          obtain ⟨m, entered, zs, hm, hzs⟩ := ih (s := Run.run System.step s (goes t n)) hsecs
            (by rw [hn]; exact hfree) (by rw [hn]; exact hinside) (by rw [hn]; exact htest)
            (by rw [hn]; exact Function.update_self ..) (by rw [hn]; exact hys)
            (by rw [hn]; exact hrun)
          refine ⟨n + m, entered, zs, ?_, hzs⟩
          rw [run_goes_add, hm, hn]
          simp

theorem go_test {num : Int} (hinside : s.cs.inside t = none) (htodo : s.todo t = .print num :: rest)
    (htest : s.test t = none) (hempty : listEmpty s.cs.shared.links .orderedList = true) :
    s.go t = { s with test := Function.update s.test t (some true) } := by
  simp only [System.go, hinside, htodo, htest, hempty]

theorem go_jump {num : Int} (hinside : s.cs.inside t = none) (htodo : s.todo t = .print num :: rest)
    (htest : s.test t = some true) : s.go t = s.jump t rest := by
  simp only [System.go, hinside, htodo, htest]

theorem call_of_returned {r : Request} (htodo : s.todo t = []) (hinside : s.cs.inside t = none) :
    s.call t r =
      { s with
        todo := Function.update s.todo t r.sections
        issued := Function.update s.issued t (s.issued t ++ r.sections) } :=
  if_pos ⟨htodo, hinside⟩

/-- The writer has returned from its last call. -/
structure System.Returned (s : System ι) (t : ι) : Prop where
  inside : s.cs.inside t = none
  todo : s.todo t = []
  test : s.test t = none

/-- Two writers call the handler. -/
theorem call_both (htu : t ≠ u) (ht : s.Returned t) (hu : s.Returned u) (r r' : Request) :
    let s₀ := (s.call t r).call u r'
    s₀.cs = s.cs ∧ s₀.test = s.test ∧ s₀.todo t = r.sections ∧ s₀.todo u = r'.sections := by
  have hcall : s.call t r = _ := call_of_returned ht.todo ht.inside
  have hcall' : (s.call t r).call u r' = _ := call_of_returned (s := s.call t r)
    (by rw [hcall]; exact (Function.update_of_ne htu.symm _ _).trans hu.todo)
    (by rw [hcall]; exact hu.inside)
  intro s₀
  have hs₀ : s₀ = _ := hcall'
  rw [hs₀, hcall]
  exact ⟨rfl, rfl, (Function.update_of_ne htu _ _).trans (Function.update_self ..),
    Function.update_self ..⟩

/-- After the test of one writer, the `spin_lock` of the other one and the jump, the lock is free and the
other one inside. -/
theorem jump_frees (htu : t ≠ u) (hfree : s.cs.owner = none) (ht : s.cs.inside t = none)
    (hu : s.cs.inside u = none) {num : Int} (htodo : s.todo t = [.print num])
    (htest : s.test t = none) (htodo' : s.todo u = sec :: rest) (hsec : ∀ num, sec ≠ .print num)
    (hempty : listEmpty s.cs.shared.links .orderedList = true) :
    let s' := Run.run System.step s [.go t, .go u, .go t]
    s'.cs.owner = none ∧ s'.Returned t ∧ s'.cs.inside u = some (.start sec) := by
  have htested := go_test ht htodo htest hempty
  obtain ⟨s₁, hs₁⟩ : ∃ s₁, s₁ = s.go t := ⟨_, rfl⟩
  rw [htested] at hs₁
  have hlocked : s₁.go u = s₁.lock u sec rest :=
    go_lock (by rw [hs₁]; exact hu) (by rw [hs₁]; exact htodo') hsec
  rw [lock_of_free (by rw [hs₁]; exact hfree) (by rw [hs₁]; exact hu)] at hlocked
  obtain ⟨s₂, hs₂⟩ : ∃ s₂, s₂ = s₁.go u := ⟨_, rfl⟩
  rw [hlocked] at hs₂
  have ht₂ : s₂.cs.inside t = none := by
    rw [hs₂, hs₁]
    exact (Function.update_of_ne htu _ _).trans ht
  have hjumped : s₂.go t = s₂.jump t [] := by
    have htodo₂ : s₂.todo t = [.print num] := by
      rw [hs₂, hs₁]
      exact (Function.update_of_ne htu _ _).trans htodo
    have htest₂ : s₂.test t = some true := by
      rw [hs₂, hs₁]
      exact (Function.update_of_ne htu _ _).trans (Function.update_self ..)
    exact go_jump ht₂ htodo₂ htest₂
  have hrun : Run.run System.step s [.go t, .go u, .go t] = s₂.jump t [] := by
    show ((s.go t).go u).go t = _
    rw [htested, ← hs₁, hlocked, ← hs₂, hjumped]
  rw [hrun]
  refine ⟨rfl, ⟨ht₂, Function.update_self .., Function.update_self ..⟩, ?_⟩
  rw [hs₂]
  exact Function.update_self ..

/-- A writer that finds the lock free enters it, whoever is inside. -/
theorem call_enters (hfree : s.cs.owner = none) (ht : s.Returned t) {r : Request} (hr : r.Scans) :
    let s' := Run.run System.step s [.call t r, .go t]
    s'.cs.inside = Function.update s.cs.inside t (some (.start .clear)) := by
  have hcalled : s.call t r = _ := call_of_returned ht.todo ht.inside
  have hsections : (s.call t r).todo t = .clear :: (r.scanSections ++ [.print r.topN]) := by
    rw [hcalled]
    exact (Function.update_self ..).trans (if_pos hr)
  have hinside : (s.call t r).cs.inside t = none := by
    rw [hcalled]
    exact ht.inside
  have hentered := (go_lock hinside hsections nofun).trans
    (lock_of_free (by rw [hcalled]; exact hfree) hinside)
  intro s'
  have hs' : s' = _ := hentered
  rw [hs', hcalled]

theorem mem_scanSections {r : Request} (h : sec ∈ r.scanSections) (num : Int) : sec ≠ .print num := by
  have hsb : ∀ sec ∈ sbSections r.supers, sec ≠ .print num := by
    intro sec hsec
    obtain ⟨s, -, rfl⟩ := List.mem_map.mp hsec
    exact nofun
  have hfiles : ∀ sec ∈ fileSections r.deletedButUsed r.processes, sec ≠ .print num := by
    intro sec hsec
    obtain ⟨p, -, hp⟩ := List.mem_filterMap.mp hsec
    split at hp
    · cases hp
    · obtain ⟨fds, -, rfl⟩ := Option.map_eq_some_iff.mp hp
      exact nofun
  unfold Request.scanSections at h
  split at h
  · exact hfiles sec h
  · split at h
    · exact hsb sec h
    · exact (List.mem_append.mp h).elim (hsb sec) (hfiles sec)

/-- **Two writers are enough.** Whatever there is to find for `r` and `r'`, the two calls can be interleaved
such that `t` finds the list empty, as `u` has just cleared it, and releases the lock that `u` has taken.
When `t` then writes again, both are in a section. -/
theorem two_writers_inside (htu : t ≠ u) (hfree : s.cs.owner = none)
    (hlists : Lists s.cs.shared xs) (ht : s.Returned t) (hu : s.Returned u) {r r' r'' : Request}
    (hr : r.Scans) (hr' : r'.Scans) (hr'' : r''.Scans) (hscans : r'.scanSections ≠ [])
    (hrun : runAll (.clear :: r.scanSections) s.cs.shared = .ok w) :
    ∃ n m, ∃ sec ∈ r'.scanSections,
      let s' := Run.run System.step s
        ([.call t r, .call u r'] ++ goes t n ++ goes u m ++ [.go t, .go u, .go t, .call t r'', .go t])
      s'.cs.inside t = some (.start .clear) ∧ s'.cs.inside u = some (.start sec) := by
  obtain ⟨hcs, htests, htodo, htodo'⟩ := call_both htu ht hu r r'
  obtain ⟨s₀, hs₀⟩ : ∃ s₀, s₀ = (s.call t r).call u r' := ⟨_, rfl⟩
  rw [← hs₀] at hcs htests htodo htodo'
  rw [Request.sections, if_pos hr] at htodo
  have hsecs : ∀ sec ∈ .clear :: r.scanSections, ∀ num, sec ≠ .print num := by
    intro sec hsec num
    rcases List.mem_cons.mp hsec with rfl | hsec
    · exact nofun
    · exact mem_scanSections hsec num
  -- the first writer up to its printing
  obtain ⟨n, entered, ys, hn, hys⟩ := exists_sections (s := s₀) (t := t) hsecs
    (by rw [hcs]; exact hfree) (by rw [hcs]; exact ht.inside) (by rw [htests]; exact ht.test)
    htodo (by rw [hcs]; exact hlists) (by rw [hcs]; exact hrun)
  obtain ⟨s₁, hs₁⟩ : ∃ s₁, s₁ = Run.run System.step s₀ (goes t n) := ⟨_, rfl⟩
  rw [hn, hcs] at hs₁
  -- the second writer clears the list
  obtain ⟨sec, secs, hsecs'⟩ := List.exists_cons_of_ne_nil hscans
  have htodo₁ : s₁.todo u = .clear :: sec :: (secs ++ [.print r'.topN]) := by
    rw [hs₁]
    refine (Function.update_of_ne htu.symm _ _).trans (htodo'.trans ?_)
    rw [Request.sections, if_pos hr', hsecs']
    rfl
  obtain ⟨links, heap, hclear, hempty, -⟩ := orderListClear_spec hys
  obtain ⟨m, hm⟩ := exists_section (s := s₁) (t := u) (by rw [hs₁]; exact hfree)
    (by rw [hs₁]; exact hu.inside) (by rw [hs₁, htests]; exact hu.test) htodo₁ nofun
    (by rw [hs₁]; exact hys) (by rw [hs₁]; exact hclear)
  obtain ⟨s₂, hs₂⟩ : ∃ s₂, s₂ = Run.run System.step s₁ (goes u m) := ⟨_, rfl⟩
  rw [hm, hs₁] at hs₂
  have htodo₂ : s₂.todo t = [.print r.topN] := by
    rw [hs₂]
    exact (Function.update_of_ne htu _ _).trans (Function.update_self ..)
  have hnext : s₂.todo u = sec :: (secs ++ [.print r'.topN]) := by
    rw [hs₂]
    exact Function.update_self ..
  have hsec : sec ∈ r'.scanSections := by
    rw [hsecs']
    exact List.mem_cons_self
  -- the jump, and the next call
  obtain ⟨hfree₃, ht₃, hu₃⟩ := jump_frees htu (by rw [hs₂]; exact hfree) (by rw [hs₂]; exact ht.inside)
    (by rw [hs₂]; exact hu.inside) htodo₂ (by rw [hs₂, htests]; exact ht.test) hnext
    (mem_scanSections hsec) (by rw [hs₂]; exact hempty.empty_iff.mpr rfl)
  have hinside := call_enters hfree₃ ht₃ hr''
  have hruns : Run.run System.step s ([.call t r, .call u r'] ++ goes t n ++ goes u m) = s₂ := by
    rw [Run.run_append, Run.run_append]
    show Run.run _ (Run.run _ ((s.call t r).call u r') (goes t n)) (goes u m) = _
    rw [← hs₀, hn, hcs, ← hs₁, hm, hs₁, ← hs₂]
  have hlast : ([.go t, .go u, .go t, .call t r'', .go t] : List (Event ι))
      = [.go t, .go u, .go t] ++ [.call t r'', .go t] := rfl
  refine ⟨n, m, sec, hsec, ?_⟩
  rw [Run.run_append, hruns, hlast, Run.run_append]
  dsimp only at hinside ⊢
  rw [hinside]
  exact ⟨Function.update_self .., (Function.update_of_ne htu.symm _ _).trans hu₃⟩

end Jump

end Writers

/-! ## Two writers -/

/-- A write in mode 1, with one file to find. -/
def oneFile : Request :=
  { ret := 0, write := true, topN := 10, mode := 1, deletedButUsed := false,
    supers := [(sda1, [⟨cachedInode sda1, true⟩])], processes := [] }

/-- Two writers whose sections alternate. -/
def alternating : List (Event Bool) :=
  [.call true oneFile, .call false oneFile] ++ goes true 3 ++ goes false 3 ++ goes true 4
    ++ goes false 4 ++ goes true 6 ++ goes false 6

theorem concurrent_scans_alternating :
    let s := Run.run System.step System.init alternating
    s.cs.owner = none ∧ s.cs.entered.map Prod.fst = [true, false, true, false, true, false]
      ∧ runAll (s.cs.entered.map Prod.snd) World.init = .ok s.cs.shared := by
  intro s
  have hfree : s.cs.owner = none := by decide +kernel
  have hentered : s.cs.entered.map Prod.fst = [true, false, true, false, true, false] := by
    decide +kernel
  have hsteps : Run.Steps System.step (fun s e => ¬ s.Jumps e) System.init alternating := by
    decide +kernel
  exact ⟨hfree, hentered, ((concurrent_scans alternating hsteps).2.1 hfree).1⟩

theorem two_writers_inside_oneFile :
    oneFile.found ∧ ∃ n m, ∃ sec ∈ oneFile.scanSections,
      let s := Run.run System.step (System.init : System Bool)
        ([.call true oneFile, .call false oneFile] ++ goes true n ++ goes false m
          ++ [.go true, .go false, .go true, .call true emptyScan, .go true])
      s.cs.inside true = some (.start .clear) ∧ s.cs.inside false = some (.start sec) := by
  have hfound : oneFile.found :=
    ⟨_, List.mem_singleton_self _, ⟨_, List.mem_singleton_self _, rfl⟩, .inr ⟨_, rfl, rfl⟩⟩
  have hscans : oneFile.Scans := by decide
  have hempty : emptyScan.Scans := by decide
  obtain ⟨w, hw⟩ : ∃ w, runAll (.clear :: oneFile.scanSections) World.init = .ok w := ⟨_, rfl⟩
  exact ⟨hfound, two_writers_inside (by decide) rfl lists_init ⟨rfl, rfl, rfl⟩ ⟨rfl, rfl, rfl⟩ hscans
    hscans hempty nofun hw⟩

-- the printing of one writer comes to a node that the other one has freed
example :
    let s := Run.run System.step System.init
      ([.call true oneFile, .call false emptyScan] ++ goes true 3 ++ goes false 4 ++ goes true 7
        ++ goes false 1 ++ [.call false emptyScan] ++ goes false 4)
    ((s.cs.inside true).map fun k => match sectionTurn (k, s.cs.shared) with
      | .blocked => true
      | _ => false) = some true := by
  decide +kernel

end UioLinuxSample.PgcacheScan
