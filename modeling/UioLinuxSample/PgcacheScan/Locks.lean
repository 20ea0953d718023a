import UioLinuxSample.Lib.Run
import UioLinuxSample.PgcacheScan.Scans

set_option autoImplicit false

/-! # The locks of the handler

The scans take and release their locks in pairs on every path, also when memory runs out
(`scanned_scan`). What breaks the discipline is `print_top_num`: for an empty list it jumps over
the `spin_lock` to the `spin_unlock`. So a call keeps the discipline exactly if it does not print,
or if its scan finds something to print (`locks_disciplined_iff`).
-/

namespace UioLinuxSample.PgcacheScan

open LockTrace Run

/-- No lock was acquired while held or released while free, and a call that has returned leaves
all of them free. -/
def Disciplined : Except World World → Prop
  | .ok w => Holds w.ops []
  | .error w => ∃ held, Holds w.ops held

/-- The scan of the selected mode finds something. -/
def Request.found (r : Request) : Prop :=
  if r.mode = 0 then ∃ p ∈ r.processes, p.found r.deletedButUsed
  else if r.mode = 1 then ∃ s ∈ r.supers, FoundFrom none s.2
  else (∃ s ∈ r.supers, FoundFrom none s.2) ∨ ∃ p ∈ r.processes, p.found r.deletedButUsed

/-- The request is a write that starts a scan. -/
structure Request.Scans (r : Request) : Prop where
  ret : r.ret = 0
  write : r.write = true
  mode : r.mode = 0 ∨ r.mode = 1 ∨ r.mode = 2

section Call

variable {w : World} {xs : List Nat} (r : Request)

theorem scanned_scan (h : Lists w xs) :
    Scanned [] w xs r.found (fun _ _ => True) (r.scan w) := by
  unfold Request.scan Request.found
  split
  · exact scanned_processes _ _ h
  · split
    · exact scanned_iterateSupers _ h
    · exact (scanned_iterateSupers _ h).bind fun w ys hys => scanned_processes _ _ hys

theorem printTopNum_empty (h : Lists w []) (num : Int) :
    printTopNum w num
      = .ok ((w.printk (.text "ordered_list is empty !\n")).spinUnlock .orderedListLock) := by
  unfold printTopNum
  rw [if_pos (h.empty_iff.mpr rfl)]

/-- `print_top_num` keeps the list, and keeps the discipline unless the list is empty. -/
theorem printTopNum_locks (h : Lists w xs) (hfree : Holds w.ops []) (num : Int) :
    ∃ w', printTopNum w num = .ok w' ∧ Lists w' xs ∧ (Holds w'.ops [] ↔ xs ≠ []) := by
  by_cases hne : xs = []
  · subst hne
    refine ⟨_, printTopNum_empty h num, h.congr rfl rfl, iff_of_false (fun hholds => ?_) (by simp)⟩
    -- the lock that is released here was never taken
    have hbroken := hfree.release_free (l := Lock.orderedListLock) (by simp)
    exact nomatch hbroken.symm.trans hholds
  · exact ⟨_, printTopNum_spec h hne num, h.congr rfl rfl,
      iff_of_true (hfree.acquire (by simp)).release hne⟩

/-- A scan into an empty list, and its report. -/
theorem scan_print_disciplined_iff (h : Lists w []) (hfree : Holds w.ops []) :
    (Disciplined (r.scan w >>= fun w => printTopNum w r.topN) ↔ r.found)
      ∧ ∀ w', (r.scan w >>= fun w => printTopNum w r.topN) = .ok w' → ∃ ys, Lists w' ys := by
  have hscan := scanned_scan r h
  cases hr : r.scan w with
  | error w₁ =>
      rw [hr] at hscan
      exact ⟨iff_of_true (hscan.1 hfree) hscan.2, fun w' hw' => nomatch hw'⟩
  | ok w₁ =>
      rw [hr] at hscan
      obtain ⟨hlocks, ⟨ys, hys, hempty⟩, -⟩ := hscan
      obtain ⟨w₂, hprint, hlists, hiff⟩ := printTopNum_locks hys (hlocks hfree) r.topN
      show (Disciplined (printTopNum w₁ r.topN) ↔ r.found)
        ∧ ∀ w', printTopNum w₁ r.topN = .ok w' → ∃ ys, Lists w' ys
      rw [hprint]
      constructor
      · show Holds w₂.ops [] ↔ r.found
        rw [hiff, Ne, hempty]
        simp
      · rintro w' ⟨⟩
        exact ⟨ys, hlists⟩

theorem report_disciplined_iff (h : Lists w xs) (hfree : Holds w.ops []) :
    (Disciplined (r.report w) ↔ r.found) ∧ ∀ w', r.report w = .ok w' → ∃ ys, Lists w' ys := by
  obtain ⟨links, heap, hclear, hlists, -⟩ := orderListClear_spec h
  unfold Request.report
  rw [hclear]
  exact scan_print_disciplined_iff r (hlists.congr rfl rfl) (hfree.acquire (by simp)).release

/-- **One call of the handler.** -/
theorem handler_disciplined_iff (h : Lists w xs) (hfree : Holds w.ops []) :
    (Disciplined ((scanCachesSysctlHandler r w).map Prod.snd) ↔ (r.Scans → r.found))
      ∧ ∀ w', (scanCachesSysctlHandler r w).map Prod.snd = .ok w' → ∃ ys, Lists w' ys := by
  by_cases hscans : r.Scans
  · have hreport : (scanCachesSysctlHandler r w).map Prod.snd = r.report w := by
      unfold scanCachesSysctlHandler
      rw [if_neg (not_not_intro hscans.ret), if_pos hscans.write, if_pos hscans.mode]
      cases r.report w <;> rfl
    rw [hreport, imp_iff_right hscans]
    exact report_disciplined_iff r h hfree
  · have hidle : (scanCachesSysctlHandler r w).map Prod.snd = .ok w := by
      unfold scanCachesSysctlHandler
      split
      · rfl
      · split
        · split
          · exact absurd ⟨not_not.mp ‹¬ r.ret ≠ 0›, ‹_›, ‹_›⟩ hscans
          · rfl
        · rfl
    rw [hidle]
    refine ⟨iff_of_true hfree fun hyes => absurd hyes hscans, ?_⟩
    rintro w' ⟨⟩
    exact ⟨xs, h⟩

end Call

/-! ## Sequences of calls -/

/-- The next call, unless one before it has failed. -/
def handle (s : Except World World) (r : Request) : Except World World :=
  s >>= fun w => (scanCachesSysctlHandler r w).map Prod.snd

/-- The call keeps the lock discipline. -/
def LocksKept (s : Except World World) (r : Request) : Prop :=
  ∀ w, s = .ok w → Disciplined ((scanCachesSysctlHandler r w).map Prod.snd)

/-- If the call scans, there is something for it to find. -/
def FindsFile (s : Except World World) (r : Request) : Prop :=
  ∀ w, s = .ok w → r.Scans → r.found

/-- Between calls that have kept the discipline, all locks are free. -/
def Idle (s : Except World World) : Prop :=
  ∀ w, s = .ok w → Holds w.ops [] ∧ ∃ xs, Lists w xs

theorem locksKept_iff_findsFile {s : Except World World} {r : Request} (h : Idle s) :
    LocksKept s r ↔ FindsFile s r := by
  refine forall₂_congr fun w hw => ?_
  obtain ⟨hfree, xs, hlists⟩ := h w hw
  exact (handler_disciplined_iff r hlists hfree).1

theorem idle_handle {s : Except World World} {r : Request} (h : Idle s) (hkept : LocksKept s r) :
    Idle (handle s r) := by
  intro w' hw'
  cases s with
  | error w => cases hw'
  | ok w =>
      obtain ⟨hfree, xs, hlists⟩ := h w rfl
      have hcall : (scanCachesSysctlHandler r w).map Prod.snd = .ok w' := hw'
      have hdisciplined := hkept w rfl
      rw [hcall] at hdisciplined
      exact ⟨hdisciplined, (handler_disciplined_iff r hlists hfree).2 w' hcall⟩

/-- **When the locks are kept.** Over any sequence of accesses to the sysctl, every call keeps
the lock discipline exactly if every scan has something to find. -/
theorem locks_disciplined_iff (rs : List Request) :
    Steps handle LocksKept (.ok World.init) rs ↔ Steps handle FindsFile (.ok World.init) rs := by
  have hinit : Idle (.ok World.init) := by
    rintro w ⟨⟩
    exact ⟨rfl, [], lists_init⟩
  exact Steps.iff_of_kept (fun s r => idle_handle) (fun s r => locksKept_iff_findsFile) hinit

/-- A write in mode 0 when no process has a file with pages open. -/
def emptyScan : Request :=
  { ret := 0, write := true, topN := 10, mode := 0, deletedButUsed := false, supers := [],
    processes := [] }

/-- The lock of the list is released twice and acquired once. -/
theorem empty_scan_unlocks_twice :
    (handle (.ok World.init) emptyScan).map World.ops
        = .ok [.acquire .orderedListLock, .release .orderedListLock, .release .orderedListLock]
      ∧ ¬ Steps handle LocksKept (.ok World.init) [emptyScan] := by
  refine ⟨rfl, fun hsteps => ?_⟩
  have hkept : Disciplined ((scanCachesSysctlHandler emptyScan World.init).map Prod.snd) :=
    hsteps.1 World.init rfl
  exact nomatch (show none = some [] from hkept)

end UioLinuxSample.PgcacheScan
