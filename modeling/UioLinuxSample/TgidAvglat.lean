import Mathlib.Tactic

set_option autoImplicit false

/-! # `tgid_avglat.c`: the average run delay of a process

`get_tids_lat` adds up the run delays of a task, its children and their other threads, or its own
other threads if it has no children, and divides by the number of children and threads. It does not
count the task itself. So it returns the sum over one task too few, and divides by zero for a
process that is alone (`average_iff`).
-/

namespace UioLinuxSample.TgidAvglat

/-! ## The program -/

/-- A task: `sched_info.run_delay`, and that of the others in its `thread_group`. -/
structure Task where
  runDelay : UInt64
  threadGroup : List UInt64

/-- A task with the children of its process. -/
structure Process extends Task where
  children : List Task

/-- `INVALID_PID`. -/
def invalidPid : Int := -1

/-- The variables of `get_tids_lat`. -/
structure Counts where
  tidsLat : UInt64
  childCnt : Nat
  threadCnt : Nat

/-- The loop over the threads of a task. -/
def Counts.addThreads (s : Counts) (threads : List UInt64) : Counts :=
  threads.foldl (fun s runDelay =>
    { s with threadCnt := s.threadCnt + 1, tidsLat := s.tidsLat + runDelay }) s

/-- The loop over the children. -/
def Counts.addChildren (s : Counts) (children : List Task) : Counts :=
  children.foldl (fun s task =>
    Counts.addThreads
      { s with childCnt := s.childCnt + 1, tidsLat := s.tidsLat + task.runDelay }
      task.threadGroup) s

/-- The variables at the `return`. -/
def countsOf (curr : Process) : Counts :=
  let s := Counts.addChildren ⟨0 + curr.runDelay, 0, 0⟩ curr.children
  if s.childCnt = 0 then s.addThreads curr.threadGroup else s

/-- `get_tids_lat`, where `none` is a division by zero. -/
def getTidsLat (findTask : Int → Option Process) (pid : Int) : Option UInt64 :=
  if pid = invalidPid then some 0
  else
    match findTask pid with
    | none => some 0
    | some curr =>
        let s := countsOf curr
        let count := s.childCnt + s.threadCnt
        if count = 0 then none else some (UInt64.ofNat (s.tidsLat.toNat / count))

/-! ## The tasks that are visited -/

def Task.delays (t : Task) : List UInt64 := t.runDelay :: t.threadGroup

/-- The run delays that are added up, after that of the task itself. -/
def Process.others (p : Process) : List UInt64 :=
  if p.children = [] then p.threadGroup else p.children.flatMap Task.delays

/-- The run delays of the tasks that are visited. -/
def Process.visited (p : Process) : List UInt64 := p.runDelay :: p.others

def total (delays : List UInt64) : Nat := (delays.map UInt64.toNat).sum

/-- There is no division by zero, and the result is the average of the tasks that are visited, which
is between the smallest and the largest run delay. -/
def Averages (findTask : Int → Option Process) (pid : Int) (curr : Process) : Prop :=
  ∃ r, getTidsLat findTask pid = some r
    ∧ r.toNat = total curr.visited / curr.visited.length
    ∧ (∃ d ∈ curr.visited, d ≤ r) ∧ ∃ d ∈ curr.visited, r ≤ d

section Sum

variable {s : Counts}

theorem total_cons (d : UInt64) (ds : List UInt64) : total (d :: ds) = d.toNat + total ds := by
  simp [total]

theorem total_append (as bs : List UInt64) : total (as ++ bs) = total as + total bs := by
  simp [total]

/-- One more delay in a sum that is kept modulo the word size. -/
theorem add_ofNat_total (x d : UInt64) (ds : List UInt64) :
    x + d + UInt64.ofNat (total ds) = x + UInt64.ofNat (total (d :: ds)) := by
  rw [total_cons, UInt64.ofNat_add, UInt64.ofNat_toNat, UInt64.add_assoc]

theorem addThreads_eq (s : Counts) (threads : List UInt64) :
    s.addThreads threads = { s with
      threadCnt := s.threadCnt + threads.length
      tidsLat := s.tidsLat + UInt64.ofNat (total threads) } := by
  induction threads generalizing s with
  | nil => simp [Counts.addThreads, total]
  | cons d threads ih =>
      show Counts.addThreads { s with
        threadCnt := s.threadCnt + 1, tidsLat := s.tidsLat + d } threads = _
      rw [ih]
      simp only [add_ofNat_total, List.length_cons, Counts.mk.injEq, true_and]
      omega

/-- The children and their threads, together. -/
theorem addChildren_spec (s : Counts) (children : List Task) :
    (s.addChildren children).tidsLat
        = s.tidsLat + UInt64.ofNat (total (children.flatMap Task.delays))
      ∧ (s.addChildren children).childCnt = s.childCnt + children.length
      ∧ (s.addChildren children).childCnt + (s.addChildren children).threadCnt
        = s.childCnt + s.threadCnt + (children.flatMap Task.delays).length := by
  induction children generalizing s with
  | nil => simp [Counts.addChildren, total]
  | cons t children ih =>
      have hstep : s.addChildren (t :: children) = Counts.addChildren (Counts.addThreads
          { s with childCnt := s.childCnt + 1, tidsLat := s.tidsLat + t.runDelay }
          t.threadGroup) children := rfl
      rw [hstep, addThreads_eq]
      obtain ⟨hlat, hchild, hcount⟩ := ih { s with
        childCnt := s.childCnt + 1
        threadCnt := s.threadCnt + t.threadGroup.length
        tidsLat := s.tidsLat + t.runDelay + UInt64.ofNat (total t.threadGroup) }
      have hflat : (t :: children).flatMap Task.delays
          = t.runDelay :: t.threadGroup ++ children.flatMap Task.delays := rfl
      refine ⟨?_, ?_, ?_⟩
      · rw [hlat, hflat, total_append, UInt64.ofNat_add, ← UInt64.add_assoc, ← add_ofNat_total]
      · rw [hchild, List.length_cons]
        dsimp only
        omega
      · rw [hcount, hflat, List.length_append, List.length_cons]
        dsimp only
        omega

/-- The variables at the `return`: the sum over all tasks that are visited, and one less than their
number. -/
theorem countsOf_spec (curr : Process) :
    (countsOf curr).tidsLat = UInt64.ofNat (total curr.visited)
      ∧ (countsOf curr).childCnt + (countsOf curr).threadCnt = curr.others.length := by
  obtain ⟨hlat, hchild, hcount⟩ := addChildren_spec ⟨0 + curr.runDelay, 0, 0⟩ curr.children
  have hstart : ∀ ds, 0 + curr.runDelay + UInt64.ofNat (total ds)
      = UInt64.ofNat (total (curr.runDelay :: ds)) := by
    intro ds
    rw [add_ofNat_total, UInt64.zero_add]
  unfold countsOf Process.visited Process.others
  dsimp only at hlat hchild hcount ⊢
  by_cases hnil : curr.children = []
  -- the threads of the task itself only count if it has no children
  · have hzero : (Counts.addChildren ⟨0 + curr.runDelay, 0, 0⟩ curr.children).childCnt = 0 := by
      rw [hchild, hnil]
      rfl
    have hnone : Counts.addChildren ⟨0 + curr.runDelay, 0, 0⟩ [] = ⟨0 + curr.runDelay, 0, 0⟩ := rfl
    rw [if_pos hzero, if_pos hnil, hnil, hnone, addThreads_eq, ← hstart]
    exact ⟨rfl, by simp⟩
  · have hpos : (Counts.addChildren ⟨0 + curr.runDelay, 0, 0⟩ curr.children).childCnt ≠ 0 := by
      rw [hchild, Nat.zero_add]
      exact (List.length_pos_iff.mpr hnil).ne'
    rw [if_neg hpos, if_neg hnil, hlat, hstart, hcount]
    exact ⟨rfl, by simp⟩

end Sum

/-! ## The average -/

section Average

variable {ds : List UInt64}

/-- A count that is one too small gives the same quotient only if the remainder has room. -/
theorem div_pred_eq_iff {n m : Nat} (hm : 0 < m) :
    n / m = n / (m + 1) ↔ n / (m + 1) + n % (m + 1) < m := by
  have hsplit : n = (n / (m + 1) + n % (m + 1)) + m * (n / (m + 1)) := by
    have hdiv := Nat.div_add_mod n (m + 1)
    rw [Nat.add_mul, Nat.one_mul] at hdiv
    omega
  have hquot : n / m = (n / (m + 1) + n % (m + 1)) / m + n / (m + 1) := by
    conv_lhs => rw [hsplit]
    rw [Nat.add_mul_div_left _ _ hm]
  rw [hquot, Nat.add_eq_right, Nat.div_eq_zero_iff]
  omega

/-- The average is between two of the values. -/
theorem exists_le_average (hne : ds ≠ []) : ∃ d ∈ ds, d.toNat ≤ total ds / ds.length := by
  by_contra hall
  push Not at hall
  have hlen := List.length_pos_iff.mpr hne
  have hsum := List.card_nsmul_le_sum (ds.map UInt64.toNat) (total ds / ds.length + 1) (by
    intro n hn
    obtain ⟨d, hd, rfl⟩ := List.mem_map.mp hn
    exact hall d hd)
  rw [List.length_map, smul_eq_mul] at hsum
  exact absurd (Nat.lt_mul_div_succ (total ds) hlen) (not_lt.mpr hsum)

theorem exists_average_le (hne : ds ≠ []) : ∃ d ∈ ds, total ds / ds.length ≤ d.toNat := by
  by_contra hall
  push Not at hall
  obtain ⟨d, hd⟩ := List.exists_mem_of_ne_nil ds hne
  have hpos := (Nat.zero_le _).trans_lt (hall d hd)
  have hsum := List.sum_le_card_nsmul (ds.map UInt64.toNat) (total ds / ds.length - 1) (by
    intro n hn
    obtain ⟨d, hd, rfl⟩ := List.mem_map.mp hn
    exact Nat.le_sub_one_of_lt (hall d hd))
  have hlen := List.length_pos_iff.mpr hne
  have hle := Nat.mul_div_le (total ds) ds.length
  rw [List.length_map, smul_eq_mul] at hsum
  have hless : ds.length * (total ds / ds.length - 1) < ds.length * (total ds / ds.length) :=
    Nat.mul_lt_mul_of_pos_left (Nat.sub_lt hpos one_pos) hlen
  exact absurd (hle.trans hsum) (not_le.mpr hless)

end Average

/-- The result: the sum over all tasks, divided by one less than their number. -/
theorem getTidsLat_eq {findTask : Int → Option Process} {pid : Int} {curr : Process}
    (hpid : pid ≠ invalidPid) (hcurr : findTask pid = some curr)
    (htotal : total curr.visited ≤ 2 ^ 64 - 1) :
    getTidsLat findTask pid
      = if curr.others.length = 0 then none
        else some (UInt64.ofNat (total curr.visited / curr.others.length)) := by
  obtain ⟨hlat, hcount⟩ := countsOf_spec curr
  have hsum : (countsOf curr).tidsLat.toNat = total curr.visited := by
    rw [hlat, UInt64.toNat_ofNat']
    exact Nat.mod_eq_of_lt (by omega)
  unfold getTidsLat
  rw [if_neg hpid, hcurr]
  dsimp only
  rw [hcount, hsum]

/-- **When the result is the average.** There must be a second task, and dividing by one task less
must not change the quotient. -/
theorem average_iff {findTask : Int → Option Process} {pid : Int} {curr : Process}
    (hpid : pid ≠ invalidPid) (hcurr : findTask pid = some curr)
    (htotal : total curr.visited ≤ 2 ^ 64 - 1) :
    Averages findTask pid curr
      ↔ 2 ≤ curr.visited.length
        ∧ total curr.visited / curr.visited.length + total curr.visited % curr.visited.length
          < curr.visited.length - 1 := by
  have hresult := getTidsLat_eq hpid hcurr htotal
  have hlen : curr.visited.length = curr.others.length + 1 := List.length_cons
  have hword : (UInt64.ofNat (total curr.visited / curr.others.length)).toNat
      = total curr.visited / curr.others.length := by
    rw [UInt64.toNat_ofNat']
    exact Nat.mod_eq_of_lt ((Nat.div_le_self _ _).trans_lt (by omega))
  rw [hlen, Nat.add_sub_cancel]
  constructor
  · rintro ⟨r, hr, hfloor, -⟩
    rw [hresult] at hr
    by_cases hzero : curr.others.length = 0
    · rw [if_pos hzero] at hr
      cases hr
    · rw [if_neg hzero] at hr
      obtain rfl := Option.some.inj hr
      rw [hword, hlen] at hfloor
      exact ⟨by omega, (div_pred_eq_iff (Nat.pos_of_ne_zero hzero)).mp hfloor⟩
  · rintro ⟨htwo, hroom⟩
    have hpos : 0 < curr.others.length := by omega
    have hfloor : (UInt64.ofNat (total curr.visited / curr.others.length)).toNat
        = total curr.visited / curr.visited.length := by
      rw [hword, hlen]
      exact (div_pred_eq_iff hpos).mpr hroom
    -- the bounds hold for the true average, and the result is that
    obtain ⟨low, hlow, hle⟩ := exists_le_average (List.cons_ne_nil curr.runDelay curr.others)
    obtain ⟨high, hhigh, hge⟩ := exists_average_le (List.cons_ne_nil curr.runDelay curr.others)
    exact ⟨_, hresult.trans (if_neg hpos.ne'), hfloor,
      ⟨low, hlow, UInt64.le_iff_toNat_le.mpr (hle.trans hfloor.ge)⟩,
      high, hhigh, UInt64.le_iff_toNat_le.mpr (hfloor.le.trans hge)⟩

/-- A task with these delays and no children, whatever the pid. -/
def loner (runDelay : UInt64) (threadGroup : List UInt64) : Int → Option Process :=
  fun _ => some { runDelay, threadGroup, children := [] }

/-- Four threads with a delay of 0 or 1. -/
theorem average_small :
    ∃ r, getTidsLat (loner 1 [0, 0, 0]) 100 = some r ∧ r.toNat = 0 := by
  have haverages : Averages (loner 1 [0, 0, 0]) 100
      { runDelay := 1, threadGroup := [0, 0, 0], children := [] } :=
    (average_iff (by decide) rfl (by decide)).mpr (by decide)
  obtain ⟨r, hr, hfloor, -⟩ := haverages
  exact ⟨r, hr, hfloor⟩

/-- Two threads with a delay of 10 are said to have 20 on average, and for one without company
there is a division by zero. -/
theorem average_wrong :
    getTidsLat (loner 10 [10]) 100 = some 20 ∧ getTidsLat (loner 10 []) 100 = none := by
  decide

end UioLinuxSample.TgidAvglat
