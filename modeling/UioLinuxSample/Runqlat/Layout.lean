import UioLinuxSample.Runqlat.Model
import UioLinuxSample.Lib.Run

set_option autoImplicit false

/-! # The layout of the trace entries and their task entries

`trace_entries` and `task_entries` are two adjacent arrays. A committed trace entry owns a run
of task entries, the runs follow each other, and the open entry owns what comes after them up to
`nr_task` (`Layout`). The arrays are never overrun because a full array disables the tracer:
while a pid is traced, both counters are strictly below their limits (`Wf.strict`).

The probes go on after `record_task` has disabled the tracer in the middle of a handler, so the
step lemmas are about the single calls, and a probe is followed call by call. The history
variable is the list of stores since the session started; `cell_recordTask` and
`cell_recordTaskCommit` say that they are the stores of the functions.
-/

namespace UioLinuxSample.Runqlat

open Run

/-! ## The layout invariant -/

/-- The task entries owned by the trace entries below `n`. -/
def base (traces : Nat → TraceEntry) (n : Nat) : Nat :=
  ∑ j ∈ Finset.range n, (traces j).nrTasks

/-- The task entries of the open entry; there is none when the array is full. -/
def openTasks (nrTrace : Nat) (traces : Nat → TraceEntry) : Nat :=
  if nrTrace < maxTraceEntries then (traces nrTrace).nrTasks else 0

structure Layout (nrTrace nrTask : Nat) (traces : Nat → TraceEntry) : Prop where
  nrTrace_le : nrTrace ≤ maxTraceEntries
  nrTask_le : nrTask ≤ maxTraceEntryTasks
  committed : ∀ i < nrTrace, 1 ≤ (traces i).nrTasks ∧ (traces i).entries = some (base traces i)
  opened : nrTrace < maxTraceEntries → 0 < (traces nrTrace).nrTasks →
    (traces nrTrace).entries = some (base traces nrTrace)
  nrTask_eq : nrTask = base traces nrTrace + openTasks nrTrace traces
  fresh : ∀ i, nrTrace < i → i < maxTraceEntries → (traces i).nrTasks = 0

/-- The representation invariant of `struct runqlat_info`. -/
structure Wf (info : Info) : Prop where
  layout : Layout info.nrTrace info.nrTask info.traceEntries
  strict : info.pid ≠ invalidPid →
    info.nrTrace < maxTraceEntries ∧ info.nrTask < maxTraceEntryTasks
  /-- Without a traced pid there is no `curr` for the migrate probe to record. -/
  no_curr : info.pid = invalidPid → info.curr = none

theorem base_succ (traces : Nat → TraceEntry) (n : Nat) :
    base traces (n + 1) = base traces n + (traces n).nrTasks :=
  Finset.sum_range_succ _ _

/-- A write to entry `n` is not seen by the entries up to `n`. -/
theorem base_update (traces : Nat → TraceEntry) {i n : Nat} (h : i ≤ n) (t : TraceEntry) :
    base (Function.update traces n t) i = base traces i := by
  refine Finset.sum_congr rfl fun j hj => ?_
  have hjn : j ≠ n := by
    have := Finset.mem_range.mp hj
    omega
  rw [Function.update_of_ne hjn]

/-- The run of entry `i` ends before the entries from `n` on begin. -/
theorem base_end_le (traces : Nat → TraceEntry) {i n : Nat} (h : i < n) :
    base traces i + (traces i).nrTasks ≤ base traces n := by
  rw [← base_succ]
  exact Finset.sum_le_sum_of_subset (by simpa using h)

theorem openTasks_of_lt {nrTrace : Nat} (h : nrTrace < maxTraceEntries)
    (traces : Nat → TraceEntry) : openTasks nrTrace traces = (traces nrTrace).nrTasks :=
  if_pos h

theorem layout_empty {traces : Nat → TraceEntry}
    (h : ∀ i < maxTraceEntries, (traces i).nrTasks = 0) : Layout 0 0 traces where
  nrTrace_le := Nat.zero_le _
  nrTask_le := Nat.zero_le _
  committed := fun i hi => absurd hi (Nat.not_lt_zero i)
  opened := by
    intro hlt hpos
    have := h 0 hlt
    omega
  nrTask_eq := by
    rw [openTasks_of_lt (by decide), h 0 (by decide)]
    rfl
  fresh := fun i _ hi => h i hi

/-! ## The single calls -/

section Calls

variable {nrTrace nrTask : Nat} {traces : Nat → TraceEntry}

/-- The committed entries survive a write to the open one. -/
theorem Layout.committed_update (h : Layout nrTrace nrTask traces) (t : TraceEntry) :
    ∀ i < nrTrace, 1 ≤ (Function.update traces nrTrace t i).nrTasks ∧
      (Function.update traces nrTrace t i).entries
        = some (base (Function.update traces nrTrace t) i) := by
  intro i hi
  have hne : i ≠ nrTrace := by omega
  rw [Function.update_of_ne hne, base_update traces (by omega)]
  exact h.committed i hi

theorem Layout.fresh_update (h : Layout nrTrace nrTask traces) (t : TraceEntry) :
    ∀ i, nrTrace < i → i < maxTraceEntries →
      (Function.update traces nrTrace t i).nrTasks = 0 := by
  intro i hlt hi
  have hne : i ≠ nrTrace := by omega
  rw [Function.update_of_ne hne]
  exact h.fresh i hlt hi

/-- The open entry grows by one task. -/
theorem Layout.append (h : Layout nrTrace nrTask traces) (hn : nrTrace < maxTraceEntries)
    (ht : nrTask < maxTraceEntryTasks) {t : TraceEntry}
    (hnr : t.nrTasks = (traces nrTrace).nrTasks + 1)
    (hstart : t.entries = some (base traces nrTrace)) :
    Layout nrTrace (nrTask + 1) (Function.update traces nrTrace t) where
  nrTrace_le := h.nrTrace_le
  nrTask_le := ht
  committed := h.committed_update t
  opened := by
    intro _ _
    rw [Function.update_self, base_update traces (Nat.le_refl _)]
    exact hstart
  nrTask_eq := by
    have heq := h.nrTask_eq
    rw [openTasks_of_lt hn] at heq
    rw [openTasks_of_lt hn, Function.update_self, base_update traces (Nat.le_refl _), hnr]
    omega
  fresh := h.fresh_update t

/-- The open entry, which has a task, is committed. -/
theorem Layout.keep (h : Layout nrTrace nrTask traces) (hn : nrTrace < maxTraceEntries)
    (hpos : 0 < (traces nrTrace).nrTasks) {t : TraceEntry}
    (hnr : t.nrTasks = (traces nrTrace).nrTasks) (hstart : t.entries = (traces nrTrace).entries) :
    Layout (nrTrace + 1) nrTask (Function.update traces nrTrace t) := by
  have hbase : base (Function.update traces nrTrace t) nrTrace = base traces nrTrace :=
    base_update traces (Nat.le_refl _) t
  have heq := h.nrTask_eq
  rw [openTasks_of_lt hn] at heq
  -- the entry after the committed ones has not been used yet
  have hzero : openTasks (nrTrace + 1) (Function.update traces nrTrace t) = 0 := by
    unfold openTasks
    split
    · next hlt => exact h.fresh_update t _ (Nat.lt_succ_self _) hlt
    · rfl
  refine ⟨hn, h.nrTask_le, ?_, ?_, ?_, ?_⟩
  · intro i hi
    rcases Nat.lt_or_eq_of_le (Nat.le_of_lt_succ hi) with hlt | rfl
    · exact h.committed_update t i hlt
    · rw [Function.update_self, hbase, hnr, hstart]
      exact ⟨hpos, h.opened hn hpos⟩
  · intro hlt hopen
    have hfresh : (Function.update traces nrTrace t (nrTrace + 1)).nrTasks = 0 :=
      h.fresh_update t _ (Nat.lt_succ_self nrTrace) hlt
    omega
  · rw [hzero, base_succ, hbase, Function.update_self, hnr]
    omega
  · intro i hlt hi
    exact h.fresh_update t i (by omega) hi

/-- The open entry gives its task entries back. -/
theorem Layout.drop (h : Layout nrTrace nrTask traces) (hn : nrTrace < maxTraceEntries)
    {t : TraceEntry} (hnr : t.nrTasks = 0) :
    Layout nrTrace (nrTask - (traces nrTrace).nrTasks) (Function.update traces nrTrace t) where
  nrTrace_le := h.nrTrace_le
  nrTask_le := Nat.le_trans (Nat.sub_le _ _) h.nrTask_le
  committed := h.committed_update t
  opened := by
    intro _ hpos
    rw [Function.update_self] at hpos
    omega
  nrTask_eq := by
    have heq := h.nrTask_eq
    rw [openTasks_of_lt hn] at heq
    rw [openTasks_of_lt hn, Function.update_self, base_update traces (Nat.le_refl _), hnr]
    omega
  fresh := h.fresh_update t

end Calls

section Info

variable {info : Info}

/-- The first task of an open entry takes the next free slot, which is where the committed
entries end. -/
theorem Wf.openStart_eq (h : Wf info) (hn : info.nrTrace < maxTraceEntries) :
    info.openStart = some (base info.traceEntries info.nrTrace) := by
  have heq := h.layout.nrTask_eq
  rw [openTasks_of_lt hn] at heq
  unfold Info.openStart Info.openEntry
  split
  · next hzero => rw [heq, hzero]; rfl
  · next hne => exact h.layout.opened hn (Nat.pos_of_ne_zero hne)

/-- The `WARN_ON_ONCE` of `record_task` does not fire. -/
theorem Wf.not_warns (h : Wf info) (hn : info.nrTrace < maxTraceEntries) : ¬ info.Warns := by
  have heq := h.layout.nrTask_eq
  rw [openTasks_of_lt hn] at heq
  unfold Info.Warns
  rw [h.openStart_eq hn, not_not, Option.map_some]
  show some (base info.traceEntries info.nrTrace : Int) = some (_ - ((_ : Nat) : Int))
  rw [Option.some_inj]
  unfold Info.openEntry
  omega

@[simp] theorem recordTask_nrTrace (info : Info) (p : TaskStruct) (runtime : UInt64) :
    (recordTask info p runtime).nrTrace = info.nrTrace := by
  unfold recordTask
  dsimp only
  split <;> rfl

@[simp] theorem recordTask_nrTask (info : Info) (p : TaskStruct) (runtime : UInt64) :
    (recordTask info p runtime).nrTask = info.nrTask + 1 := by
  unfold recordTask
  dsimp only
  split <;> rfl

@[simp] theorem recordTask_traceEntries (info : Info) (p : TaskStruct) (runtime : UInt64) :
    (recordTask info p runtime).traceEntries = (appendTask info p runtime).traceEntries := by
  unfold recordTask
  dsimp only
  split <;> rfl

theorem Wf.recordTask (h : Wf info) (hpid : info.pid ≠ invalidPid) (p : TaskStruct)
    (runtime : UInt64) : Wf (recordTask info p runtime) := by
  obtain ⟨hn, ht⟩ := h.strict hpid
  have hlayout : Layout info.nrTrace (info.nrTask + 1)
      (appendTask info p runtime).traceEntries :=
    h.layout.append hn ht rfl (h.openStart_eq hn)
  unfold Runqlat.recordTask
  dsimp only
  split
  · exact ⟨hlayout, fun hne => absurd rfl hne, fun _ => rfl⟩
  · next hroom =>
      exact ⟨hlayout, fun _ => ⟨hn, Nat.not_le.mp hroom⟩, h.no_curr⟩

/-- `unsigned int` subtraction of counters that are in range. -/
theorem u32_sub_toNat {a b : Nat} (hba : b ≤ a) (ha : a ≤ maxTraceEntryTasks) :
    (UInt32.ofNat a - UInt32.ofNat b).toNat = a - b := by
  have hmax : maxTraceEntryTasks = 2048 := rfl
  have hle : UInt32.ofNat b ≤ UInt32.ofNat a := by
    rw [UInt32.le_iff_toNat_le, UInt32.toNat_ofNat', UInt32.toNat_ofNat']
    omega
  rw [UInt32.toNat_sub_of_le _ _ hle, UInt32.toNat_ofNat', UInt32.toNat_ofNat']
  omega

theorem Wf.keepTrace (h : Wf info) (hn : info.nrTrace < maxTraceEntries)
    (hpos : 0 < info.openEntry.nrTasks) (latency : UInt64) : Wf (keepTrace info latency) := by
  have hlayout := h.layout.keep (t := { info.openEntry with latency := latency }) hn hpos rfl rfl
  unfold Runqlat.keepTrace
  dsimp only
  split
  · exact ⟨hlayout, fun hne => absurd rfl hne, fun _ => rfl⟩
  · next hroom =>
      exact ⟨hlayout, fun hpid => ⟨Nat.not_le.mp hroom, (h.strict hpid).2⟩, h.no_curr⟩

theorem Wf.dropTrace_nrTask (h : Wf info) (hn : info.nrTrace < maxTraceEntries) :
    (dropTrace info).nrTask = info.nrTask - info.openEntry.nrTasks := by
  have heq := h.layout.nrTask_eq
  rw [openTasks_of_lt hn] at heq
  refine u32_sub_toNat ?_ h.layout.nrTask_le
  unfold Info.openEntry
  omega

theorem Wf.dropTrace (h : Wf info) (hn : info.nrTrace < maxTraceEntries) :
    Wf (dropTrace info) := by
  have hlayout := h.layout.drop
    (t := { info.openEntry with nrTasks := 0, entries := none }) hn rfl
  have hnr := h.dropTrace_nrTask hn
  refine ⟨?_, fun hpid => ⟨hn, ?_⟩, h.no_curr⟩
  · rw [hnr]
    exact hlayout
  · have := (h.strict hpid).2
    omega

theorem Wf.recordTaskCommit (h : Wf info) (hn : info.nrTrace < maxTraceEntries)
    (latency : UInt64) : Wf (recordTaskCommit info latency).2 := by
  have hstore : Wf (latencyHistogramStore info latency) := ⟨h.layout, h.strict, h.no_curr⟩
  unfold Runqlat.recordTaskCommit
  dsimp only
  split
  · exact hstore
  · next hne =>
      split
      · exact hstore.keepTrace hn (Nat.pos_of_ne_zero hne) latency
      · exact hstore.dropTrace hn

end Info

/-! ## What is written and what is read -/

/-- The memory behind the two arrays: three fields of a trace entry, and a task entry. -/
inductive Slot where
  | latency (i : Nat)
  | nrTasks (i : Nat)
  | entries (i : Nat)
  | task (k : Nat)
  deriving DecidableEq

/-- What a slot holds. -/
inductive Cell where
  | latency (latency : UInt64)
  | nrTasks (n : Nat)
  | entries (start : Option Nat)
  | task (t : TaskEntry)
  deriving DecidableEq

/-- The slot lies in its array. -/
def Slot.InArray : Slot → Prop
  | .latency i | .nrTasks i | .entries i => i < maxTraceEntries
  | .task k => k < maxTraceEntryTasks

/-- What the `memset` leaves in a slot. -/
def Slot.zero : Slot → Cell
  | .latency _ => .latency TraceEntry.zero.latency
  | .nrTasks _ => .nrTasks TraceEntry.zero.nrTasks
  | .entries _ => .entries TraceEntry.zero.entries
  | .task _ => .task TaskEntry.zero

/-- The arrays, slot by slot. -/
def Info.cell (info : Info) : Slot → Cell
  | .latency i => .latency (info.traceEntries i).latency
  | .nrTasks i => .nrTasks (info.traceEntries i).nrTasks
  | .entries i => .entries (info.traceEntries i).entries
  | .task k => .task (info.taskEntries k)

/-- The stores a call makes to the arrays, in order. -/
def Call.stores : Call → List (Slot × Cell)
  | .recordTask info p runtime =>
      (if info.openEntry.nrTasks = 0 then [(.entries info.nrTrace, .entries (some info.nrTask))]
        else [])
        ++ [(.nrTasks info.nrTrace, .nrTasks (info.openEntry.nrTasks + 1)),
          (.task info.nrTask, .task ⟨runtime, p.pid, strncpy p.comm taskCommLen⟩)]
  | .recordTaskCommit info latency =>
      if info.openEntry.nrTasks = 0 then []
      else if latency ≥ info.threshold then [(.latency info.nrTrace, .latency latency)]
      else [(.nrTasks info.nrTrace, .nrTasks 0), (.entries info.nrTrace, .entries none)]

/-- The slots a call writes. -/
def Call.writes (c : Call) : List Slot := c.stores.map Prod.fst

@[simp] theorem writes_recordTask (info : Info) (p : TaskStruct) (runtime : UInt64) :
    (Call.recordTask info p runtime).writes
      = (if info.openEntry.nrTasks = 0 then [.entries info.nrTrace] else [])
        ++ [.nrTasks info.nrTrace, .task info.nrTask] := by
  simp only [Call.writes, Call.stores]
  split <;> rfl

@[simp] theorem writes_recordTaskCommit (info : Info) (latency : UInt64) :
    (Call.recordTaskCommit info latency).writes
      = if info.openEntry.nrTasks = 0 then []
        else if latency ≥ info.threshold then [.latency info.nrTrace]
        else [.nrTasks info.nrTrace, .entries info.nrTrace] := by
  simp only [Call.writes, Call.stores]
  split
  · rfl
  · split <;> rfl

def store (mem : Slot → Cell) (w : Slot × Cell) : Slot → Cell := Function.update mem w.1 w.2

/-- The arrays after the stores `log` to zeroed ones. -/
def replay (log : List (Slot × Cell)) : Slot → Cell := log.foldl store Slot.zero

/-- The slots `runqlat_show` reads. -/
def showReads (info : Info) : List Slot :=
  (List.range info.nrTrace).flatMap fun i =>
    [.latency i, .nrTasks i, .entries i] ++
      (List.range (info.traceEntries i).nrTasks).map fun j =>
        .task ((info.traceEntries i).entries.getD 0 + j)

/-- The trace that is printed for entry `i` of the arrays `mem`. -/
structure Printed (mem : Slot → Cell) (i : Nat) (shown : ShownTrace) : Prop where
  latency : ∃ latency, mem (.latency i) = .latency latency ∧ shown.latency = latency / 1000
  runqlen : mem (.nrTasks i) = .nrTasks shown.runqlen
  tasks : ∃ start, mem (.entries i) = .entries (some start)
    ∧ List.Forall₂ (fun j t => ∃ task, mem (.task (start + j)) = .task task
      ∧ t = { task with runtime := task.runtime / 1000 }) (List.range shown.runqlen) shown.tasks

/-! ### The stores are those of the functions -/

section Stores

variable (info : Info)

theorem cell_recordTask (p : TaskStruct) (runtime : UInt64) :
    (recordTask info p runtime).cell
      = (Call.recordTask info p runtime).stores.foldl store info.cell := by
  have hsame : (recordTask info p runtime).cell = (appendTask info p runtime).cell := by
    unfold recordTask
    dsimp only
    split <;> rfl
  rw [hsame]
  funext s
  by_cases hzero : (info.traceEntries info.nrTrace).nrTasks = 0 <;> cases s with
  | task k =>
      by_cases hk : k = info.nrTask <;>
        simp [Info.cell, appendTask, Call.stores, Info.openEntry, store, hzero, hk]
  | latency i | nrTasks i | entries i =>
      by_cases hi : i = info.nrTrace <;>
        simp [Info.cell, appendTask, Info.openStart, Call.stores, Info.openEntry, store, hzero, hi]

theorem cell_keepTrace (latency : UInt64) :
    (keepTrace info latency).cell = store info.cell (.latency info.nrTrace, .latency latency) := by
  have hsame : (keepTrace info latency).cell = Info.cell { info with
      traceEntries := Function.update info.traceEntries info.nrTrace
        { info.openEntry with latency := latency } } := by
    unfold keepTrace
    dsimp only
    split <;> rfl
  rw [hsame]
  funext s
  cases s with
  | task k => simp [Info.cell, store]
  | latency i | nrTasks i | entries i =>
      by_cases hi : i = info.nrTrace <;> simp [Info.cell, Info.openEntry, store, hi]

theorem cell_dropTrace :
    (dropTrace info).cell = store (store info.cell (.nrTasks info.nrTrace, .nrTasks 0))
      (.entries info.nrTrace, .entries none) := by
  funext s
  cases s with
  | task k => simp [Info.cell, dropTrace, store]
  | latency i | nrTasks i | entries i =>
      by_cases hi : i = info.nrTrace <;> simp [Info.cell, dropTrace, Info.openEntry, store, hi]

theorem cell_recordTaskCommit (latency : UInt64) :
    (recordTaskCommit info latency).2.cell
      = (Call.recordTaskCommit info latency).stores.foldl store info.cell := by
  have hcell : (latencyHistogramStore info latency).cell = info.cell := rfl
  have hopen : (latencyHistogramStore info latency).openEntry = info.openEntry := rfl
  have hthreshold : (latencyHistogramStore info latency).threshold = info.threshold := rfl
  unfold recordTaskCommit
  simp only [Call.stores, hopen, hthreshold]
  split
  · rfl
  · split
    · exact cell_keepTrace _ latency
    · exact cell_dropTrace _

end Stores

/-- Stores to two memories that agree on a slot. -/
theorem foldl_store_congr {mem mem' : Slot → Cell} {s : Slot} (h : mem s = mem' s)
    (log : List (Slot × Cell)) : log.foldl store mem s = log.foldl store mem' s := by
  induction log generalizing mem mem' with
  | nil => exact h
  | cons w log ih =>
      apply ih
      unfold store
      by_cases hs : s = w.1
      · rw [hs, Function.update_self, Function.update_self]
      · rw [Function.update_of_ne hs, Function.update_of_ne hs, h]

/-- The arrays hold what was stored to them since they were zeroed, and nothing else. -/
def Exact (info : Info) (log : List (Slot × Cell)) : Prop :=
  ∀ s, s.InArray → info.cell s = replay log s

theorem Exact.call {info info' : Info} {log : List (Slot × Cell)} (h : Exact info log) {c : Call}
    (hcell : info'.cell = c.stores.foldl store info.cell) : Exact info' (log ++ c.stores) := by
  intro s hs
  rw [hcell, replay, List.foldl_append]
  exact foldl_store_congr (h s hs) c.stores

/-- A write to the `pid` file that starts a session. -/
def startsSession (info : Info) : Event → Bool
  | .tracePid (some pid) => info.pid == invalidPid && pid != invalidPid
  | _ => false

/-- What a write to the `pid` file does: nothing, stop the session, or start one. -/
theorem tracePid_cases (info : Info) (pid : Option Int) :
    ((tracePidStore info pid).2 = info ∧ startsSession info (.tracePid pid) = false) ∨
      ((tracePidStore info pid).2 = { runqlatInfoReset info with pid := invalidPid } ∧
        startsSession info (.tracePid pid) = false) ∨
      ∃ new, new ≠ invalidPid ∧
        (tracePidStore info pid).2 = { runqlatInfoReset (sessionClear info) with pid := new } ∧
        startsSession info (.tracePid pid) = true := by
  cases pid with
  | none => exact .inl ⟨rfl, rfl⟩
  | some new =>
      by_cases hold : info.pid = invalidPid
      · by_cases hnew : new = invalidPid
        · exact .inl (by simp [tracePidStore, startsSession, hold, hnew])
        · have hne : ¬ invalidPid = new := fun heq => hnew heq.symm
          exact .inr (.inr ⟨new, hnew, by simp [tracePidStore, startsSession, hold, hnew, hne]⟩)
      · by_cases hnew : new = invalidPid
        · exact .inr (.inl (by simp [tracePidStore, startsSession, hold, hnew]))
        · exact .inl (by simp [tracePidStore, startsSession, hold, hnew])

/-- The stores since the session started. -/
def written (log : List (Slot × Cell)) (info : Info) (e : Event) : List (Slot × Cell) :=
  if startsSession info e then [] else log ++ (calls info e).flatMap Call.stores

/-- A call touches the arrays inside their bounds, and `record_task` does not warn. -/
def Call.InBounds : Call → Prop
  | .recordTask info _ _ =>
      info.nrTrace < maxTraceEntries ∧ info.nrTask < maxTraceEntryTasks ∧ ¬ info.Warns
  | .recordTaskCommit info latency =>
      info.nrTrace < maxTraceEntries ∧ latencyIndex (latency / 1000000) < latencyHistogramEntry

theorem latencyIndex_lt (delta : UInt64) : latencyIndex delta < latencyHistogramEntry := by
  obtain ⟨i, hi, -⟩ := latencyIndex_spec delta
  have hpos : 0 < latencyHistogramEntry := by decide
  omega

/-- Every slot in use has been written. -/
structure Covered (info : Info) (slots : List Slot) : Prop where
  tasks : ∀ k < info.nrTask, Slot.task k ∈ slots
  committed : ∀ i < info.nrTrace,
    Slot.latency i ∈ slots ∧ Slot.nrTasks i ∈ slots ∧ Slot.entries i ∈ slots
  opened : info.nrTrace < maxTraceEntries → 0 < info.openEntry.nrTasks →
    Slot.nrTasks info.nrTrace ∈ slots ∧ Slot.entries info.nrTrace ∈ slots

theorem Covered.mono {info : Info} {slots : List Slot} (h : Covered info slots)
    (more : List Slot) : Covered info (slots ++ more) where
  tasks := fun k hk => List.mem_append_left _ (h.tasks k hk)
  committed := fun i hi =>
    have hi' := h.committed i hi
    ⟨List.mem_append_left _ hi'.1, List.mem_append_left _ hi'.2.1,
      List.mem_append_left _ hi'.2.2⟩
  opened := fun hn hpos =>
    have ho := h.opened hn hpos
    ⟨List.mem_append_left _ ho.1, List.mem_append_left _ ho.2⟩

/-- What is shown has been written since the session started. -/
theorem Covered.showReads {info : Info} {slots : List Slot} (h : Covered info slots)
    (hwf : Wf info) : ∀ s ∈ showReads info, s ∈ slots := by
  intro s hs
  obtain ⟨i, hi, hs⟩ := List.mem_flatMap.mp hs
  have hi : i < info.nrTrace := List.mem_range.mp hi
  obtain ⟨hlat, hnr, hent⟩ := h.committed i hi
  rcases List.mem_append.mp hs with hs | hs
  · rcases List.mem_cons.mp hs with rfl | hs
    · exact hlat
    · rcases List.mem_cons.mp hs with rfl | hs
      · exact hnr
      · rw [List.mem_singleton.mp hs]
        exact hent
  · obtain ⟨j, hj, rfl⟩ := List.mem_map.mp hs
    have hj : j < (info.traceEntries i).nrTasks := List.mem_range.mp hj
    rw [(hwf.layout.committed i hi).2, Option.getD_some]
    -- the run of entry `i` ends inside the task entries in use
    have hend := base_end_le info.traceEntries hi
    have heq := hwf.layout.nrTask_eq
    exact h.tasks _ (by omega)

theorem Covered.recordTask {info : Info} {slots : List Slot} (h : Covered info slots)
    (hn : info.nrTrace < maxTraceEntries) (p : TaskStruct) (runtime : UInt64) :
    Covered (recordTask info p runtime)
      (slots ++ (Call.recordTask info p runtime).writes) where
  tasks := by
    intro k hk
    rw [recordTask_nrTask] at hk
    rcases Nat.lt_or_eq_of_le (Nat.le_of_lt_succ hk) with hlt | rfl
    · exact List.mem_append_left _ (h.tasks k hlt)
    · simp
  committed := by
    rw [recordTask_nrTrace]
    exact (h.mono _).committed
  opened := by
    intro _ _
    rw [recordTask_nrTrace]
    refine ⟨by simp, ?_⟩
    by_cases hzero : info.openEntry.nrTasks = 0
    · simp [hzero]
    · exact List.mem_append_left _ (h.opened hn (Nat.pos_of_ne_zero hzero)).2

@[simp] theorem keepTrace_nrTrace (info : Info) (latency : UInt64) :
    (keepTrace info latency).nrTrace = info.nrTrace + 1 := by
  unfold keepTrace
  dsimp only
  split <;> rfl

@[simp] theorem keepTrace_nrTask (info : Info) (latency : UInt64) :
    (keepTrace info latency).nrTask = info.nrTask := by
  unfold keepTrace
  dsimp only
  split <;> rfl

theorem keepTrace_traceEntries (info : Info) (latency : UInt64) :
    (keepTrace info latency).traceEntries
      = Function.update info.traceEntries info.nrTrace { info.openEntry with latency := latency } := by
  unfold keepTrace
  dsimp only
  split <;> rfl

theorem Covered.keepTrace {info : Info} {slots : List Slot} (h : Covered info slots)
    (hwf : Wf info) (hn : info.nrTrace < maxTraceEntries) (hpos : 0 < info.openEntry.nrTasks)
    (latency : UInt64) :
    Covered (keepTrace info latency) (slots ++ [.latency info.nrTrace]) where
  tasks := by
    rw [keepTrace_nrTask]
    exact (h.mono _).tasks
  committed := by
    intro i hi
    rw [keepTrace_nrTrace] at hi
    rcases Nat.lt_or_eq_of_le (Nat.le_of_lt_succ hi) with hlt | rfl
    · exact (h.mono _).committed i hlt
    · have ho := (h.mono [.latency info.nrTrace]).opened hn hpos
      exact ⟨by simp, ho.1, ho.2⟩
  opened := by
    intro hlt hopen
    unfold Info.openEntry at hopen
    rw [keepTrace_nrTrace] at hlt hopen
    rw [keepTrace_traceEntries, hwf.layout.fresh_update _ _ (Nat.lt_succ_self _) hlt] at hopen
    exact absurd hopen (Nat.lt_irrefl 0)

theorem Covered.dropTrace {info : Info} {slots : List Slot} (h : Covered info slots)
    (hwf : Wf info) (hn : info.nrTrace < maxTraceEntries) :
    Covered (dropTrace info) (slots ++ [.nrTasks info.nrTrace, .entries info.nrTrace]) where
  tasks := by
    intro k hk
    rw [hwf.dropTrace_nrTask hn] at hk
    exact List.mem_append_left _ (h.tasks k (by omega))
  committed := (h.mono _).committed
  opened := by
    intro _ _
    refine ⟨List.mem_append_right _ ?_, List.mem_append_right _ ?_⟩
    · exact List.mem_cons_self
    · exact List.mem_cons_of_mem _ (List.mem_singleton_self _)

/-! ## The probes -/

/-- The invariant of a state with the stores since its session started. -/
structure Ok (w : Info × List (Slot × Cell)) : Prop where
  wf : Wf w.1
  covered : Covered w.1 (w.2.map Prod.fst)
  exact : Exact w.1 w.2

section Probes

variable {info info' : Info} {log : List (Slot × Cell)}

/-- A write to the control fields alone. -/
theorem Ok.of_same (h : Ok (info, log)) (htrace : info'.nrTrace = info.nrTrace)
    (htask : info'.nrTask = info.nrTask) (hentries : info'.traceEntries = info.traceEntries)
    (htasks : info'.taskEntries = info.taskEntries)
    (hpid : info'.pid = info.pid ∨ info'.pid = invalidPid)
    (hcurr : info'.pid = invalidPid → info'.curr = none) : Ok (info', log) where
  wf := by
    refine ⟨?_, ?_, hcurr⟩
    · rw [htrace, htask, hentries]
      exact h.wf.layout
    · intro hne
      rw [htrace, htask]
      rcases hpid with heq | heq
      · exact h.wf.strict (heq ▸ hne)
      · exact absurd heq hne
  covered := by
    refine ⟨?_, ?_, ?_⟩
    · rw [htask]; exact h.covered.tasks
    · rw [htrace]; exact h.covered.committed
    · unfold Info.openEntry
      rw [htrace, hentries]
      exact h.covered.opened
  exact := by
    have hcell : info'.cell = info.cell := by
      funext s
      cases s <;> simp only [Info.cell, hentries, htasks]
    intro s hs
    rw [hcell]
    exact h.exact s hs

/-- A probe, or a part of one, that was entered after the stores `log`. -/
structure Follows (log : List (Slot × Cell)) (r : Info × List Call) : Prop where
  ok : Ok (r.1, log ++ r.2.flatMap Call.stores)
  inBounds : ∀ c ∈ r.2, c.InBounds

theorem Ok.follows (h : Ok (info, log)) : Follows log (info, []) where
  ok := by simpa using h
  inBounds := fun _ hc => absurd hc List.not_mem_nil

theorem Ok.recordTask (h : Ok (info, log)) (hpid : info.pid ≠ invalidPid) (p : TaskStruct)
    (runtime : UInt64) :
    Ok (recordTask info p runtime, log ++ (Call.recordTask info p runtime).stores) := by
  refine ⟨h.wf.recordTask hpid p runtime, ?_, h.exact.call (cell_recordTask info p runtime)⟩
  rw [List.map_append]
  exact h.covered.recordTask (h.wf.strict hpid).1 p runtime

theorem Ok.recordSince (h : Ok (info, log)) (hpid : info.pid ≠ invalidPid) (p : TaskStruct)
    (now : UInt64) : Follows log (recordSince info p now) := by
  obtain ⟨hn, ht⟩ := h.wf.strict hpid
  unfold Runqlat.recordSince
  split
  · refine ⟨?_, ?_⟩
    · rw [List.flatMap_singleton]
      exact h.recordTask hpid _ _
    · intro c hc
      rw [List.mem_singleton.mp hc]
      exact ⟨hn, ht, h.wf.not_warns hn⟩
  · exact h.follows

@[simp] theorem recordSince_nrTrace (info : Info) (p : TaskStruct) (now : UInt64) :
    (recordSince info p now).1.nrTrace = info.nrTrace := by
  unfold Runqlat.recordSince
  split
  · exact recordTask_nrTrace _ _ _
  · rfl

theorem Ok.recordTaskCommit (h : Ok (info, log)) (hn : info.nrTrace < maxTraceEntries)
    (latency : UInt64) :
    Ok ((recordTaskCommit info latency).2, log ++ (Call.recordTaskCommit info latency).stores) := by
  refine ⟨h.wf.recordTaskCommit hn latency, ?_, h.exact.call (cell_recordTaskCommit info latency)⟩
  have hstore : Ok (latencyHistogramStore info latency, log) :=
    h.of_same rfl rfl rfl rfl (.inl rfl) h.wf.no_curr
  have hopen : (latencyHistogramStore info latency).openEntry = info.openEntry := rfl
  have hthreshold : (latencyHistogramStore info latency).threshold = info.threshold := rfl
  have hwrites := writes_recordTaskCommit info latency
  unfold Call.writes at hwrites
  rw [List.map_append, hwrites]
  unfold Runqlat.recordTaskCommit
  simp only [hopen, hthreshold]
  split
  · simpa using hstore.covered
  · next hne =>
      split
      · exact hstore.covered.keepTrace hstore.wf hn (Nat.pos_of_ne_zero hne) latency
      · exact hstore.covered.dropTrace hstore.wf hn

theorem Ok.updateCurr (h : Ok (info, log)) (hpid : info.pid ≠ invalidPid)
    (next : TaskStruct) : Ok (updateCurr info next, log) := by
  unfold Runqlat.updateCurr
  split
  · exact h.of_same rfl rfl rfl rfl (.inl rfl) fun heq => absurd heq hpid
  · exact h

@[simp] theorem updateCurr_pid (info : Info) (next : TaskStruct) :
    (updateCurr info next).pid = info.pid := by
  unfold updateCurr
  split <;> rfl

@[simp] theorem updateCurr_nrTrace (info : Info) (next : TaskStruct) :
    (updateCurr info next).nrTrace = info.nrTrace := by
  unfold updateCurr
  split <;> rfl

theorem Ok.watchedSwitch (h : Ok (info, log)) (hpid : info.pid ≠ invalidPid) (e : Switch) :
    Follows log (watchedSwitch info e) := by
  have hcurr := h.updateCurr hpid e.next
  have hpid' : (Runqlat.updateCurr info e.next).pid ≠ invalidPid := by rwa [updateCurr_pid]
  have hrec := hcurr.recordSince hpid' e.prev e.now
  unfold Runqlat.watchedSwitch
  dsimp only
  split
  · -- the traced task is switched in: the commit follows a call that may have disabled the
    -- tracer, but the open entry is still there
    have hn : (Runqlat.recordSince (Runqlat.updateCurr info e.next) e.prev e.now).1.nrTrace
        < maxTraceEntries := by
      rw [recordSince_nrTrace, updateCurr_nrTrace]
      exact (h.wf.strict hpid).1
    refine ⟨?_, ?_⟩
    · rw [List.flatMap_append, List.flatMap_singleton, ← List.append_assoc]
      exact hrec.ok.recordTaskCommit hn _
    · intro c hc
      rcases List.mem_append.mp hc with hc | hc
      · exact hrec.inBounds c hc
      · rw [List.mem_singleton.mp hc]
        exact ⟨hn, latencyIndex_lt _⟩
  · split
    · split
      · refine Ok.follows ?_
        exact hcurr.of_same rfl rfl rfl rfl (.inl rfl) hcurr.wf.no_curr
      · refine Ok.follows ?_
        exact hcurr.of_same rfl rfl rfl rfl (.inl rfl) fun _ => rfl
    · exact ⟨hrec.ok.of_same rfl rfl rfl rfl (.inl rfl) hrec.ok.wf.no_curr, hrec.inBounds⟩

theorem Ok.schedSwitch (h : Ok (info, log)) (e : Switch) :
    Follows log (probeSchedSwitch info e) := by
  unfold probeSchedSwitch
  split
  · exact h.follows
  · next hpid =>
      split
      · exact h.follows
      · split
        · split
          · exact h.follows
          · have hbegin : Ok ({ info with
                rqStart := e.now, runStart := e.now, cpu := e.prev.cpu }, log) :=
              h.of_same rfl rfl rfl rfl (.inl rfl) h.wf.no_curr
            exact (hbegin.updateCurr hpid e.next).follows
        · exact h.watchedSwitch hpid e

theorem Ok.migrate (h : Ok (info, log)) (e : Migrate) :
    Follows log (probeSchedMigrateTask info e) := by
  unfold probeSchedMigrateTask
  split
  · exact h.follows
  · -- `record_task` is reached through `curr` alone, so a pid is traced
    cases hcurr : info.curr with
    | none =>
        refine Ok.follows ?_
        exact h.of_same rfl rfl rfl rfl (.inl rfl) h.wf.no_curr
    | some curr =>
        have hpid : info.pid ≠ invalidPid := by
          intro heq
          have := h.wf.no_curr heq
          simp [hcurr] at this
        have hrec := h.recordSince hpid { curr with comm := e.currComm } e.now
        exact ⟨hrec.ok.of_same rfl rfl rfl rfl (.inl rfl) hrec.ok.wf.no_curr, hrec.inBounds⟩

theorem Ok.wakeup (h : Ok (info, log)) (e : Wakeup) : Ok (probeSchedWakeup info e, log) := by
  unfold probeSchedWakeup
  split
  · exact h
  · exact h.of_same rfl rfl rfl rfl (.inl rfl) h.wf.no_curr

end Probes

/-- A session starts with empty arrays. -/
theorem ok_sessionClear (info : Info) (pid : Int) (hpid : pid ≠ invalidPid) :
    Ok ({ runqlatInfoReset (sessionClear info) with pid := pid }, []) where
  wf := by
    have hroom : 0 < maxTraceEntries ∧ 0 < maxTraceEntryTasks := by decide
    refine ⟨layout_empty ?_, fun _ => hroom, fun heq => absurd heq hpid⟩
    intro i hi
    show (if i < maxTraceEntries then TraceEntry.zero else _).nrTasks = 0
    rw [if_pos hi]
    rfl
  covered := by
    refine ⟨fun k hk => absurd hk (Nat.not_lt_zero k), fun i hi => absurd hi (Nat.not_lt_zero i), ?_⟩
    intro _ hpos
    exact absurd hpos (Nat.lt_irrefl 0)
  exact := by
    intro s hs
    cases s with
    | latency i | nrTasks i | entries i =>
        have hi : i < maxTraceEntries := hs
        simp only [Info.cell, sessionClear, runqlatInfoReset, if_pos hi]
        rfl
    | task k =>
        have hk : k < maxTraceEntryTasks := hs
        simp only [Info.cell, sessionClear, runqlatInfoReset, if_pos hk]
        rfl

theorem ok_init : Ok (Info.init, []) where
  wf := ⟨layout_empty fun _ _ => rfl, fun hne => absurd rfl hne, fun _ => rfl⟩
  covered :=
    ⟨fun k hk => absurd hk (Nat.not_lt_zero k), fun i hi => absurd hi (Nat.not_lt_zero i),
      fun _ hpos => absurd hpos (Nat.lt_irrefl 0)⟩
  exact := fun s _ => by cases s <;> rfl

theorem Ok.tracePid {info : Info} {log : List (Slot × Cell)} (h : Ok (info, log)) (pid : Option Int) :
    Ok ((tracePidStore info pid).2, written log info (.tracePid pid)) := by
  have hwritten : written log info (.tracePid pid)
      = if startsSession info (.tracePid pid) then [] else log := by
    simp [written, calls, handle]
  rw [hwritten]
  rcases tracePid_cases info pid with ⟨hsame, hno⟩ | ⟨hstop, hno⟩ | ⟨new, hnew, hstart, hyes⟩
  · rw [hsame, hno]
    exact h
  · rw [hstop, hno]
    exact h.of_same rfl rfl rfl rfl (.inr rfl) fun _ => rfl
  · rw [hstart, hyes]
    exact ok_sessionClear info new hnew

/-- **What one step preserves**, and that its calls stay in bounds. -/
theorem Ok.step {info : Info} {log : List (Slot × Cell)} (h : Ok (info, log)) (e : Event) :
    Ok (step info e, written log info e) ∧ ∀ c ∈ calls info e, c.InBounds := by
  cases e with
  | wakeup e => exact ⟨(h.wakeup e).follows.ok, (h.wakeup e).follows.inBounds⟩
  | schedSwitch e => exact ⟨(h.schedSwitch e).ok, (h.schedSwitch e).inBounds⟩
  | migrate e => exact ⟨(h.migrate e).ok, (h.migrate e).inBounds⟩
  | tracePid pid => exact ⟨h.tracePid pid, fun _ hc => absurd hc List.not_mem_nil⟩
  | threshold threshold =>
      have hstore : Ok ((thresholdStore info threshold).2, log) := by
        cases threshold with
        | none => exact h
        | some _ => exact h.of_same rfl rfl rfl rfl (.inl rfl) h.wf.no_curr
      exact ⟨hstore.follows.ok, hstore.follows.inBounds⟩

/-- A state that satisfies the invariant for some history; the other properties of the tracer
are proved about such states. -/
def Sound (info : Info) : Prop := ∃ log, Ok (info, log)

theorem sound_init : Sound Info.init := ⟨[], ok_init⟩

theorem Sound.step {info : Info} (h : Sound info) (e : Event) : Sound (Runqlat.step info e) := by
  obtain ⟨log, hok⟩ := h
  exact ⟨_, (hok.step e).1⟩

theorem Sound.wf {info : Info} (h : Sound info) : Wf info := by
  obtain ⟨_, hok⟩ := h
  exact hok.wf

/-! ## What is shown -/

/-- Another state that has the same in the slots that are read shows the same. -/
theorem runqlatShow_congr {info info' : Info} (hpid : info'.pid = info.pid)
    (htrace : info'.nrTrace = info.nrTrace)
    (hcell : ∀ s ∈ showReads info, info'.cell s = info.cell s) :
    runqlatShow info' = runqlatShow info := by
  have hshow : ∀ i ∈ List.range info.nrTrace, showTrace info' i = showTrace info i := by
    intro i hi
    have hmem : ∀ s ∈ [Slot.latency i, .nrTasks i, .entries i] ++
        (List.range (info.traceEntries i).nrTasks).map fun j =>
          .task ((info.traceEntries i).entries.getD 0 + j), info'.cell s = info.cell s :=
      fun s hs => hcell s (List.mem_flatMap.mpr ⟨i, hi, hs⟩)
    have hlatency := Cell.latency.inj (hmem (.latency i) (by simp))
    have hnr := Cell.nrTasks.inj (hmem (.nrTasks i) (by simp))
    have hentries := Cell.entries.inj (hmem (.entries i) (by simp))
    unfold showTrace
    simp only [hlatency, hnr, hentries, ShownTrace.mk.injEq, true_and]
    refine List.map_congr_left fun j hj => ?_
    have htask := Cell.task.inj (hmem (.task ((info.traceEntries i).entries.getD 0 + j))
      (List.mem_append_right _ (List.mem_map.mpr ⟨j, hj, rfl⟩)))
    rw [htask]
  unfold runqlatShow
  rw [hpid, htrace, List.map_congr_left hshow]

/-- What is shown of a committed entry is what was stored. -/
theorem Ok.printed {info : Info} {log : List (Slot × Cell)} (h : Ok (info, log)) {i : Nat}
    (hi : i < info.nrTrace) : Printed (replay log) i (showTrace info i) := by
  have hwf : Wf info := h.wf
  have hlt : i < maxTraceEntries := hi.trans_le hwf.layout.nrTrace_le
  obtain ⟨-, hstart⟩ := hwf.layout.committed i hi
  have hend := base_end_le info.traceEntries hi
  have heq := hwf.layout.nrTask_eq
  have hle := hwf.layout.nrTask_le
  refine ⟨⟨_, (h.exact (.latency i) hlt).symm, rfl⟩, (h.exact (.nrTasks i) hlt).symm,
    base info.traceEntries i, ?_, ?_⟩
  · rw [← h.exact (.entries i) hlt, ← hstart]
    rfl
  · unfold showTrace
    rw [List.forall₂_map_right_iff, List.forall₂_same]
    intro j hj
    have hj : j < (info.traceEntries i).nrTasks := List.mem_range.mp hj
    have hslot : (Slot.task (base info.traceEntries i + j)).InArray := by
      show base info.traceEntries i + j < maxTraceEntryTasks
      omega
    refine ⟨info.taskEntries (base info.traceEntries i + j), (h.exact _ hslot).symm, ?_⟩
    dsimp only
    rw [hstart, Option.getD_some]

/-- **The representation invariant.** After every sequence of events, the counters are within
the arrays, and strictly so while a pid is traced; the trace entries own consecutive runs of
the task entries up to `nr_task`; and the arrays hold what the calls have stored since the session
started. What `runqlat_show` prints depends on slots that were written since then, and no others, and
is what was stored there. On the way no call has left the arrays and `record_task` has not warned. -/
theorem representation_invariant (es : List Event) :
    let w := run (observe step written) (Info.init, []) es
    Wf w.1 ∧ (∀ s : Slot, s.InArray → w.1.cell s = replay w.2 s)
      ∧ (∀ s ∈ showReads w.1, s ∈ w.2.map Prod.fst)
      ∧ (∀ info' : Info, info'.pid = w.1.pid → info'.nrTrace = w.1.nrTrace →
        (∀ s ∈ showReads w.1, info'.cell s = w.1.cell s) → runqlatShow info' = runqlatShow w.1)
      ∧ (w.1.pid = invalidPid → ∃ shown, runqlatShow w.1 = .ok shown
        ∧ List.Forall₂ (Printed (replay w.2)) (List.range w.1.nrTrace) shown)
      ∧ Steps step (fun info e => ∀ c ∈ calls info e, c.InBounds) Info.init es := by
  intro w
  have hstep : ∀ (w : Info × List (Slot × Cell)) (e : Event), Ok w → True →
      Ok (observe step written w e) := fun _ e h _ => (h.step e).1
  have htrue : Steps (observe step written) (fun _ _ => True) (Info.init, []) es :=
    Steps.of_forall fun _ _ => trivial
  have hok : Ok w := inv_run hstep ok_init htrue
  have hcalls : Steps (observe step written) (fun w e => ∀ c ∈ calls w.1 e, c.InBounds)
      (Info.init, []) es :=
    Steps.of_inv hstep (fun _ e h _ => (h.step e).2) ok_init htrue
  have hplain : Steps step (fun info e => ∀ c ∈ calls info e, c.InBounds) Info.init es :=
    (steps_observe_iff (P := fun info e => ∀ c ∈ calls info e, c.InBounds) _ es).mp hcalls
  refine ⟨hok.wf, hok.exact, hok.covered.showReads hok.wf, fun info' => runqlatShow_congr, ?_, hplain⟩
  intro hpid
  refine ⟨_, if_neg (not_not_intro hpid), ?_⟩
  rw [List.forall₂_map_right_iff, List.forall₂_same]
  exact fun i hi => hok.printed (List.mem_range.mp hi)

/-- Task 7 is woken and has to wait 30 ms for task 1. -/
def oneWait : List Event :=
  [.tracePid (some 7), .wakeup ⟨1000000, ⟨7, Comm.empty, false, taskRunning, 0⟩⟩,
    .schedSwitch ⟨31000000, 0, ⟨1, Comm.empty, false, taskRunning, 0⟩,
      ⟨7, Comm.empty, false, taskRunning, 0⟩⟩,
    .tracePid (some (-1))]

theorem representation_invariant_oneWait :
    let w := run (observe step written) (Info.init, []) oneWait
    w.1.pid = invalidPid ∧ ∃ shown, runqlatShow w.1 = .ok shown
      ∧ List.Forall₂ (Printed (replay w.2)) [0] shown
      ∧ shown = [⟨30000, 1, [⟨30000, 1, Comm.empty⟩]⟩] := by
  intro w
  have hpid : w.1.pid = invalidPid := by decide
  obtain ⟨shown, hshown, hprinted⟩ := (representation_invariant oneWait).2.2.2.2.1 hpid
  have hvalue : runqlatShow w.1 = .ok [⟨30000, 1, [⟨30000, 1, Comm.empty⟩]⟩] := by decide
  exact ⟨hpid, shown, hshown, hprinted, Except.ok.inj (hshown.symm.trans hvalue)⟩

end UioLinuxSample.Runqlat
