import UioLinuxSample.SharedRecords
import UioLinuxSample.StackRecords

set_option autoImplicit false

/-! # `stack_trace` and `trace_latency`, read while they are written

Both tracers are writers in the sense of `SharedRecords.lean`. So a read of their file that runs at
the same time as the handlers shows a part of what it would show when they are at rest
(`concurrent_show`). A clear that becomes visible in the middle of it breaks this: the next record is
written over the one that is being printed.
-/

namespace UioLinuxSample

open Run WeakMemory

/-! ## The stores of a save -/

/-- What is stored for a new record. -/
structure NewRecord (τ : Type) where
  comm : Comm
  pid : Int
  /-- The values that its time gets, the last one to stay. -/
  times : List τ
  words : List UInt64
  /-- The last word is an end marker, which is taken off again. -/
  marker : Bool

section Save

variable {τ : Type}

def plain (s : Store τ) : Issued (Store τ) := ⟨s, false⟩

/-- The entries of a record that are kept. -/
def NewRecord.kept (n : NewRecord τ) : Nat :=
  if n.marker then n.words.length - 1 else n.words.length

/-- The stores before the counter is moved. -/
def NewRecord.body (n : NewRecord τ) (R : Records τ) : List (Store τ) :=
  [Store.comm R.nrRecords n.comm, Store.pid R.nrRecords n.pid]
    ++ n.times.map (Store.time R.nrRecords)
    ++ [Store.base R.nrRecords (some R.nrEntries)]
    ++ n.words.zipIdx.map (fun p => Store.entry (R.nrEntries + p.2) p.1)
    ++ [Store.len R.nrRecords n.words.length]
    ++ (if n.marker then [Store.len R.nrRecords (n.words.length - 1)] else [])
    ++ [Store.nrEntries (R.nrEntries + n.kept)]

def NewRecord.stores (n : NewRecord τ) (R : Records τ) : List (Issued (Store τ)) :=
  (n.body R).map plain ++ [⟨.nrRecords (R.nrRecords + 1), true⟩]

/-- The buffer with a new record. -/
def Records.push (R : Records τ) (n : NewRecord τ) : Records τ where
  nrRecords := R.nrRecords + 1
  nrEntries := R.nrEntries + n.kept
  comms := Function.update R.comms R.nrRecords n.comm
  pids := Function.update R.pids R.nrRecords n.pid
  times := n.times.foldl (fun f t => Function.update f R.nrRecords t) R.times
  traces := Function.update R.traces R.nrRecords ⟨n.kept, some R.nrEntries⟩
  entries := blit R.entries R.nrEntries n.words

variable (R : Records τ) (n : NewRecord τ)

theorem foldl_entry (words : List UInt64) (R : Records τ) (off k : Nat) :
    ((words.zipIdx k).map fun p => Store.entry (τ := τ) (off + p.2) p.1).foldl Records.store R
      = { R with entries := blit R.entries (off + k) words } := by
  induction words generalizing R k with
  | nil =>
      rw [blit_nil]
      rfl
  | cons x words ih =>
      rw [List.zipIdx_cons, List.map_cons, List.foldl_cons, ih, blit_cons]
      rfl

theorem foldl_time (times : List τ) (R : Records τ) (i : Nat) :
    (times.map (Store.time i)).foldl Records.store R
      = { R with times := times.foldl (fun f t => Function.update f i t) R.times } := by
  induction times generalizing R with
  | nil => rfl
  | cons t times ih =>
      rw [List.map_cons, List.foldl_cons, ih]
      rfl

theorem written_plain (l : List (Store τ)) (R : Records τ) :
    (recordLayout τ).written R (l.map plain) = l.foldl Records.store R := by
  unfold Layout.written
  rw [List.foldl_map]
  rfl

theorem written_stores : (recordLayout τ).written R (n.stores R) = R.push n := by
  obtain ⟨comm, pid, times, words, marker⟩ := n
  unfold NewRecord.stores NewRecord.body
  rw [written_append, written_plain]
  simp only [List.foldl_append, List.foldl_cons, List.foldl_nil, foldl_time, foldl_entry]
  cases marker <;>
    simp [Records.store, Records.push, NewRecord.kept, Layout.written, recordLayout,
      Function.update_idem]

/-- Every store of a save is made behind the records that are there. -/
theorem spares_body : ∀ s ∈ n.body R, ¬ R.Sealed s.cell ∧ s.cell ≠ .nrRecords := by
  intro s hs
  simp only [NewRecord.body, List.mem_append, List.mem_cons, List.not_mem_nil, or_false,
    List.mem_map] at hs
  rcases hs with (((((((rfl | rfl) | ⟨t, -, rfl⟩) | rfl) | ⟨p, -, rfl⟩) | rfl) | hmarker) | rfl)
  case inl.inr =>
    split at hmarker
    · rw [List.mem_singleton.mp hmarker]
      exact ⟨Nat.lt_irrefl _, nofun⟩
    · cases hmarker
  case inl.inl.inl.inr => exact ⟨Nat.not_lt.mpr (Nat.le_add_right _ _), nofun⟩
  all_goals first | exact ⟨Nat.lt_irrefl _, nofun⟩ | exact ⟨id, nofun⟩

theorem inside_push (hR : R.Inside) : (R.push n).Inside := by
  intro i hi
  rcases Nat.lt_succ_iff_lt_or_eq.mp hi with hold | rfl
  · obtain ⟨off, hoff, hle⟩ := hR i hold
    have hsame : (R.push n).traces i = R.traces i := Function.update_of_ne hold.ne _ _
    refine ⟨off, hsame ▸ hoff, ?_⟩
    rw [hsame]
    exact hle.trans (Nat.le_add_right _ _)
  · have hnew : (R.push n).traces R.nrRecords = ⟨n.kept, some R.nrEntries⟩ :=
      Function.update_self _ _ _
    rw [hnew]
    exact ⟨R.nrEntries, rfl, Nat.le_refl _⟩

theorem block_stores (hR : R.Inside) (htimes : n.times ≠ []) : Block R (n.stores R) := by
  have hbody : ∀ s ∈ (n.body R).map plain, ¬ R.Sealed s.store.cell ∧ s.store.cell ≠ .nrRecords := by
    intro s hs
    obtain ⟨s', hs', rfl⟩ := List.mem_map.mp hs
    exact spares_body R n s' hs'
  constructor
  · intro s hs
    rcases List.mem_append.mp hs with hs | hs
    · exact (hbody s hs).1
    · rw [List.mem_singleton.mp hs]
      exact id
  · intro s hs hcell
    rcases List.mem_append.mp hs with hs | hs
    · exact absurd hcell (hbody s hs).2
    · rw [List.mem_singleton.mp hs]
  · intro j s hat hcell
    unfold NewRecord.stores at hat ⊢
    rcases Nat.lt_or_ge j ((n.body R).map plain).length with hlt | hge
    · rw [List.getElem?_append_left hlt] at hat
      exact absurd hcell (hbody s (List.mem_of_getElem? hat)).2
    · have hbound := (List.getElem?_eq_some_iff.mp hat).1
      rw [List.length_append, List.length_singleton] at hbound ⊢
      omega
  · rw [written_stores]
    intro c hc
    cases c with
    | comm i | pid i | base i | len i => exact Nat.lt_succ_of_lt hc
    | entry k => exact Nat.lt_of_lt_of_le hc (Nat.le_add_right _ _)
    | nrRecords | nrEntries | time i => exact hc
  · rw [written_stores]
    exact inside_push R n hR
  · rw [written_stores]
    intro i hge hlt
    have hi : i = R.nrRecords := Nat.le_antisymm (Nat.lt_succ_iff.mp hlt) hge
    obtain ⟨t, ht⟩ := List.exists_mem_of_ne_nil n.times htimes
    refine ⟨plain (.time R.nrRecords t), List.mem_append_left _ (List.mem_map_of_mem ?_), hi ▸ rfl⟩
    simp [NewRecord.body, ht]

/-- A handler that stores nothing. -/
theorem block_nil {R : Records τ} (hR : R.Inside) : Block R [] where
  spares := nofun
  release := nofun
  last := nofun
  grows := fun _ hc => hc
  inside := hR
  timed := fun _ hge hlt => absurd hlt (not_lt.mpr hge)

/-- A handler that changes a time. -/
theorem block_time {R : Records τ} (hR : R.Inside) (i : Nat) (t : τ) :
    Block R [plain (.time i t)] where
  spares s hs := by
    rw [List.mem_singleton.mp hs]
    exact id
  release s hs hcell := by
    rw [List.mem_singleton.mp hs] at hcell
    cases hcell
  last j s hat hcell := by
    rw [List.mem_singleton.mp (List.mem_of_getElem? hat)] at hcell
    cases hcell
  grows := fun c hc => by cases c <;> exact hc
  inside := hR
  timed := fun _ hge hlt => absurd hlt (not_lt.mpr hge)

end Save

/-- The new record of a save that is made with room for `room` entries. -/
def savedRecord {τ : Type} (k : Kernel) (current : TaskStruct) (regs : Option PtRegs) (u : Unwound)
    (room : Nat) (times : List τ) : NewRecord τ where
  comm := strlcpy current.comm taskCommLen
  pid := current.pid
  times := times
  words := k.saved regs u room
  marker := k.structApi && (k.saved regs u room).getLast? == some ulongMax

theorem savedRecord_kept {τ : Type} (k : Kernel) (current : TaskStruct) (regs : Option PtRegs)
    (u : Unwound) (room : Nat) (times : List τ) :
    (savedRecord k current regs u room times).kept = (k.captured regs u room).length := by
  unfold savedRecord NewRecord.kept Kernel.captured
  dsimp only
  split
  · exact List.length_dropLast.symm
  · rfl

/-! ## `trace_noschedule.c` -/

namespace Noschedule

def toRecords (st : PerCpuStackTrace) : Records UInt64 where
  nrRecords := st.nrStackEntries
  nrEntries := st.nrEntries
  comms := st.comms
  pids := st.pids
  times := st.duration
  traces := st.stackEntries
  entries := st.entries

/-- What touches the records of a CPU. -/
inductive RecordEvent where
  | save (c : Capture) (duration : UInt64)
  | schedSwitch (w : Switch)
  | clear

def newRecord (k : Kernel) (st : PerCpuStackTrace) (c : Capture) (duration : UInt64) :
    NewRecord UInt64 :=
  savedRecord k c.current c.regs c.unwound (maxTraceEntries - st.nrEntries) [duration]

/-- `__stack_trace_record`, `probe_sched_switch` and `each_stack_trace_clear` as a writer. -/
def recorder (k : Kernel) : Recorder PerCpuStackTrace RecordEvent UInt64 where
  step st
    | .save c duration => (rawStackTraceRecord k st c duration).2
    | .schedSwitch w => completeSwitch st w
    | .clear => eachStackTraceClear st
  stores st
    | .save c duration =>
        if HasRoom st then (newRecord k st c duration).stores (toRecords st) else []
    | .schedSwitch w =>
        if st.skip.isSome then
          [plain (.time (durationIndex st) (w.now - st.lastTimestamp))]
        else []
    | .clear => [plain (.nrEntries 0), plain (.nrRecords 0)]
  records := toRecords

theorem toRecords_publish (k : Kernel) (st : PerCpuStackTrace) (c : Capture) (d : UInt64) :
    toRecords (publish k st c d) = (toRecords st).push (newRecord k st c d) := by
  unfold publish toRecords Records.push newRecord
  simp only [storeStackTrace_eq, savedRecord_kept]
  rfl

theorem toRecords_histUpdate (st : PerCpuStackTrace) (d : UInt64) :
    toRecords (histUpdate st d) = toRecords st := by
  unfold histUpdate
  dsimp only
  split <;> rfl

theorem toRecords_completeSwitch (st : PerCpuStackTrace) (w : Switch) :
    toRecords (completeSwitch st w)
      = if st.skip.isSome then
          (toRecords st).store (.time (durationIndex st) (w.now - st.lastTimestamp))
        else toRecords st := by
  unfold completeSwitch
  dsimp only
  rw [apply_ite toRecords, toRecords_histUpdate, ite_self]
  cases st.skip <;> rfl

theorem written_recorder (k : Kernel) (st : PerCpuStackTrace) (e : RecordEvent) :
    (recordLayout UInt64).written (toRecords st) ((recorder k).stores st e)
      = toRecords ((recorder k).step st e) := by
  cases e with
  | clear => rfl
  | save c d =>
      simp only [recorder, rawStackTraceRecord_eq]
      split
      · rw [written_stores, toRecords_publish]
      · rfl
  | schedSwitch w =>
      simp only [recorder, toRecords_completeSwitch]
      split <;> rfl

theorem block_recorder (k : Kernel) {st : PerCpuStackTrace} {e : RecordEvent} (hclear : e ≠ .clear)
    (h : (toRecords st).Inside) : Block (toRecords st) ((recorder k).stores st e) := by
  cases e with
  | clear => exact absurd rfl hclear
  | save c d =>
      simp only [recorder]
      split
      · exact block_stores _ _ h (List.cons_ne_nil _ _)
      · exact block_nil h
  | schedSwitch w =>
      simp only [recorder]
      split
      · exact block_time h _ _
      · exact block_nil h

theorem publishes (k : Kernel) : (recorder k).Publishes .clear :=
  ⟨fun _ => rfl, written_recorder k, fun _ _ => block_recorder k⟩

end Noschedule

/-! ## `trace_irqoff.c` -/

namespace Irqoff

def toRecords (m : StackTraceMetadata) : Records Latency where
  nrRecords := m.nrIrqoffTrace
  nrEntries := m.nrEntries
  comms := m.comms
  pids := m.pids
  times := m.latency
  traces := m.trace
  entries := m.entries

/-- What touches the records of one buffer. -/
inductive RecordEvent where
  | save (c : Capture) (regs : Option PtRegs) (more : Bool) (latency : UInt64)
  | clear

/-- The two fields of a latency share a word, which is stored twice. -/
def newRecord (k : Kernel) (m : StackTraceMetadata) (c : Capture) (regs : Option PtRegs)
    (more : Bool) (latency : UInt64) : NewRecord Latency :=
  savedRecord k c.current regs c.unwound (maxTraceEntries - m.nrEntries)
    [⟨nsecs63 latency, (m.latency m.nrIrqoffTrace).more⟩, ⟨nsecs63 latency, more⟩]

/-- `save_trace` and `smp_clear_stack_trace` as a writer. -/
def recorder (k : Kernel) : Recorder StackTraceMetadata RecordEvent Latency where
  step m
    | .save c regs more latency => (saveTraceTo k m c regs more latency).2
    | .clear => m.clear
  stores m
    | .save c regs more latency =>
        if HasRoom m then (newRecord k m c regs more latency).stores (toRecords m) else []
    | .clear => [plain (.nrEntries 0), plain (.nrRecords 0)]
  records := toRecords

theorem toRecords_publish (k : Kernel) (m : StackTraceMetadata) (c : Capture)
    (regs : Option PtRegs) (more : Bool) (latency : UInt64) :
    toRecords (publish k m c regs more latency)
      = (toRecords m).push (newRecord k m c regs more latency) := by
  unfold publish toRecords Records.push newRecord
  simp only [storeStackTrace_eq, savedRecord_kept]
  simp [savedRecord]

theorem written_recorder (k : Kernel) (m : StackTraceMetadata) (e : RecordEvent) :
    (recordLayout Latency).written (toRecords m) ((recorder k).stores m e)
      = toRecords ((recorder k).step m e) := by
  cases e with
  | clear => rfl
  | save c regs more latency =>
      simp only [recorder, saveTraceTo_eq]
      split
      · rw [written_stores, toRecords_publish]
      · rfl

theorem block_recorder (k : Kernel) {m : StackTraceMetadata} {e : RecordEvent} (hclear : e ≠ .clear)
    (h : (toRecords m).Inside) : Block (toRecords m) ((recorder k).stores m e) := by
  cases e with
  | clear => exact absurd rfl hclear
  | save c regs more latency =>
      simp only [recorder]
      split
      · exact block_stores _ _ h (List.cons_ne_nil _ _)
      · exact block_nil h

theorem publishes (k : Kernel) : (recorder k).Publishes .clear :=
  ⟨fun _ => rfl, written_recorder k, fun _ _ => block_recorder k⟩

end Irqoff

/-! ## Reading at the same time -/

section Watch

variable {σ ε τ : Type}

/-- A tracer with its stores and a reader, after a run. -/
def Recorder.watch (T : Recorder σ ε τ) (start : σ) (es : List (SharedEvent ε)) : Shared σ τ :=
  run (T.sharedStep (T.records start)) (Recorder.sharedStart start) es

theorem watched_watch {T : Recorder σ ε τ} {clear : ε} {start : σ} (hT : T.Publishes clear)
    (hinside : (T.records start).Inside) {es : List (SharedEvent ε)}
    (hclear : ∀ e ∈ es, e ≠ .run clear) : Watched T (T.records start) (T.watch start es) := by
  refine inv_run (fun s e h hne => h.step hT hne) ?_
    (Steps.of_forall_mem fun e he _ => hclear e he)
  exact ⟨nofun, rfl, publishing_nil hinside, trivial⟩

end Watch

/-- A task that is caught with a stack of one word. -/
def caught (pid : Int) (word : UInt64) : Noschedule.Capture where
  current := { comm := .empty, pid := pid, idle := false, state := 0, cpu := 0 }
  regs := none
  unwound := { fromRegs := [], fromHere := [word] }

/-- All of the stores up to `n` become visible. -/
def commits {ε : Type} (n : Nat) : List (SharedEvent ε) := (List.range n).map .commit

def loads {ε : Type} (n : Nat) : List (SharedEvent ε) := List.replicate n .load

/-- A record is saved and cleared before. -/
def cleared : List Noschedule.RecordEvent := [.save (caught 5 50) 50000000, .clear]

/-- A record is saved, becomes visible and is read. -/
def wholeRead : List (SharedEvent Noschedule.RecordEvent) :=
  [.run (.save (caught 7 100) 60000000)] ++ commits 8 ++ loads 9

/-- The buffer is cleared and filled again after the process has printed the first line. -/
def tornRead : List (SharedEvent Noschedule.RecordEvent) :=
  [.run (.save (caught 7 100) 60000000)] ++ commits 8 ++ loads 4
    ++ [.run .clear, .run (.save (caught 9 200) 70000000)] ++ commits 18 ++ loads 5

-- the stack of task 9 is shown for task 7
example : ((Noschedule.recorder ⟨false, false⟩).watch .zero tornRead).reader
    = .done [⟨.empty, 7, 60000000, [200]⟩] := by
  decide +kernel

/-- The buffer is cleared before the process starts to read, but the clear becomes visible later. -/
def lateClear : List (SharedEvent Noschedule.RecordEvent) :=
  [.run (.save (caught 7 100) 60000000)] ++ commits 8
    ++ [.run .clear, .run (.save (caught 9 200) 70000000)] ++ loads 4 ++ commits 18 ++ loads 5

example : ((Noschedule.recorder ⟨false, false⟩).watch .zero lateClear).reader
    = .done [⟨.empty, 7, 60000000, [200]⟩] := by
  decide +kernel

end UioLinuxSample
