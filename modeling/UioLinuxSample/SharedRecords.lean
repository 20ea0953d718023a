import UioLinuxSample.Kernel
import UioLinuxSample.Lib.Run
import UioLinuxSample.Lib.WeakMemory

set_option autoImplicit false

/-! # Reading the stack records while they are written

`trace_irqoff.c` and `trace_noschedule.c` save their records in an interrupt handler, without a lock,
while a process on another CPU may be reading them through a file. A save writes the record to memory
that no counter covers yet and then moves the counter with `smp_store_release`; the reader starts with
`smp_load_acquire`.

The two tracers have the same arrays. Here is what they share: the arrays as memory cells, the reader
as a machine that loads one cell in a step, and the argument that a reader finds every record whole
(`Watched.done`), whatever becomes visible to it when, as long as nothing is cleared. All that was
stored before, clears included, is taken to be visible at the start.
-/

namespace UioLinuxSample

open Run WeakMemory

/-! ## The memory -/

/-- The arrays of a record buffer. The time of a record is a `duration` or a `latency`. -/
structure Records (τ : Type) where
  nrRecords : Nat
  nrEntries : Nat
  comms : Nat → Comm
  pids : Nat → Int
  times : Nat → τ
  traces : Nat → StackEntry
  entries : Nat → UInt64

inductive Cell where
  | nrRecords
  | nrEntries
  | comm (i : Nat)
  | pid (i : Nat)
  | time (i : Nat)
  | base (i : Nat)
  | len (i : Nat)
  | entry (k : Nat)
  deriving DecidableEq

inductive Store (τ : Type) where
  | nrRecords (n : Nat)
  | nrEntries (n : Nat)
  | comm (i : Nat) (comm : Comm)
  | pid (i : Nat) (pid : Int)
  | time (i : Nat) (time : τ)
  /-- The pointer `entries` of a record. -/
  | base (i : Nat) (off : Option Nat)
  | len (i : Nat) (n : Nat)
  | entry (k : Nat) (word : UInt64)

/-- What a cell holds. -/
inductive Value (τ : Type) where
  | num (n : Nat)
  | comm (comm : Comm)
  | pid (pid : Int)
  | time (time : τ)
  | base (off : Option Nat)
  | word (word : UInt64)

section Memory

variable {τ : Type}

def Store.cell : Store τ → Cell
  | .nrRecords _ => .nrRecords
  | .nrEntries _ => .nrEntries
  | .comm i _ => .comm i
  | .pid i _ => .pid i
  | .time i _ => .time i
  | .base i _ => .base i
  | .len i _ => .len i
  | .entry k _ => .entry k

def Store.value : Store τ → Value τ
  | .nrRecords n | .nrEntries n | .len _ n => .num n
  | .comm _ c => .comm c
  | .pid _ p => .pid p
  | .time _ t => .time t
  | .base _ off => .base off
  | .entry _ x => .word x

namespace Records

def get (R : Records τ) : Cell → Value τ
  | .nrRecords => .num R.nrRecords
  | .nrEntries => .num R.nrEntries
  | .comm i => .comm (R.comms i)
  | .pid i => .pid (R.pids i)
  | .time i => .time (R.times i)
  | .base i => .base (R.traces i).entries
  | .len i => .num (R.traces i).nrEntries
  | .entry k => .word (R.entries k)

def store (R : Records τ) : Store τ → Records τ
  | .nrRecords n => { R with nrRecords := n }
  | .nrEntries n => { R with nrEntries := n }
  | .comm i c => { R with comms := Function.update R.comms i c }
  | .pid i p => { R with pids := Function.update R.pids i p }
  | .time i t => { R with times := Function.update R.times i t }
  | .base i off =>
      { R with traces := Function.update R.traces i { R.traces i with entries := off } }
  | .len i n => { R with traces := Function.update R.traces i { R.traces i with nrEntries := n } }
  | .entry k x => { R with entries := Function.update R.entries k x }

theorem get_store_self (R : Records τ) (s : Store τ) : (R.store s).get s.cell = s.value := by
  cases s <;> simp [get, store, Store.cell, Store.value]

theorem get_store_of_ne (R : Records τ) {s : Store τ} {c : Cell} (h : s.cell ≠ c) :
    (R.store s).get c = R.get c := by
  cases s <;> cases c <;> simp_all [get, store, Store.cell, Function.update_of_ne, Ne.symm]
  -- the two fields of a `StackEntry` are two cells
  case base.len i _ j => rcases eq_or_ne j i with rfl | hne <;> simp [*]
  case len.base i _ j => rcases eq_or_ne j i with rfl | hne <;> simp [*]

end Records

/-- The buffer as shared memory. -/
def recordLayout (τ : Type) : Layout (Records τ) (Store τ) Cell := ⟨Records.store, Store.cell⟩

theorem isCell_get (c : Cell) : (recordLayout τ).IsCell (fun R => R.get c) c where
  other R _ hne := R.get_store_of_ne hne
  same R R' s h := by
    show (R.store s).get c = (R'.store s).get c
    by_cases hcell : s.cell = c
    · subst hcell
      rw [R.get_store_self, R'.get_store_self]
    · rw [R.get_store_of_ne hcell, R'.get_store_of_ne hcell]
      exact h

namespace Records

/-- The cells that belong to the records that are there. The time of a record may still change. -/
def Sealed (R : Records τ) : Cell → Prop
  | .comm i | .pid i | .base i | .len i => i < R.nrRecords
  | .entry k => k < R.nrEntries
  | .nrRecords | .nrEntries | .time _ => False

/-- The stack of every record is inside of the entries in use. -/
def Inside (R : Records τ) : Prop :=
  ∀ i < R.nrRecords, ∃ off, (R.traces i).entries = some off
    ∧ off + (R.traces i).nrEntries ≤ R.nrEntries

/-- A record as its file shows it, without the time. -/
def record (R : Records τ) (i : Nat) : (Comm × Int) × List UInt64 :=
  ((R.comms i, R.pids i), seqPrintStackTrace R.entries (R.traces i))

/-- What the file shows when nothing else happens. -/
def shown (R : Records τ) : List ((Comm × Int) × List UInt64) :=
  (List.range R.nrRecords).map R.record

theorem inside_of_empty {R : Records τ} (h : R.nrRecords = 0) : R.Inside := by
  intro i hi
  rw [h] at hi
  exact absurd hi (Nat.not_lt_zero i)

/-- The first records. -/
theorem map_record_prefix {R : Records τ} {n : Nat} (h : n ≤ R.nrRecords) :
    (List.range n).map R.record <+: R.shown := by
  obtain ⟨d, hd⟩ := Nat.exists_eq_add_of_le h
  unfold shown
  rw [hd, List.range_add, List.map_append]
  exact List.prefix_append _ _

end Records

end Memory

/-! ## The reader -/

/-- What is printed of a record. -/
structure Printed (τ : Type) where
  comm : Comm
  pid : Int
  time : τ
  stack : List UInt64
  deriving DecidableEq

/-- The show function for one CPU, before its next load: `nr` is the counter that was loaded first,
`i` the loop variable and `x` what has been printed of record `i`. -/
inductive Reader (τ : Type) where
  | start
  | comm (nr i : Nat) (out : List (Printed τ))
  | pid (nr i : Nat) (out : List (Printed τ)) (c : Comm)
  | time (nr i : Nat) (out : List (Printed τ)) (c : Comm) (p : Int)
  /-- `WARN_ON(!entry->entries)`. -/
  | check (nr i : Nat) (out : List (Printed τ)) (x : Printed τ)
  /-- The test of the loop in `seq_print_stack_trace`. -/
  | len (nr i : Nat) (out : List (Printed τ)) (x : Printed τ)
  | base (nr i : Nat) (out : List (Printed τ)) (x : Printed τ)
  | entry (nr i : Nat) (out : List (Printed τ)) (x : Printed τ) (off : Nat)
  | done (out : List (Printed τ))
  deriving DecidableEq

namespace Reader

variable {τ : Type}

/-- The test of the loop over the records. -/
def next (nr i : Nat) (out : List (Printed τ)) : Reader τ :=
  if i < nr then .comm nr i out else .done out

/-- One load, from what is visible. -/
def step (R : Records τ) : Reader τ → Reader τ
  | .start => next R.nrRecords 0 []
  | .comm nr i out => .pid nr i out (R.comms i)
  | .pid nr i out c => .time nr i out c (R.pids i)
  | .time nr i out c p => .check nr i out ⟨c, p, R.times i, []⟩
  | .check nr i out x =>
      if (R.traces i).entries.isNone then next nr (i + 1) (out ++ [x]) else .len nr i out x
  | .len nr i out x =>
      if x.stack.length < (R.traces i).nrEntries then .base nr i out x
      else next nr (i + 1) (out ++ [x])
  | .base nr i out x => .entry nr i out x ((R.traces i).entries.getD 0)
  | .entry nr i out x off =>
      .len nr i out { x with stack := x.stack ++ [R.entries (off + x.stack.length)] }
  | .done out => .done out

end Reader

/-! ## The writer -/

/-- A tracer on one CPU: what its handlers do, the stores they make to the shared memory, and that
memory as the CPU itself sees it. -/
structure Recorder (σ ε τ : Type) where
  step : σ → ε → σ
  stores : σ → ε → List (Issued (Store τ))
  records : σ → Records τ

/-- The stores of a handler that clears nothing: they spare the records that are there, and the
counter is moved at the end, by a store-release. -/
structure Block {τ : Type} (R : Records τ) (l : List (Issued (Store τ))) : Prop where
  spares : ∀ s ∈ l, ¬ R.Sealed s.store.cell
  release : ∀ s ∈ l, s.store.cell = .nrRecords → s.release = true
  last : ∀ j s, l[j]? = some s → s.store.cell = .nrRecords → j + 1 = l.length
  grows : ∀ c, R.Sealed c → ((recordLayout τ).written R l).Sealed c
  inside : ((recordLayout τ).written R l).Inside
  timed : ∀ i, R.nrRecords ≤ i → i < ((recordLayout τ).written R l).nrRecords →
    ∃ s ∈ l, s.store.cell = .time i

/-- A time was stored for record `i`, if it is not one of the records of `m`. -/
def Timed {τ : Type} (m : Records τ) (log : List (Issued (Store τ))) (i : Nat) : Prop :=
  m.nrRecords ≤ i → ∃ s ∈ log, s.store.cell = .time i

/-- What is known of a moment, after `n` stores, at which no record was half written. -/
structure Settled {τ : Type} (m : Records τ) (log : List (Issued (Store τ))) (n : Nat) : Prop where
  inside : ((recordLayout τ).written m (log.take n)).Inside
  timed : ∀ i < ((recordLayout τ).written m (log.take n)).nrRecords, Timed m (log.take n) i
  grows : ∀ c, ((recordLayout τ).written m (log.take n)).Sealed c →
    ((recordLayout τ).written m log).Sealed c
  spared : ∀ j s, n ≤ j → log[j]? = some s →
    ¬ ((recordLayout τ).written m (log.take n)).Sealed s.store.cell

/-- What holds of the stores of a tracer, as long as nothing is cleared. -/
structure Publishing {τ : Type} (m : Records τ) (log : List (Issued (Store τ))) : Prop where
  inside : ((recordLayout τ).written m log).Inside
  timed : ∀ i < ((recordLayout τ).written m log).nrRecords, Timed m log i
  release : ∀ s ∈ log, s.store.cell = .nrRecords → s.release = true
  start : Settled m log 0
  moved : ∀ r s, log[r]? = some s → s.store.cell = .nrRecords → Settled m log (r + 1)

section Writer

variable {τ : Type} {m : Records τ} {log l : List (Issued (Store τ))} {r : Nat}

theorem written_append (m : Records τ) (log l : List (Issued (Store τ))) :
    (recordLayout τ).written m (log ++ l)
      = (recordLayout τ).written ((recordLayout τ).written m log) l :=
  List.foldl_append

theorem Timed.mono {i : Nat} (h : Timed m log i) {log' : List (Issued (Store τ))}
    (hsub : log ⊆ log') : Timed m log' i := by
  intro hge
  obtain ⟨s, hs, hcell⟩ := h hge
  exact ⟨s, hsub hs, hcell⟩

theorem Settled.append {n : Nat} (h : Settled m log n) (hle : n ≤ log.length)
    (hb : Block ((recordLayout τ).written m log) l) : Settled m (log ++ l) n := by
  have htake : (log ++ l).take n = log.take n := List.take_append_of_le_length hle
  constructor
  · rw [htake]
    exact h.inside
  · rw [htake]
    exact h.timed
  · rw [htake, written_append]
    exact fun c hc => hb.grows c (h.grows c hc)
  · rw [htake]
    intro j s hj hat hsealed
    rcases Nat.lt_or_ge j log.length with hold | hnew
    · rw [List.getElem?_append_left hold] at hat
      exact h.spared j s hj hat hsealed
    · rw [List.getElem?_append_right hnew] at hat
      exact hb.spares s (List.mem_of_getElem? hat) (h.grows _ hsealed)

/-- Nothing has been stored yet. -/
theorem publishing_nil (h : m.Inside) : Publishing m [] := by
  have htimed : ∀ i < m.nrRecords, Timed m [] i := fun i hi hge => absurd hi (not_lt.mpr hge)
  exact ⟨h, htimed, nofun, ⟨h, htimed, fun _ hc => hc, nofun⟩, nofun⟩

theorem Publishing.append (h : Publishing m log) (hb : Block ((recordLayout τ).written m log) l) :
    Publishing m (log ++ l) := by
  have hinside : ((recordLayout τ).written m (log ++ l)).Inside := by
    rw [written_append]
    exact hb.inside
  have htimed : ∀ i < ((recordLayout τ).written m (log ++ l)).nrRecords, Timed m (log ++ l) i := by
    intro i hi
    rw [written_append] at hi
    rcases Nat.lt_or_ge i ((recordLayout τ).written m log).nrRecords with hold | hnew
    · exact (h.timed i hold).mono (List.subset_append_left log l)
    · obtain ⟨s, hs, hcell⟩ := hb.timed i hnew hi
      exact fun _ => ⟨s, List.mem_append_right log hs, hcell⟩
  refine ⟨hinside, htimed, ?_, h.start.append (Nat.zero_le _) hb, ?_⟩
  · intro s hs
    rcases List.mem_append.mp hs with hs | hs
    · exact h.release s hs
    · exact hb.release s hs
  · intro r s hat hcell
    rcases Nat.lt_or_ge r log.length with hold | hnew
    · rw [List.getElem?_append_left hold] at hat
      exact (h.moved r s hat hcell).append hold hb
    · -- the new store is the last one, so its moment is now
      rw [List.getElem?_append_right hnew] at hat
      have hlast := hb.last (r - log.length) s hat hcell
      have hall : (log ++ l).take (r + 1) = log ++ l := by
        apply List.take_of_length_le
        rw [List.length_append]
        omega
      constructor
      · rw [hall]
        exact hinside
      · rw [hall]
        exact htimed
      · rw [hall]
        exact fun c hc => hc
      · intro j s' hj hat'
        have hlt : j < (log ++ l).length := (List.getElem?_eq_some_iff.mp hat').1
        rw [List.length_append] at hlt
        omega

end Writer

/-! ## What the reader finds -/

/-- The last of the first `n` stores, if there is one, is a store to the counter that is visible. -/
def Reached {τ : Type} (w : World (Store τ)) (n : Nat) : Prop :=
  n = 0 ∨ ∃ r s, n = r + 1 ∧ r ∈ w.visible ∧ w.log[r]? = some s ∧ s.store.cell = .nrRecords

/-- The buffer at the start, or at a store to the counter that is visible. -/
structure Snapshot {τ : Type} (m : Records τ) (w : World (Store τ)) (R : Records τ) : Prop where
  exists_reached : ∃ n, Reached w n ∧ R = (recordLayout τ).written m (w.log.take n)

/-- This time was stored for a record, or the record has had it from the start. -/
def Stored {τ : Type} (m : Records τ) (w : World (Store τ)) (i : Nat) (t : τ) : Prop :=
  (∃ s ∈ w.log, s.store = .time i t) ∨ (i < m.nrRecords ∧ t = m.times i)

section Found

variable {τ : Type} {m R : Records τ} {w w' : World (Store τ)} {c : Cell} {i : Nat}

theorem Reached.settled {n : Nat} (h : Reached w n) (hp : Publishing m w.log) :
    Settled m w.log n := by
  rcases h with rfl | ⟨r, s, rfl, -, hat, hcell⟩
  · exact hp.start
  · exact hp.moved r s hat hcell

theorem Reached.le {n : Nat} (h : Reached w n) (hw : (recordLayout τ).Coherent w) :
    n ≤ w.log.length := by
  rcases h with rfl | ⟨r, s, rfl, hvisible, -, -⟩
  · exact Nat.zero_le _
  · exact (hw r hvisible).1

/-- What is found in a cell is what the writer had in it at that moment, or later. -/
theorem Reached.seen {n : Nat} (h : Reached w n) (hw : (recordLayout τ).Coherent w)
    (hp : Publishing m w.log) (c : Cell) :
    ∃ n', n ≤ n' ∧ ((recordLayout τ).seen m w).get c
      = ((recordLayout τ).written m (w.log.take n')).get c := by
  rcases h with rfl | ⟨r, s, rfl, hvisible, hat, hcell⟩
  · obtain ⟨n', -, hseen, -, -⟩ := hw.seen_eq (isCell_get c) m
    exact ⟨n', Nat.zero_le _, hseen⟩
  · have hrelease := hp.release s (List.mem_of_getElem? hat) hcell
    obtain ⟨n', hlt, -, hseen⟩ := hw.seen_after (isCell_get c) m hvisible hat hrelease
    exact ⟨n', hlt, hseen⟩

/-- A cell that belongs to a record does not change any more. -/
theorem Settled.written_get {n n' : Nat} (h : Settled m w.log n) (hle : n ≤ n')
    (hc : ((recordLayout τ).written m (w.log.take n)).Sealed c) :
    ((recordLayout τ).written m (w.log.take n')).get c
      = ((recordLayout τ).written m (w.log.take n)).get c := by
  refine (isCell_get c).written_take_le hle fun j s hnj _ hat hsame => ?_
  have hsame' : s.store.cell = c := hsame
  exact h.spared j s hnj hat (hsame' ▸ hc)

theorem Snapshot.seen_get (h : Snapshot m w R) (hw : (recordLayout τ).Coherent w)
    (hp : Publishing m w.log) (hc : R.Sealed c) :
    ((recordLayout τ).seen m w).get c = R.get c := by
  obtain ⟨n, hreached, rfl⟩ := h.exists_reached
  obtain ⟨n', hle, hseen⟩ := hreached.seen hw hp c
  rw [hseen]
  exact (hreached.settled hp).written_get hle hc

/-- Nor does it change for the writer. -/
theorem Snapshot.written_get (h : Snapshot m w R) (hp : Publishing m w.log) (hc : R.Sealed c)
    (hw : (recordLayout τ).Coherent w) :
    ((recordLayout τ).written m w.log).get c = R.get c := by
  obtain ⟨n, hreached, rfl⟩ := h.exists_reached
  have hkept := (hreached.settled hp).written_get (hreached.le hw) hc
  rw [List.take_length] at hkept
  exact hkept

/-- A record is read from cells that belong to it. -/
theorem record_congr {R' : Records τ} (hinside : R.Inside) (hi : i < R.nrRecords)
    (h : ∀ c, R.Sealed c → R'.get c = R.get c) : R'.record i = R.record i := by
  obtain ⟨off, hoff, hle⟩ := hinside i hi
  have hcomm := Value.comm.inj (h (.comm i) hi)
  have hpid := Value.pid.inj (h (.pid i) hi)
  have htrace : R'.traces i = R.traces i := by
    have hbase := Value.base.inj (h (.base i) hi)
    have hlen := Value.num.inj (h (.len i) hi)
    cases htr : R'.traces i
    cases htr' : R.traces i
    rw [htr, htr'] at hbase hlen
    exact congrArg₂ StackEntry.mk hlen hbase
  have hentries : readCells R'.entries (R.traces i).slice = readCells R.entries (R.traces i).slice := by
    refine List.map_congr_left fun j hj => ?_
    have hjlt : j < (R.traces i).nrEntries := List.mem_range.mp hj
    refine Value.word.inj (h (.entry _) ?_)
    show (R.traces i).entries.getD 0 + j < R.nrEntries
    rw [hoff]
    show off + j < R.nrEntries
    omega
  unfold Records.record seqPrintStackTrace
  rw [hcomm, hpid, htrace, hentries]

/-- The last store to a cell is what is in it; without one it is as at the start. -/
theorem times_written (m : Records τ) (l : List (Issued (Store τ))) (i : Nat) :
    (∃ s ∈ l, s.store = .time i (((recordLayout τ).written m l).times i))
      ∨ (¬ ∃ s ∈ l, s.store.cell = .time i)
        ∧ ((recordLayout τ).written m l).times i = m.times i := by
  induction l using List.reverseRecOn with
  | nil => exact .inr ⟨nofun, rfl⟩
  | append_singleton l s ih =>
      rw [written_append]
      by_cases hcell : s.store.cell = .time i
      · refine .inl ⟨s, List.mem_append_right l List.mem_cons_self, ?_⟩
        obtain ⟨store, release⟩ := s
        cases store <;> simp_all [Store.cell, Layout.written, recordLayout, Records.store]
      · have hkept := Value.time.inj (((recordLayout τ).written m l).get_store_of_ne hcell)
        rcases ih with ⟨s', hs', hstore⟩ | ⟨hnone, hsame⟩
        · exact .inl ⟨s', List.mem_append_left _ hs', hstore.trans (congrArg _ hkept.symm)⟩
        · refine .inr ⟨?_, hkept.trans hsame⟩
          rintro ⟨s', hs', hcell'⟩
          rcases List.mem_append.mp hs' with hin | hlast
          · exact hnone ⟨s', hin, hcell'⟩
          · rw [List.mem_singleton.mp hlast] at hcell'
            exact hcell hcell'

/-- The time that is found is one that was stored for the record. -/
theorem Snapshot.seen_times (h : Snapshot m w R) (hw : (recordLayout τ).Coherent w)
    (hp : Publishing m w.log) (hi : i < R.nrRecords) :
    Stored m w i (((recordLayout τ).seen m w).times i) := by
  obtain ⟨n, hreached, rfl⟩ := h.exists_reached
  obtain ⟨n', hle, hseen⟩ := hreached.seen hw hp (.time i)
  rw [Value.time.inj hseen]
  rcases times_written m (w.log.take n') i with ⟨s, hs, hstore⟩ | ⟨hnone, hsame⟩
  · exact .inl ⟨s, List.mem_of_mem_take hs, hstore⟩
  · refine .inr ⟨?_, hsame⟩
    -- no time was stored, so it is one of the first records
    by_contra hge
    have htimed := ((hreached.settled hp).timed i hi).mono (List.take_sublist_take_left hle).subset
    exact hnone (htimed (not_lt.mp hge))

/-- The counter that is found is the counter of a snapshot. -/
theorem exists_snapshot (hw : (recordLayout τ).Coherent w) (m : Records τ) :
    ∃ R, Snapshot m w R ∧ R.nrRecords = ((recordLayout τ).seen m w).nrRecords := by
  obtain ⟨n, -, hseen, -, hlast⟩ := hw.seen_eq (isCell_get .nrRecords) m
  refine ⟨_, ⟨n, ?_, rfl⟩, (Value.num.inj hseen).symm⟩
  rcases Nat.eq_zero_or_pos n with hzero | hpos
  · exact .inl hzero
  · obtain ⟨hvisible, s, hat, hcell⟩ := hlast hpos
    exact .inr ⟨n - 1, s, (Nat.sub_add_cancel hpos).symm, hvisible, hat, hcell⟩

theorem Snapshot.inside (h : Snapshot m w R) (hp : Publishing m w.log) : R.Inside := by
  obtain ⟨n, hreached, rfl⟩ := h.exists_reached
  exact (hreached.settled hp).inside

theorem Snapshot.nrRecords_le (h : Snapshot m w R) (hp : Publishing m w.log) :
    R.nrRecords ≤ ((recordLayout τ).written m w.log).nrRecords := by
  obtain ⟨n, hreached, rfl⟩ := h.exists_reached
  by_contra hlt
  -- the counter of the snapshot covers one more record
  have hlast := (hreached.settled hp).grows (.comm ((recordLayout τ).written m w.log).nrRecords)
    (not_le.mp hlt)
  exact absurd hlast (Nat.lt_irrefl _)

/-- More stores and more that is visible leave a snapshot as it is. -/
theorem Snapshot.mono (h : Snapshot m w R) (hw : (recordLayout τ).Coherent w)
    (hlog : w.log <+: w'.log) (hvisible : w.visible ⊆ w'.visible) : Snapshot m w' R := by
  obtain ⟨n, hreached, rfl⟩ := h.exists_reached
  obtain ⟨l, hl⟩ := hlog
  refine ⟨n, ?_, ?_⟩
  · rcases hreached with rfl | ⟨r, s, rfl, hr, hat, hcell⟩
    · exact .inl rfl
    · refine .inr ⟨r, s, rfl, hvisible hr, ?_, hcell⟩
      rw [← hl, List.getElem?_append_left (hw r hr).1]
      exact hat
  · rw [← hl, List.take_append_of_le_length (hreached.le hw)]

theorem Stored.mono {t : τ} (h : Stored m w i t) (hlog : w.log <+: w'.log) : Stored m w' i t := by
  rcases h with ⟨s, hs, hstore⟩ | hfirst
  · exact .inl ⟨s, hlog.subset hs, hstore⟩
  · exact .inr hfirst

end Found

def Printed.shown {τ : Type} (x : Printed τ) : (Comm × Int) × List UInt64 :=
  ((x.comm, x.pid), x.stack)

/-- The first `i` records of `R` have been printed. -/
structure PrintedTo {τ : Type} (m : Records τ) (w : World (Store τ)) (R : Records τ) (i : Nat)
    (out : List (Printed τ)) : Prop where
  shown : out.map Printed.shown = (List.range i).map R.record
  times : ∀ j x, out[j]? = some x → Stored m w j x.time

/-- Before record `i` of a snapshot. -/
structure At {τ : Type} (m : Records τ) (w : World (Store τ)) (R : Records τ) (nr i : Nat)
    (out : List (Printed τ)) : Prop where
  snapshot : Snapshot m w R
  counter : R.nrRecords = nr
  inside : R.Inside
  lt : i < nr
  printed : PrintedTo m w R i out

/-- The line of record `i`. -/
structure Headed {τ : Type} (m : Records τ) (w : World (Store τ)) (R : Records τ) (i : Nat)
    (x : Printed τ) : Prop where
  comm : x.comm = R.comms i
  pid : x.pid = R.pids i
  time : Stored m w i x.time

/-- What is known of a reader. -/
def ReaderOk {τ : Type} (m : Records τ) (w : World (Store τ)) : Reader τ → Prop
  | .start => True
  | .comm nr i out => ∃ R, At m w R nr i out
  | .pid nr i out c => ∃ R, At m w R nr i out ∧ c = R.comms i
  | .time nr i out c p => ∃ R, At m w R nr i out ∧ c = R.comms i ∧ p = R.pids i
  | .check nr i out x => ∃ R, At m w R nr i out ∧ Headed m w R i x ∧ x.stack = []
  | .len nr i out x => ∃ R, At m w R nr i out ∧ Headed m w R i x ∧ x.stack <+: (R.record i).2
  | .base nr i out x =>
      ∃ R, At m w R nr i out ∧ Headed m w R i x ∧ x.stack <+: (R.record i).2
        ∧ x.stack.length < (R.traces i).nrEntries
  | .entry nr i out x off =>
      ∃ R, At m w R nr i out ∧ Headed m w R i x ∧ x.stack <+: (R.record i).2
        ∧ x.stack.length < (R.traces i).nrEntries ∧ (R.traces i).entries = some off
  | .done out => out = [] ∨ ∃ R, Snapshot m w R ∧ PrintedTo m w R R.nrRecords out

section ReaderSteps

variable {τ : Type} {m R : Records τ} {w w' : World (Store τ)} {nr i : Nat}
  {out : List (Printed τ)} {x : Printed τ}

theorem At.lt_nrRecords (h : At m w R nr i out) : i < R.nrRecords := h.counter ▸ h.lt

theorem At.record_snd (h : At m w R nr i out) :
    ∃ off, (R.traces i).entries = some off ∧ off + (R.traces i).nrEntries ≤ R.nrEntries
      ∧ (R.record i).2 = readCells R.entries ⟨off, (R.traces i).nrEntries⟩ := by
  obtain ⟨off, hoff, hle⟩ := h.inside i h.lt_nrRecords
  refine ⟨off, hoff, hle, ?_⟩
  show seqPrintStackTrace R.entries (R.traces i) = _
  unfold seqPrintStackTrace StackEntry.slice
  rw [hoff]
  rfl

/-- Record `i` is printed after those before it. -/
theorem PrintedTo.snoc (h : PrintedTo m w R i out) (hx : Headed m w R i x)
    (hstack : x.stack = (R.record i).2) : PrintedTo m w R (i + 1) (out ++ [x]) := by
  have hlen : out.length = i := by
    have hlen := congrArg List.length h.shown
    simpa using hlen
  have hshown : x.shown = R.record i := by
    unfold Printed.shown Records.record
    rw [hx.comm, hx.pid, hstack]
    rfl
  constructor
  · rw [List.map_append, h.shown, List.range_succ, List.map_append]
    simp [hshown]
  · intro j y hj
    rw [List.getElem?_append] at hj
    split at hj
    next => exact h.times j y hj
    next hge =>
      obtain ⟨rfl, rfl⟩ : j = i ∧ x = y := by grind
      exact hx.time

/-- The next record, or the end. -/
theorem At.next (h : At m w R nr i out) (hx : Headed m w R i x) (hstack : x.stack = (R.record i).2) :
    ReaderOk m w (.next nr (i + 1) (out ++ [x])) := by
  have hprinted := h.printed.snoc hx hstack
  unfold Reader.next
  split
  next hlt => exact ⟨R, h.snapshot, h.counter, h.inside, hlt, hprinted⟩
  next hge =>
    have hnr : i + 1 = R.nrRecords := by
      have hlt := h.lt
      have hcounter := h.counter
      omega
    rw [hnr] at hprinted
    exact .inr ⟨R, h.snapshot, hprinted⟩

/-- **One load of the reader.** -/
theorem ReaderOk.step {q : Reader τ} (hq : ReaderOk m w q)
    (hw : (recordLayout τ).Coherent w) (hp : Publishing m w.log) :
    ReaderOk m w (q.step ((recordLayout τ).seen m w)) := by
  cases q with
  | start =>
      show ReaderOk m w (.next ((recordLayout τ).seen m w).nrRecords 0 [])
      unfold Reader.next
      split
      next hpos =>
        obtain ⟨R, hsnap, hcounter⟩ := exists_snapshot hw m
        exact ⟨R, hsnap, hcounter, hsnap.inside hp, hpos, rfl, nofun⟩
      next => exact .inl rfl
  | comm nr i out =>
      obtain ⟨R, hat⟩ := hq
      have hseen := hat.snapshot.seen_get hw hp (c := .comm i) hat.lt_nrRecords
      exact ⟨R, hat, Value.comm.inj hseen⟩
  | pid nr i out c =>
      obtain ⟨R, hat, hc⟩ := hq
      have hseen := hat.snapshot.seen_get hw hp (c := .pid i) hat.lt_nrRecords
      exact ⟨R, hat, hc, Value.pid.inj hseen⟩
  | time nr i out c p =>
      obtain ⟨R, hat, hc, hpid⟩ := hq
      exact ⟨R, hat, ⟨hc, hpid, hat.snapshot.seen_times hw hp hat.lt_nrRecords⟩, rfl⟩
  | check nr i out x =>
      obtain ⟨R, hat, hx, hstack⟩ := hq
      have hseen := Value.base.inj
        (hat.snapshot.seen_get hw hp (c := .base i) hat.lt_nrRecords)
      obtain ⟨off, hoff, -, -⟩ := hat.record_snd
      show ReaderOk m w (if _ then _ else _)
      rw [hseen, hoff, Option.isNone_some, if_neg Bool.false_ne_true]
      exact ⟨R, hat, hx, hstack ▸ List.nil_prefix⟩
  | len nr i out x =>
      obtain ⟨R, hat, hx, hpre⟩ := hq
      have hseen := Value.num.inj
        (hat.snapshot.seen_get hw hp (c := .len i) hat.lt_nrRecords)
      obtain ⟨off, hoff, -, hrecord⟩ := hat.record_snd
      show ReaderOk m w (if _ then _ else _)
      rw [hseen]
      split
      next hlt => exact ⟨R, hat, hx, hpre, hlt⟩
      next hge =>
        refine hat.next hx (hpre.eq_of_length_le ?_)
        rw [hrecord]
        simpa [readCells] using hge
  | base nr i out x =>
      obtain ⟨R, hat, hx, hpre, hlt⟩ := hq
      have hseen := Value.base.inj
        (hat.snapshot.seen_get hw hp (c := .base i) hat.lt_nrRecords)
      obtain ⟨off, hoff, -, -⟩ := hat.record_snd
      refine ⟨R, hat, hx, hpre, hlt, ?_⟩
      rw [hseen, hoff]
      rfl
  | entry nr i out x off =>
      obtain ⟨R, hat, hx, hpre, hlt, hoff⟩ := hq
      obtain ⟨off', hoff', hle, hrecord⟩ := hat.record_snd
      obtain rfl : off' = off := Option.some.inj (hoff'.symm.trans hoff)
      have hseen := Value.word.inj (hat.snapshot.seen_get hw hp (c := .entry (off' + x.stack.length))
        (show off' + x.stack.length < R.nrEntries by omega))
      refine ⟨R, hat, ⟨hx.comm, hx.pid, hx.time⟩, ?_⟩
      have hmore : x.stack.length < (R.record i).2.length := by
        rw [hrecord]
        simpa [readCells] using hlt
      have hentry : (R.record i).2.get ⟨x.stack.length, hmore⟩
          = ((recordLayout τ).seen m w).entries (off' + x.stack.length) := by
        rw [hseen]
        simp [hrecord, readCells]
      have hprefix := List.concat_get_prefix hpre hmore
      rw [hentry] at hprefix
      exact hprefix
  | done out => exact hq

theorem PrintedTo.mono (h : PrintedTo m w R i out) (hlog : w.log <+: w'.log) :
    PrintedTo m w' R i out :=
  ⟨h.shown, fun j x hj => (h.times j x hj).mono hlog⟩

theorem At.mono (h : At m w R nr i out) (hw : (recordLayout τ).Coherent w)
    (hlog : w.log <+: w'.log) (hvisible : w.visible ⊆ w'.visible) : At m w' R nr i out :=
  ⟨h.snapshot.mono hw hlog hvisible, h.counter, h.inside, h.lt, h.printed.mono hlog⟩

theorem Headed.mono (h : Headed m w R i x) (hlog : w.log <+: w'.log) : Headed m w' R i x :=
  ⟨h.comm, h.pid, h.time.mono hlog⟩

/-- What the writer does meanwhile makes no difference to a reader. -/
theorem ReaderOk.mono {q : Reader τ} (hq : ReaderOk m w q) (hw : (recordLayout τ).Coherent w)
    (hlog : w.log <+: w'.log) (hvisible : w.visible ⊆ w'.visible) : ReaderOk m w' q := by
  cases q with
  | start => trivial
  | comm nr i out =>
      obtain ⟨R, hat⟩ := hq
      exact ⟨R, hat.mono hw hlog hvisible⟩
  | pid nr i out c =>
      obtain ⟨R, hat, hc⟩ := hq
      exact ⟨R, hat.mono hw hlog hvisible, hc⟩
  | time nr i out c p =>
      obtain ⟨R, hat, hc⟩ := hq
      exact ⟨R, hat.mono hw hlog hvisible, hc⟩
  | check nr i out x | len nr i out x | base nr i out x | entry nr i out x off =>
      obtain ⟨R, hat, hx, hrest⟩ := hq
      exact ⟨R, hat.mono hw hlog hvisible, hx.mono hlog, hrest⟩
  | done out =>
      rcases hq with hnil | ⟨R, hsnap, hprinted⟩
      · exact .inl hnil
      · exact .inr ⟨R, hsnap.mono hw hlog hvisible, hprinted.mono hlog⟩

end ReaderSteps

/-! ## The system -/

/-- A tracer on one CPU, its stores, and a reader on another CPU. -/
structure Shared (σ τ : Type) where
  writer : σ
  world : World (Store τ)
  reader : Reader τ

inductive SharedEvent (ε : Type) where
  /-- A handler of the tracer. -/
  | run (e : ε)
  /-- A store becomes visible. -/
  | commit (i : Nat)
  /-- The reader loads the next cell. -/
  | load

section System

variable {σ ε τ : Type}

/-- The memory starts with what the tracer has at its start, `m`. -/
def Recorder.sharedStep (T : Recorder σ ε τ) (m : Records τ) (s : Shared σ τ) :
    SharedEvent ε → Shared σ τ
  | .run e =>
      { s with
        writer := T.step s.writer e
        world := Layout.issue s.world (T.stores s.writer e) }
  | .commit i => { s with world := (recordLayout τ).commit s.world i }
  | .load => { s with reader := s.reader.step ((recordLayout τ).seen m s.world) }

def Recorder.sharedStart (start : σ) : Shared σ τ := ⟨start, ⟨[], ∅⟩, .start⟩

/-- The handlers publish their records, but for the one that clears them. -/
structure Recorder.Publishes (T : Recorder σ ε τ) (clear : ε) : Prop where
  cleared : ∀ s, (T.records (T.step s clear)).nrRecords = 0
  written : ∀ s e, (recordLayout τ).written (T.records s) (T.stores s e) = T.records (T.step s e)
  block : ∀ s e, e ≠ clear → (T.records s).Inside → Block (T.records s) (T.stores s e)

structure Watched (T : Recorder σ ε τ) (m : Records τ) (s : Shared σ τ) : Prop where
  coherent : (recordLayout τ).Coherent s.world
  written : (recordLayout τ).written m s.world.log = T.records s.writer
  publishing : Publishing m s.world.log
  reader : ReaderOk m s.world s.reader

variable {T : Recorder σ ε τ} {clear : ε} {m : Records τ} {s : Shared σ τ}

theorem Recorder.Publishes.inside_step (hT : T.Publishes clear) {st : σ}
    (h : (T.records st).Inside) (e : ε) : (T.records (T.step st e)).Inside := by
  by_cases hclear : e = clear
  · subst hclear
    exact Records.inside_of_empty (hT.cleared st)
  · rw [← hT.written]
    exact (hT.block st e hclear h).inside

/-- Whatever the handlers do, the clear included, the stacks are inside of the entries in use. -/
theorem Recorder.Publishes.inside_run (hT : T.Publishes clear) {st : σ}
    (h : (T.records st).Inside) (es : List ε) : (T.records (run T.step st es)).Inside := by
  induction es generalizing st with
  | nil => exact h
  | cons e es ih => exact ih (hT.inside_step h e)

theorem Watched.step (hT : T.Publishes clear) (h : Watched T m s)
    {e : SharedEvent ε} (hclear : e ≠ .run clear) : Watched T m (T.sharedStep m s e) := by
  cases e with
  | run e =>
      have hblock : Block ((recordLayout τ).written m s.world.log) (T.stores s.writer e) := by
        have hinside := h.publishing.inside
        rw [h.written] at hinside ⊢
        exact hT.block s.writer e (fun heq => hclear (heq ▸ rfl)) hinside
      refine ⟨h.coherent.issue _, ?_, h.publishing.append hblock, ?_⟩
      · show (recordLayout τ).written m (s.world.log ++ T.stores s.writer e) = _
        rw [written_append, h.written]
        exact hT.written s.writer e
      · exact h.reader.mono h.coherent (List.prefix_append _ _) (Finset.Subset.refl _)
  | commit i =>
      have hlog : ((recordLayout τ).commit s.world i).log = s.world.log := by
        unfold Layout.commit
        split <;> rfl
      have hvisible : s.world.visible ⊆ ((recordLayout τ).commit s.world i).visible := by
        unfold Layout.commit
        split
        · exact Finset.subset_insert i _
        · exact Finset.Subset.refl _
      refine ⟨h.coherent.commit i, ?_, ?_, ?_⟩
      · show (recordLayout τ).written m ((recordLayout τ).commit s.world i).log = _
        rw [hlog]
        exact h.written
      · show Publishing m ((recordLayout τ).commit s.world i).log
        rw [hlog]
        exact h.publishing
      · exact h.reader.mono h.coherent (hlog ▸ List.prefix_rfl) hvisible
  | load =>
      exact ⟨h.coherent, h.written, h.publishing, h.reader.step h.coherent h.publishing⟩

/-- **A reader finds every record whole.** When it is done, it has printed the first records that
the tracer has by now, with their stacks, and times that were stored for them. -/
theorem Watched.done (h : Watched T m s) {out : List (Printed τ)}
    (hdone : s.reader = .done out) :
    out.map Printed.shown <+: (T.records s.writer).shown
      ∧ ∀ j x, out[j]? = some x → Stored m s.world j x.time := by
  have hreader := h.reader
  rw [hdone] at hreader
  rcases hreader with rfl | ⟨R, hsnap, hprinted⟩
  · exact ⟨List.nil_prefix, nofun⟩
  · refine ⟨?_, hprinted.times⟩
    have hkept : ∀ c, R.Sealed c → (T.records s.writer).get c = R.get c := by
      intro c hc
      rw [← h.written]
      exact hsnap.written_get h.publishing hc h.coherent
    have hrecords : out.map Printed.shown
        = (List.range R.nrRecords).map (T.records s.writer).record := by
      rw [hprinted.shown]
      refine List.map_congr_left fun i hi => ?_
      exact (record_congr (hsnap.inside h.publishing) (List.mem_range.mp hi) hkept).symm
    rw [hrecords]
    apply Records.map_record_prefix
    rw [← h.written]
    exact hsnap.nrRecords_le h.publishing

end System

end UioLinuxSample
