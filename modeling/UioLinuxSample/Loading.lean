import UioLinuxSample.Kernel
import UioLinuxSample.Lib.PathTree

set_option autoImplicit false

/-! # Loading trace-runqlat and trace-noschedule

Both modules allocate a buffer, make a directory with a few files under `/proc` and look up the
tracepoints of the kernel by their names, since it does not export them. `trace_runqlat.c` attaches its
probes when it is loaded, `trace_noschedule.c` when it is enabled. An error leads to labels at the end
of the function that undo what was done.

A function is modelled by its result and by the calls that it makes with success. `performAll` says
what a row of calls does, and that it is possible at all: nothing is freed or removed that is not there.
-/

namespace UioLinuxSample.Loading

/-! ## The calls -/

/-- `struct tracepoint`; the number stands for its address. -/
structure Tracepoint where
  name : String
  id : Nat
  deriving DecidableEq

/-- The probe functions of the two modules. -/
inductive Handler where
  | schedWakeup
  | schedSwitch
  | schedMigrateTask
  deriving DecidableEq

/-- A probe at a tracepoint. -/
structure Hook where
  tp : Tracepoint
  probe : Handler
  deriving DecidableEq

/-- `vzalloc` and `alloc_percpu` give a buffer; `proc_mkdir` and `proc_create_data` make an entry in a
directory. -/
inductive Call where
  | alloc (buf : Nat)
  | procCreate (name : String) (dir : List String)
  | register (hook : Hook)
  | unregister (hook : Hook)
  | hrtimerStart (cpu : Nat)
  | timerStart (cpu : Nat)
  | hrtimerCancel (cpu : Nat)
  | delTimerSync (cpu : Nat)
  | synchronize
  | removeProcSubtree (name : String)
  | free (buf : Nat)
  deriving DecidableEq

/-- What the modules of the kernel have acquired. -/
@[ext]
structure Resources where
  proc : PathTree String
  bufs : Finset Nat
  hooks : Finset Hook

namespace Resources

def perform (r : Resources) : Call → Option Resources
  | .alloc buf => if buf ∈ r.bufs then none else some { r with bufs := insert buf r.bufs }
  | .procCreate name dir => (r.proc.create name dir).map fun proc => { r with proc }
  | .register hook => if hook ∈ r.hooks then none else some { r with hooks := insert hook r.hooks }
  | .unregister hook => if hook ∈ r.hooks then some { r with hooks := r.hooks.erase hook } else none
  | .hrtimerStart _ | .timerStart _ | .hrtimerCancel _ | .delTimerSync _ | .synchronize => some r
  | .removeProcSubtree name =>
      if [name] ∈ r.proc then some { r with proc := r.proc.remove name [] } else none
  | .free buf => if buf ∈ r.bufs then some { r with bufs := r.bufs.erase buf } else none

def performAll (r : Resources) (calls : List Call) : Option Resources := calls.foldlM perform r

end Resources

/-! ## The tracepoints -/

/-- The table that `for_each_kernel_tracepoint` fills. -/
structure Lookup where
  tps : Nat → Option Tracepoint
  numInitalized : Nat

/-- `is_tracepoint_lookup_success`. -/
def isTracepointLookupSuccess (names : List String) (l : Lookup) : Bool :=
  l.numInitalized == names.length

/-- One turn of the loop in `tracepoint_lookup`. -/
def lookupTurn (names : List String) (tp : Tracepoint) (l : Lookup) (i : Nat) : Lookup :=
  if (l.tps i).isSome ∨ names[i]? ≠ some tp.name then l
  else { tps := Function.update l.tps i (some tp), numInitalized := l.numInitalized + 1 }

/-- `tracepoint_lookup`, of both modules. -/
def tracepointLookup (names : List String) (l : Lookup) (tp : Tracepoint) : Lookup :=
  if isTracepointLookupSuccess names l then l
  else (List.range names.length).foldl (lookupTurn names tp) l

/-- `for_each_kernel_tracepoint(tracepoint_lookup, ...)`. -/
def forEachKernelTracepoint (names : List String) (tps : List Tracepoint) : Lookup :=
  tps.foldl (tracepointLookup names) ⟨fun _ => none, 0⟩

/-- The probes that were found a tracepoint, in the order of the table. -/
def Lookup.hooks (l : Lookup) (probes : List Handler) : List Hook :=
  probes.zipIdx.filterMap fun p => (l.tps p.2).map (⟨·, p.1⟩)

/-! ## The functions -/

/-- What the calls return. -/
structure Answers where
  buf : Option Nat
  procMkdir : Bool
  procCreate : String → Bool
  register : Hook → Int
  unregister : Hook → Int

/-- The files of a directory, up to the first that fails. -/
def createEntries (ok : String → Bool) (dir : List String) : List String → Bool × List Call
  | [] => (true, [])
  | name :: names =>
      if !ok name then (false, [])
      else
        let r := createEntries ok dir names
        (r.1, .procCreate name dir :: r.2)

/-- A loop that unregisters probes. It does not look at the results: a probe for which
`tracepoint_probe_unregister` fails stays. -/
def unregisterHooks (result : Hook → Int) (hooks : List Hook) : List Call :=
  (hooks.filter (result · == 0)).map .unregister

/-- The loop that registers the probes; `done` are those it has registered, the last one first. -/
def registerHooks (a : Answers) (done : List Hook) : List Hook → Int × List Call
  | [] => (0, [])
  | hook :: hooks =>
      let ret := a.register hook
      if ret ≠ 0 then (ret, unregisterHooks a.unregister done)
      else
        let r := registerHooks a (hook :: done) hooks
        (r.1, .register hook :: r.2)

/-- `ENODEV`. -/
def enodev : Int := 19

end Loading

namespace Runqlat

open Loading

/-- `tp_names`. -/
def tpNames : List String := ["sched_wakeup", "sched_wakeup_new", "sched_switch", "sched_migrate_task"]

/-- `tp_probes`. -/
def tpProbes : List Handler := [.schedWakeup, .schedWakeup, .schedSwitch, .schedMigrateTask]

def procDir : String := "trace_runqlat"

def procFiles : List String := ["pid", "threshold", "runqlat", "distribution"]

/-- The labels `remove_proc` and `free_buf`. -/
def removeProc (buf : Nat) : List Call := [.removeProcSubtree procDir, .free buf]

/-- `trace_runqlat_init`, in a kernel with these tracepoints. A tracepoint that is missing is reported
as a lack of memory. -/
def traceRunqlatInit (a : Answers) (kernel : List Tracepoint) : Int × List Call :=
  match a.buf with
  | none => (-Errno.enomem.code, [])
  | some buf =>
      if !a.procMkdir then (-Errno.enomem.code, [.alloc buf, .free buf]) else
      let files := createEntries a.procCreate [procDir] procFiles
      let calls := .alloc buf :: .procCreate procDir [] :: files.2
      if !files.1 then (-Errno.enomem.code, calls ++ removeProc buf) else
      let l := forEachKernelTracepoint tpNames kernel
      if !isTracepointLookupSuccess tpNames l then (-Errno.enomem.code, calls ++ removeProc buf) else
      let registered := registerHooks a [] (l.hooks tpProbes)
      if registered.1 ≠ 0 then (registered.1, calls ++ registered.2 ++ removeProc buf)
      else (0, calls ++ registered.2)

/-- `trace_runqlat_exit`, with the buffer and the probes of the module. -/
def traceRunqlatExit (unregister : Hook → Int) (buf : Nat) (hooks : List Hook) : List Call :=
  unregisterHooks unregister hooks ++ [.synchronize, .removeProcSubtree procDir, .free buf]

end Runqlat

namespace Noschedule

open Loading

/-- The names in `tp_entries`. -/
def tpNames : List String := ["sched_switch"]

/-- The probes in `tp_entries`. -/
def tpProbes : List Handler := [.schedSwitch]

/-- `PROC_DIR_NAME`. -/
def procDirName : String := "trace_noschedule"

/-- The files, with the one of `CONFIG_DEBUG_TRACE_NOSCHED`. -/
def procFiles (debug : Bool) : List String :=
  ["threshold", "enable", "distribution", "stack_trace"] ++ if debug then ["nosched_test"] else []

/-- `trace_noschedule_init`. -/
def traceNoscheduleInit (debug : Bool) (a : Answers) (kernel : List Tracepoint) : Int × List Call :=
  let l := forEachKernelTracepoint tpNames kernel
  if !isTracepointLookupSuccess tpNames l then (-enodev, []) else
  match a.buf with
  | none => (-Errno.enomem.code, [])
  | some buf =>
      if !a.procMkdir then (-Errno.enomem.code, [.alloc buf, .free buf]) else
      let files := createEntries a.procCreate [procDirName] (procFiles debug)
      let calls := .alloc buf :: .procCreate procDirName [] :: files.2
      if !files.1 then (-Errno.enomem.code, calls ++ [.removeProcSubtree procDirName, .free buf])
      else (0, calls)

/-- `trace_noschedule_exit`. The buffer is per CPU and holds the timers. The probe at `hook` is
unregistered only if the tracer is enabled. -/
def traceNoscheduleExit (unregister : Hook → Int) (enable : Bool) (online : List Nat) (hook : Hook)
    (buf : Nat) : List Call :=
  (if enable then online.map .hrtimerCancel ++ unregisterHooks unregister [hook] ++ [.synchronize]
    else [])
    ++ [.removeProcSubtree procDirName, .free buf]

end Noschedule

namespace Loading

/-! ## What is found -/

section Found

variable {names : List String} {tp : Tracepoint} {l : Lookup} {seen : List Tracepoint} {n i j : Nat}

/-- The counter says how many entries of the table are filled. -/
def Lookup.Counted (n : Nat) (l : Lookup) : Prop :=
  l.numInitalized = ((Finset.range n).filter fun i => (l.tps i).isSome = true).card

/-- Every entry has the first tracepoint of its name, among those that were seen. -/
def Lookup.Found (names : List String) (seen : List Tracepoint) (l : Lookup) : Prop :=
  ∀ i name, names[i]? = some name → l.tps i = seen.find? (·.name == name)

theorem counted_lookupTurn (h : l.Counted n) (hi : i < n) : (lookupTurn names tp l i).Counted n := by
  unfold lookupTurn
  split
  · exact h
  · next hturn =>
      have hnone : l.tps i = none := by
        rw [not_or, Option.not_isSome_iff_eq_none] at hturn
        exact hturn.1
      have hfilter : (Finset.range n).filter
            (fun j => (Function.update l.tps i (some tp) j).isSome = true)
          = insert i ((Finset.range n).filter fun j => (l.tps j).isSome = true) := by
        ext j
        rcases eq_or_ne j i with rfl | hne
        · simp [hi]
        · simp [hne]
      have hnew : i ∉ (Finset.range n).filter fun j => (l.tps j).isSome = true := by
        simp [hnone]
      show l.numInitalized + 1 = _
      rw [hfilter, Finset.card_insert_of_notMem hnew, ← h]

theorem counted_turns {is : List Nat} (h : l.Counted n) (his : ∀ i ∈ is, i < n) :
    (is.foldl (lookupTurn names tp) l).Counted n := by
  induction is generalizing l with
  | nil => exact h
  | cons i is ih =>
      exact ih (counted_lookupTurn h (his i (List.mem_cons_self ..)))
        fun j hj => his j (List.mem_cons_of_mem _ hj)

theorem lookupTurn_tps :
    (lookupTurn names tp l i).tps j
      = if j = i ∧ names[j]? = some tp.name then (l.tps j).or (some tp) else l.tps j := by
  unfold lookupTurn
  rcases eq_or_ne j i with rfl | hne
  · by_cases hname : names[j]? = some tp.name
    · cases htp : l.tps j <;> simp [hname, htp]
    · simp [hname]
  · split <;> simp [hne]

theorem foldl_lookupTurn_tps (k : Nat) :
    ((List.range k).foldl (lookupTurn names tp) l).tps j
      = if j < k ∧ names[j]? = some tp.name then (l.tps j).or (some tp) else l.tps j := by
  induction k with
  | zero => simp
  | succ k ih =>
      rw [List.range_succ, List.foldl_append, List.foldl_cons, List.foldl_nil, lookupTurn_tps, ih]
      rcases eq_or_ne j k with rfl | hne
      · simp
      · have hlt : j < k + 1 ↔ j < k := by omega
        simp [hne, hlt]

theorem success_iff_filled (h : l.Counted names.length) :
    isTracepointLookupSuccess names l = true ↔ ∀ i < names.length, (l.tps i).isSome = true := by
  unfold isTracepointLookupSuccess
  rw [beq_iff_eq, h]
  nth_rewrite 2 [← Finset.card_range names.length]
  rw [Finset.card_filter_eq_iff]
  simp only [Finset.mem_range]

/-- The early return changes nothing: a table that is full stays as it is. -/
theorem found_tracepointLookup (tp : Tracepoint) (h : l.Found names seen) (hcount : l.Counted names.length) :
    (tracepointLookup names l tp).Found names (seen ++ [tp]) := by
  intro i name hname
  have hi : i < names.length := (List.getElem?_eq_some_iff.mp hname).1
  rw [List.find?_append, ← h i name hname]
  unfold tracepointLookup
  split
  · next hfull =>
      obtain ⟨first, hfirst⟩ := Option.isSome_iff_exists.mp ((success_iff_filled hcount).mp hfull i hi)
      rw [hfirst]
      rfl
  · rw [foldl_lookupTurn_tps, hname]
    by_cases heq : name = tp.name
    · simp [hi, heq]
    · have hne : tp.name ≠ name := fun h => heq h.symm
      simp [heq, hne]

theorem counted_tracepointLookup (tp : Tracepoint) (hcount : l.Counted names.length) :
    (tracepointLookup names l tp).Counted names.length := by
  unfold tracepointLookup
  split
  · exact hcount
  · exact counted_turns hcount fun i hi => List.mem_range.mp hi

theorem found_foldl (kernel : List Tracepoint) (h : l.Found names seen)
    (hcount : l.Counted names.length) :
    (kernel.foldl (tracepointLookup names) l).Found names (seen ++ kernel)
      ∧ (kernel.foldl (tracepointLookup names) l).Counted names.length := by
  induction kernel generalizing l seen with
  | nil => exact ⟨(List.append_nil seen).symm ▸ h, hcount⟩
  | cons tp kernel ih =>
      have hnext := ih (found_tracepointLookup tp h hcount) (counted_tracepointLookup tp hcount)
      rwa [List.append_assoc] at hnext

/-- **The lookup.** Each name gets the first tracepoint of that name, and the lookup succeeds if there
is one for each. -/
theorem lookup_spec (names : List String) (kernel : List Tracepoint) :
    (forEachKernelTracepoint names kernel).Found names kernel
      ∧ (isTracepointLookupSuccess names (forEachKernelTracepoint names kernel) = true
        ↔ ∀ name ∈ names, ∃ tp ∈ kernel, tp.name = name) := by
  have hstart : Lookup.Counted names.length ⟨fun _ => none, 0⟩ := by simp [Lookup.Counted]
  have hempty : Lookup.Found names [] ⟨fun _ => none, 0⟩ := fun _ _ _ => rfl
  obtain ⟨hfound, hcount⟩ := found_foldl kernel hempty hstart
  refine ⟨hfound, (success_iff_filled hcount).trans ?_⟩
  constructor
  · intro h name hname
    obtain ⟨i, hi, rfl⟩ := List.mem_iff_getElem.mp hname
    have hsome := h i hi
    rw [hfound i _ (List.getElem?_eq_getElem hi), List.find?_isSome] at hsome
    simpa using hsome
  · intro h i hi
    rw [hfound i _ (List.getElem?_eq_getElem hi), List.find?_isSome]
    simpa using h _ (List.getElem_mem hi)

/-- The probes, each at the first tracepoint of its name, if there is one. -/
def wantedHooks (names : List String) (probes : List Handler) (kernel : List Tracepoint) : List Hook :=
  (names.zip probes).filterMap fun p => (kernel.find? (·.name == p.1)).map (⟨·, p.2⟩)

theorem hooks_from {probes : List Handler} {kernel : List Tracepoint}
    (hlen : probes.length = names.length) (k : Nat) (tps : Nat → Option Tracepoint)
    (h : ∀ i name, names[i]? = some name → tps (k + i) = kernel.find? (·.name == name)) :
    (probes.zipIdx k).filterMap (fun p => (tps p.2).map (Hook.mk · p.1))
      = wantedHooks names probes kernel := by
  induction probes generalizing names k with
  | nil =>
      rw [List.length_eq_zero_iff.mp hlen.symm]
      rfl
  | cons probe probes ih =>
      cases names with
      | nil => cases hlen
      | cons name names =>
          have hhead : tps k = kernel.find? (·.name == name) := h 0 name rfl
          have htail : (probes.zipIdx (k + 1)).filterMap (fun p => (tps p.2).map (Hook.mk · p.1))
              = wantedHooks names probes kernel :=
            ih (Nat.succ.inj hlen) (k + 1) fun i other hother =>
              (congrArg tps (by omega)).trans (h (i + 1) other hother)
          unfold wantedHooks at htail ⊢
          rw [List.zipIdx_cons, List.zip_cons_cons, List.filterMap_cons, List.filterMap_cons, htail,
            hhead]

/-- The probes are attached where they are wanted. -/
theorem hooks_eq_wanted {probes : List Handler} (hlen : probes.length = names.length)
    (kernel : List Tracepoint) :
    (forEachKernelTracepoint names kernel).hooks probes = wantedHooks names probes kernel := by
  refine hooks_from hlen 0 _ fun i name hname => ?_
  rw [Nat.zero_add]
  exact (lookup_spec names kernel).1 i name hname

/-- Probes at tracepoints of different names are different. -/
theorem nodup_wantedHooks {probes : List Handler} (hnames : names.Nodup) (kernel : List Tracepoint) :
    (wantedHooks names probes kernel).Nodup := by
  have hsub : ((wantedHooks names probes kernel).map (·.tp.name)).Sublist names := by
    unfold wantedHooks
    induction names generalizing probes with
    | nil => simp
    | cons name names ih =>
        cases probes with
        | nil => simp
        | cons probe probes =>
            have htail : (((names.zip probes).filterMap fun p =>
                (kernel.find? (·.name == p.1)).map (Hook.mk · p.2)).map (·.tp.name)).Sublist names :=
              ih (List.nodup_cons.mp hnames).2
            rw [List.zip_cons_cons, List.filterMap_cons]
            cases hfind : kernel.find? (·.name == name) with
            | none => exact htail.cons name
            | some tp =>
                have hname : tp.name = name := by simpa using List.find?_some hfind
                simp only [Option.map_some, List.map_cons, hname]
                exact htail.cons_cons name
  exact List.Nodup.of_map (·.tp.name) (hsub.nodup hnames)

end Found

/-! ## What a row of calls does -/

section Calls

variable {r : Resources}

theorem performAll_append (r : Resources) (calls calls' : List Call) :
    r.performAll (calls ++ calls') = (r.performAll calls).bind (·.performAll calls') :=
  List.foldlM_append ..

theorem performAll_cons (r : Resources) (call : Call) (calls : List Call) :
    r.performAll (call :: calls) = (r.perform call).bind (·.performAll calls) := rfl

theorem performAll_nil (r : Resources) : r.performAll [] = some r := rfl

/-- The two trees differ in the directory `d` of the root alone, which the second one has. -/
structure Within (d : String) (t t' : PathTree String) : Prop where
  dir : [d] ∈ t'
  same : ∀ p, ¬ [d] <:+ p → (p ∈ t' ↔ p ∈ t)

theorem Within.remove {d : String} {t t' : PathTree String} (h : Within d t t') (hnew : [d] ∉ t) :
    t'.remove d [] = t := by
  refine PathTree.ext_mem fun p => ?_
  rw [PathTree.mem_remove]
  constructor
  · rintro ⟨hp, hout⟩
    exact (h.same p hout).mp hp
  · intro hp
    have hout : ¬ [d] <:+ p := fun hsuffix => hnew (PathTree.mem_of_suffix hp hsuffix)
    exact ⟨(h.same p hout).mpr hp, hout⟩

theorem createEntries_fst (ok : String → Bool) (dir names : List String) :
    (createEntries ok dir names).1 = true ↔ ∀ name ∈ names, ok name = true := by
  induction names with
  | nil => simp [createEntries]
  | cons name names ih =>
      cases hok : ok name with
      | false => simp [createEntries, hok]
      | true => simp [createEntries, hok, ih]

/-- The files that are made are in their directory. -/
theorem performAll_createEntries (ok : String → Bool) {d : String} {names : List String}
    {t : PathTree String} (hnodup : names.Nodup) (h : Within d t r.proc)
    (hfree : ∀ name ∈ names, [name, d] ∉ r.proc) :
    ∃ proc, r.performAll (createEntries ok [d] names).2 = some { r with proc } ∧ Within d t proc := by
  induction names generalizing r with
  | nil => exact ⟨r.proc, rfl, h⟩
  | cons name names ih =>
      obtain ⟨hname, hnodup⟩ := List.nodup_cons.mp hnodup
      cases hok : ok name with
      | false => exact ⟨r.proc, by simp [createEntries, hok, performAll_nil], h⟩
      | true =>
          obtain ⟨proc, hproc⟩ := PathTree.exists_create h.dir (hfree name (List.mem_cons_self ..))
          have hspec := (PathTree.create_spec hproc).2.2
          have hwithin : Within d t proc := by
            refine ⟨(hspec _).mpr (.inr h.dir), fun p hp => ?_⟩
            rw [hspec, ← h.same p hp, or_iff_right]
            rintro rfl
            exact hp (List.suffix_cons name [d])
          have hfree' : ∀ other ∈ names, [other, d] ∉ proc := fun other hother => by
            have hne : other ≠ name := fun heq => hname (heq ▸ hother)
            exact PathTree.not_mem_of_create hproc hne (hfree other (List.mem_cons_of_mem _ hother))
          obtain ⟨proc', hrun, hwithin'⟩ := ih (r := { r with proc }) hnodup hwithin hfree'
          refine ⟨proc', ?_, hwithin'⟩
          simp only [createEntries, hok, Bool.not_true, Bool.false_eq_true, if_false, performAll_cons,
            Resources.perform, hproc, Option.map_some, Option.bind_some]
          exact hrun

theorem performAll_unregister {hooks : List Hook} (hnodup : hooks.Nodup)
    (hmem : ∀ hook ∈ hooks, hook ∈ r.hooks) :
    r.performAll (hooks.map .unregister) = some { r with hooks := r.hooks \ hooks.toFinset } := by
  induction hooks generalizing r with
  | nil => simp [performAll_nil]
  | cons hook hooks ih =>
      obtain ⟨hnew, hnodup⟩ := List.nodup_cons.mp hnodup
      have hrest : ∀ other ∈ hooks, other ∈ r.hooks.erase hook := fun other hother =>
        Finset.mem_erase.mpr ⟨fun heq => hnew (heq ▸ hother), hmem other (List.mem_cons_of_mem _ hother)⟩
      rw [List.map_cons, performAll_cons]
      simp only [Resources.perform, hmem hook (List.mem_cons_self ..), if_true, Option.bind_some]
      rw [ih (r := { r with hooks := r.hooks.erase hook }) hnodup hrest]
      simp [Finset.erase_sdiff_comm, Finset.sdiff_insert]

theorem registerHooks_fst {a : Answers} {done hooks : List Hook} :
    (registerHooks a done hooks).1 = 0 ↔ ∀ hook ∈ hooks, a.register hook = 0 := by
  induction hooks generalizing done with
  | nil => simp [registerHooks]
  | cons hook hooks ih =>
      by_cases hret : a.register hook = 0
      · simp [registerHooks, hret, ih]
      · simp [registerHooks, hret]

/-- The probes that cannot be unregistered. -/
def stuck (result : Hook → Int) (hooks : List Hook) : Finset Hook :=
  (hooks.filter (result · != 0)).toFinset

theorem performAll_unregisterHooks (result : Hook → Int) {hooks : List Hook} (hnodup : hooks.Nodup)
    (hmem : ∀ hook ∈ hooks, hook ∈ r.hooks) :
    r.performAll (unregisterHooks result hooks)
      = some { r with hooks := r.hooks \ hooks.toFinset ∪ stuck result hooks } := by
  unfold unregisterHooks
  rw [performAll_unregister (hnodup.filter _)
    fun hook hhook => hmem hook (List.mem_of_mem_filter hhook)]
  congr 2
  ext hook
  have hin := hmem hook
  simp only [stuck, Finset.mem_union, Finset.mem_sdiff, List.mem_toFinset, List.mem_filter,
    beq_iff_eq, bne_iff_ne]
  tauto

/-- Either all the hooks are there in the end, or those that were registered before are gone too,
as far as they can be unregistered. -/
theorem performAll_registerHooks (a : Answers) (done hooks : List Hook)
    (hnodup : (done ++ hooks).Nodup) (hdone : ∀ hook ∈ done, hook ∈ r.hooks)
    (hnew : ∀ hook ∈ hooks, hook ∉ r.hooks) :
    ∃ left ⊆ stuck a.unregister (done ++ hooks), r.performAll (registerHooks a done hooks).2
      = some { r with hooks := if (registerHooks a done hooks).1 = 0 then
          r.hooks ∪ hooks.toFinset else r.hooks \ done.toFinset ∪ left } := by
  induction hooks generalizing r done with
  | nil => exact ⟨∅, Finset.empty_subset _, by simp [registerHooks, performAll_nil]⟩
  | cons hook hooks ih =>
      by_cases hret : a.register hook = 0
      · have hperm : (done ++ hook :: hooks).Perm (hook :: done ++ hooks) := List.perm_middle
        have hnodup' : (hook :: done ++ hooks).Nodup := hperm.nodup_iff.mp hnodup
        have hhook : hook ∉ r.hooks := hnew hook (List.mem_cons_self ..)
        obtain ⟨left, hleft, hrun⟩ := ih (r := { r with hooks := insert hook r.hooks }) (hook :: done)
          hnodup'
          (fun other hother => by
            rcases List.mem_cons.mp hother with rfl | hother
            · exact Finset.mem_insert_self ..
            · exact Finset.mem_insert_of_mem (hdone other hother))
          (fun other hother hmem => by
            rcases Finset.mem_insert.mp hmem with rfl | hmem
            · exact (List.nodup_cons.mp hnodup').1 (List.mem_append_right _ hother)
            · exact hnew other (List.mem_cons_of_mem _ hother) hmem)
        have hsame : stuck a.unregister (hook :: done ++ hooks)
            = stuck a.unregister (done ++ hook :: hooks) :=
          List.toFinset_eq_of_perm _ _ (hperm.symm.filter _)
        refine ⟨left, hsame ▸ hleft, ?_⟩
        simp only [registerHooks, hret, ne_eq, not_true_eq_false, if_false, performAll_cons,
          Resources.perform, hhook, Option.bind_some]
        rw [hrun]
        simp only [List.toFinset_cons, Finset.insert_union, Finset.union_insert,
          Finset.insert_sdiff_insert]
        rw [Finset.sdiff_insert_of_notMem hhook]
      · have hnodup' : done.Nodup := (List.nodup_append.mp hnodup).1
        refine ⟨stuck a.unregister done, ?_, ?_⟩
        · unfold stuck
          rw [List.filter_append, List.toFinset_append]
          exact Finset.subset_union_left
        · simp only [registerHooks, ne_eq, hret, not_false_eq_true, if_true, if_false]
          exact performAll_unregisterHooks a.unregister hnodup' hdone

/-- A buffer and a directory with some files. -/
theorem performAll_files (ok : String → Bool) {d : String} (names : List String) {buf : Nat}
    (hnodup : names.Nodup) (hdir : [d] ∉ r.proc) (hbuf : buf ∉ r.bufs) :
    ∃ proc, r.performAll (.alloc buf :: .procCreate d [] :: (createEntries ok [d] names).2)
        = some { r with proc, bufs := insert buf r.bufs }
      ∧ Within d r.proc proc := by
  obtain ⟨made, hmade⟩ := PathTree.exists_create r.proc.root hdir
  have hspec := (PathTree.create_spec hmade).2.2
  have hwithin : Within d r.proc made := by
    refine ⟨(hspec _).mpr (.inl rfl), fun p hp => ?_⟩
    rw [hspec, or_iff_right]
    rintro rfl
    exact hp List.suffix_rfl
  obtain ⟨proc, hrun, hwithin'⟩ := performAll_createEntries ok
    (r := { r with proc := made, bufs := insert buf r.bufs }) hnodup hwithin
    fun name _ => PathTree.not_mem_new hmade
  refine ⟨proc, ?_, hwithin'⟩
  simp only [performAll_cons, Resources.perform, hbuf, if_false, Option.bind_some, hmade,
    Option.map_some]
  exact hrun

/-- The labels at the end of the two functions. -/
theorem performAll_remove {d : String} {buf : Nat} {t proc : PathTree String} (h : Within d t proc)
    (hdir : [d] ∉ t) (bufs : Finset Nat) (hbuf : buf ∉ bufs) (hooks : Finset Hook) :
    (Resources.mk proc (insert buf bufs) hooks).performAll [.removeProcSubtree d, .free buf]
      = some ⟨t, bufs, hooks⟩ := by
  simp [performAll_cons, performAll_nil, Resources.perform, h.dir, h.remove hdir,
    Finset.erase_insert hbuf]

end Calls

/-! ## All or nothing -/

/-- The state `r` again, but for some of the probes `left`. -/
def Restored (r : Resources) (left : Finset Hook) (r' : Resources) : Prop :=
  ∃ hooks ⊆ left, r' = { r with hooks := r.hooks ∪ hooks }

theorem Restored.refl (r : Resources) (left : Finset Hook) : Restored r left r :=
  ⟨∅, Finset.empty_subset _, by rw [Finset.union_empty]⟩

/-- A function that loads a module, called in the state `r`: it makes calls that are possible there,
and returns 0 under the condition `succeeds`. Then the probes `attached` have been added, and `exit`
gives back all that was acquired. An error leaves everything as it was. Both are but for the probes
`left`. -/
structure AllOrNothing (r : Resources) (init : Int × List Call) (succeeds : Prop)
    (attached : Finset Hook) (exit : List Call) (left : Finset Hook) (r' : Resources) : Prop where
  calls : r.performAll init.2 = some r'
  result : init.1 = 0 ↔ succeeds
  hooks : init.1 = 0 → r'.hooks = r.hooks ∪ attached
  error : init.1 ≠ 0 → Restored r left r'
  removed : init.1 = 0 → ∃ r'', r'.performAll exit = some r'' ∧ Restored r left r''

/-- A check that leads to an error. -/
theorem allOrNothing_check {r : Resources} {ret : Int} {calls exit : List Call} {succeeds c : Prop}
    [Decidable c] {rest : Int × List Call} {attached left : Finset Hook} (hret : c → ret ≠ 0)
    (hfails : succeeds → ¬ c)
    (hcalls : c → ∃ r', r.performAll calls = some r' ∧ Restored r left r')
    (hrest : ¬ c → ∃ r', AllOrNothing r rest succeeds attached exit left r') :
    ∃ r', AllOrNothing r (if c then (ret, calls) else rest) succeeds attached exit left r' := by
  split
  · next hc =>
      obtain ⟨r', hr', hrestored⟩ := hcalls hc
      exact ⟨r', hr', iff_of_false (hret hc) fun h => hfails h hc, fun h => absurd h (hret hc),
        fun _ => hrestored, fun h => absurd h (hret hc)⟩
  · next hc => exact hrest hc

/-- An error after which nothing has to be undone. -/
theorem allOrNothing_error {r : Resources} {ret : Int} {calls exit : List Call} {succeeds : Prop}
    {attached left : Finset Hook} (hret : ret ≠ 0) (hfails : ¬ succeeds)
    (hcalls : r.performAll calls = some r) :
    AllOrNothing r (ret, calls) succeeds attached exit left r :=
  ⟨hcalls, iff_of_false hret hfails, fun h => absurd h hret, fun _ => .refl r left,
    fun h => absurd h hret⟩

/-- What the kernel does not answer: an address in use, or a second directory of the same name. -/
structure Answers.Sound (a : Answers) (r : Resources) (dir : String) : Prop where
  buf : ∀ buf, a.buf = some buf → buf ∉ r.bufs
  dir : a.procMkdir = true → [dir] ∉ r.proc

theorem enomem_ne_zero : -Errno.enomem.code ≠ 0 := by decide

/-- The first error: there is no directory. -/
theorem performAll_alloc_free {r : Resources} {buf : Nat} (hbuf : buf ∉ r.bufs) :
    r.performAll [.alloc buf, .free buf] = some r := by
  simp [performAll_cons, performAll_nil, Resources.perform, hbuf, Finset.erase_insert hbuf]

end Loading

namespace Runqlat

open Loading

/-- The probes of `trace_runqlat.c` at the tracepoints of a kernel. -/
def hooksIn (kernel : List Tracepoint) : List Hook :=
  (forEachKernelTracepoint tpNames kernel).hooks tpProbes

/-- Where they are wanted: each at the first tracepoint of its name. -/
def wanted (kernel : List Tracepoint) : List Hook := wantedHooks tpNames tpProbes kernel

theorem hooksIn_eq (kernel : List Tracepoint) : hooksIn kernel = wanted kernel :=
  hooks_eq_wanted (by decide) kernel

/-- All that `trace_runqlat_init` asks for is given. -/
structure Loads (a : Answers) (kernel : List Tracepoint) : Prop where
  buf : a.buf.isSome = true
  procMkdir : a.procMkdir = true
  procCreate : ∀ name ∈ procFiles, a.procCreate name = true
  tracepoint : ∀ name ∈ tpNames, ∃ tp ∈ kernel, tp.name = name
  register : ∀ hook ∈ wanted kernel, a.register hook = 0

theorem union_sdiff_wanted {r : Resources} {kernel : List Tracepoint}
    (hnew : ∀ hook ∈ wanted kernel, hook ∉ r.hooks) :
    (r.hooks ∪ (wanted kernel).toFinset) \ (wanted kernel).toFinset = r.hooks := by
  rw [Finset.union_sdiff_right, Finset.sdiff_eq_self_iff_disjoint, Finset.disjoint_right]
  exact fun hook hhook => hnew hook (List.mem_toFinset.mp hhook)

/-- The last part, with the files `proc`: the probes are registered. -/
theorem register_allOrNothing {a : Answers} {kernel : List Tracepoint} {r : Resources} {buf : Nat}
    {proc : PathTree String} {calls : List Call} {succeeds : Prop} (hbuf : buf ∉ r.bufs)
    (hdir : [procDir] ∉ r.proc) (hwithin : Within procDir r.proc proc)
    (hcalls : r.performAll calls = some ⟨proc, insert buf r.bufs, r.hooks⟩)
    (hnew : ∀ hook ∈ wanted kernel, hook ∉ r.hooks)
    (hsucceeds : succeeds ↔ ∀ hook ∈ wanted kernel, a.register hook = 0) :
    let registered := registerHooks a [] (wanted kernel)
    ∃ r', AllOrNothing r
      (if registered.1 ≠ 0 then (registered.1, calls ++ registered.2 ++ removeProc buf)
        else (0, calls ++ registered.2))
      succeeds (wanted kernel).toFinset (traceRunqlatExit a.unregister buf (wanted kernel))
      (stuck a.unregister (wanted kernel)) r' := by
  intro registered
  have hnodup : (wanted kernel).Nodup := nodup_wantedHooks (by decide) kernel
  have hfst : registered.1 = 0 ↔ succeeds := registerHooks_fst.trans hsucceeds.symm
  obtain ⟨left, hleft, hrun⟩ := performAll_registerHooks a [] (wanted kernel)
    (r := ⟨proc, insert buf r.bufs, r.hooks⟩) hnodup (fun _ h => absurd h List.not_mem_nil) hnew
  have hregister : (r.performAll calls).bind (·.performAll registered.2)
      = some ⟨proc, insert buf r.bufs,
        if registered.1 = 0 then r.hooks ∪ (wanted kernel).toFinset else r.hooks ∪ left⟩ := by
    rw [hcalls, Option.bind_some, hrun]
    simp [registered]
  have hundo := performAll_remove hwithin hdir r.bufs hbuf
  refine allOrNothing_check id (fun h hret => hret (hfst.mpr h)) ?_ ?_
  · intro hret
    refine ⟨⟨r.proc, r.bufs, r.hooks ∪ left⟩, ?_, left, hleft, rfl⟩
    rw [performAll_append, performAll_append, hregister, if_neg hret]
    exact hundo _
  · intro hret
    rw [ne_eq, not_not] at hret
    refine ⟨⟨proc, insert buf r.bufs, r.hooks ∪ (wanted kernel).toFinset⟩, ?_,
      iff_of_true rfl (hfst.mp hret), fun _ => rfl, fun h => absurd rfl h, fun _ => ?_⟩
    · rw [performAll_append, hregister, if_pos hret]
    · have hunregister := performAll_unregisterHooks a.unregister
        (r := ⟨proc, insert buf r.bufs, r.hooks ∪ (wanted kernel).toFinset⟩) hnodup
        fun hook hhook => Finset.mem_union_right _ (List.mem_toFinset.mpr hhook)
      refine ⟨⟨r.proc, r.bufs, r.hooks ∪ stuck a.unregister (wanted kernel)⟩, ?_,
        _, Finset.Subset.refl _, rfl⟩
      unfold traceRunqlatExit
      rw [performAll_append, hunregister, Option.bind_some, union_sdiff_wanted hnew, performAll_cons]
      exact hundo _

theorem init_allOrNothing {a : Answers} {kernel : List Tracepoint} {r : Resources}
    (ha : a.Sound r procDir) (hnew : ∀ hook ∈ wanted kernel, hook ∉ r.hooks) :
    ∃ r', AllOrNothing r (traceRunqlatInit a kernel) (Loads a kernel) (wanted kernel).toFinset
      (traceRunqlatExit a.unregister (a.buf.getD 0) (hooksIn kernel))
      (stuck a.unregister (wanted kernel)) r' := by
  have hhooks : (forEachKernelTracepoint tpNames kernel).hooks tpProbes = wanted kernel :=
    hooksIn_eq kernel
  unfold traceRunqlatInit
  rw [hooksIn_eq]
  cases hbuf : a.buf with
  | none =>
      refine ⟨r, allOrNothing_error enomem_ne_zero (fun h => ?_) rfl⟩
      have hsome := h.buf
      rw [hbuf] at hsome
      cases hsome
  | some buf =>
      have hfresh := ha.buf buf hbuf
      refine allOrNothing_check (fun _ => enomem_ne_zero) (fun h => by simp [h.procMkdir])
        (fun _ => ⟨r, performAll_alloc_free hfresh, .refl r _⟩) fun hmkdir => ?_
      have hdir : [procDir] ∉ r.proc := ha.dir (by simpa using hmkdir)
      obtain ⟨proc, hfiles, hwithin⟩ := performAll_files a.procCreate procFiles (by decide) hdir hfresh
      have hclean : ∃ r', r.performAll (.alloc buf :: .procCreate procDir []
            :: (createEntries a.procCreate [procDir] procFiles).2 ++ removeProc buf) = some r'
          ∧ Restored r (stuck a.unregister (wanted kernel)) r' := by
        refine ⟨r, ?_, .refl r _⟩
        rw [performAll_append, hfiles]
        exact performAll_remove hwithin hdir r.bufs hfresh r.hooks
      refine allOrNothing_check (fun _ => enomem_ne_zero) ?_ (fun _ => hclean) fun hcreate => ?_
      · exact fun h => by simp [(createEntries_fst _ [procDir] _).mpr h.procCreate]
      refine allOrNothing_check (fun _ => enomem_ne_zero) ?_ (fun _ => hclean) fun hlookup => ?_
      · exact fun h => by simp [(lookup_spec tpNames kernel).2.mpr h.tracepoint]
      have hfound : ∀ name ∈ tpNames, ∃ tp ∈ kernel, tp.name = name :=
        (lookup_spec tpNames kernel).2.mp (by simpa using hlookup)
      rw [hhooks]
      refine register_allOrNothing hfresh hdir hwithin hfiles hnew ⟨fun h => h.register, ?_⟩
      refine fun hregister => ⟨by simp [hbuf], by simpa using hmkdir, ?_, hfound, hregister⟩
      exact (createEntries_fst _ [procDir] _).mp (by simpa using hcreate)

end Runqlat

namespace Noschedule

open Loading

/-- The probe that is registered when the tracer is enabled, and where it is wanted. -/
def hooksIn (kernel : List Tracepoint) : List Hook :=
  (forEachKernelTracepoint tpNames kernel).hooks tpProbes

def wanted (kernel : List Tracepoint) : List Hook := wantedHooks tpNames tpProbes kernel

theorem hooksIn_eq (kernel : List Tracepoint) : hooksIn kernel = wanted kernel :=
  hooks_eq_wanted (by decide) kernel

/-- All that `trace_noschedule_init` asks for is given. -/
structure Loads (debug : Bool) (a : Answers) (kernel : List Tracepoint) : Prop where
  tracepoint : ∀ name ∈ tpNames, ∃ tp ∈ kernel, tp.name = name
  buf : a.buf.isSome = true
  procMkdir : a.procMkdir = true
  procCreate : ∀ name ∈ procFiles debug, a.procCreate name = true

/-- What becomes of a module that is loaded: it may be enabled before it is removed. -/
def afterInit (unregister : Hook → Int) (enable : Bool) (online : List Nat) (hook : Hook)
    (buf : Nat) : List Call :=
  (if enable then .register hook :: online.map .hrtimerStart else [])
    ++ traceNoscheduleExit unregister enable online hook buf

theorem performAll_start (r : Resources) (online : List Nat) :
    r.performAll (online.map .hrtimerStart) = some r := by
  induction online with
  | nil => rfl
  | cons cpu online ih => exact ih

theorem performAll_cancel (r : Resources) (online : List Nat) :
    r.performAll (online.map .hrtimerCancel) = some r := by
  induction online with
  | nil => rfl
  | cons cpu online ih => exact ih

theorem performAll_afterInit {r : Resources} {buf : Nat} {proc : PathTree String} {hook : Hook}
    (unregister : Hook → Int) (hbuf : buf ∉ r.bufs) (hdir : [procDirName] ∉ r.proc)
    (hwithin : Within procDirName r.proc proc) (hnew : hook ∉ r.hooks) (enable : Bool)
    (online : List Nat) :
    ∃ r'', (Resources.mk proc (insert buf r.bufs) r.hooks).performAll
        (afterInit unregister enable online hook buf) = some r''
      ∧ Restored r (stuck unregister [hook]) r'' := by
  have hundo := performAll_remove hwithin hdir r.bufs hbuf
  cases enable with
  | false => exact ⟨r, hundo r.hooks, .refl r _⟩
  | true =>
      have hunregister := performAll_unregisterHooks unregister
        (r := ⟨proc, insert buf r.bufs, insert hook r.hooks⟩) (List.nodup_singleton hook)
        fun other hother => List.mem_singleton.mp hother ▸ Finset.mem_insert_self ..
      have hgone : insert hook r.hooks \ [hook].toFinset = r.hooks := by
        simp [Finset.sdiff_singleton_eq_erase, Finset.erase_eq_of_notMem hnew]
      refine ⟨⟨r.proc, r.bufs, r.hooks ∪ stuck unregister [hook]⟩, ?_,
        _, Finset.Subset.refl _, rfl⟩
      simp only [afterInit, traceNoscheduleExit, if_true, performAll_append, performAll_cons,
        Resources.perform, hnew, if_false, Option.bind_some, performAll_start, performAll_cancel,
        hunregister, hgone, performAll_nil]
      exact hundo _

theorem init_allOrNothing {debug : Bool} {a : Answers} {kernel : List Tracepoint} {r : Resources}
    {hook : Hook} (ha : a.Sound r procDirName) (hnew : hook ∉ r.hooks) (enable : Bool)
    (online : List Nat) :
    ∃ r', AllOrNothing r (traceNoscheduleInit debug a kernel) (Loads debug a kernel) ∅
      (afterInit a.unregister enable online hook (a.buf.getD 0)) (stuck a.unregister [hook]) r' := by
  unfold traceNoscheduleInit
  refine allOrNothing_check (fun _ => by decide) ?_ (fun _ => ⟨r, rfl, .refl r _⟩) fun hlookup => ?_
  · exact fun h => by simp [(lookup_spec tpNames kernel).2.mpr h.tracepoint]
  have hfound : ∀ name ∈ tpNames, ∃ tp ∈ kernel, tp.name = name :=
    (lookup_spec tpNames kernel).2.mp (by simpa using hlookup)
  cases hbuf : a.buf with
  | none =>
      refine ⟨r, allOrNothing_error enomem_ne_zero (fun h => ?_) rfl⟩
      have hsome := h.buf
      rw [hbuf] at hsome
      cases hsome
  | some buf =>
      have hfresh := ha.buf buf hbuf
      refine allOrNothing_check (fun _ => enomem_ne_zero) (fun h => by simp [h.procMkdir])
        (fun _ => ⟨r, performAll_alloc_free hfresh, .refl r _⟩) fun hmkdir => ?_
      have hdir : [procDirName] ∉ r.proc := ha.dir (by simpa using hmkdir)
      have hnodup : (procFiles debug).Nodup := by cases debug <;> decide
      obtain ⟨proc, hfiles, hwithin⟩ := performAll_files a.procCreate (procFiles debug) hnodup hdir hfresh
      refine allOrNothing_check (fun _ => enomem_ne_zero) ?_ (fun _ => ⟨r, ?_, .refl r _⟩)
        fun hcreate => ?_
      · exact fun h => by simp [(createEntries_fst _ [procDirName] _).mpr h.procCreate]
      · rw [performAll_append, hfiles]
        exact performAll_remove hwithin hdir r.bufs hfresh r.hooks
      refine ⟨_, hfiles, iff_of_true rfl ?_, fun _ => (Finset.union_empty _).symm,
        fun h => absurd rfl h, fun _ => ?_⟩
      · refine ⟨hfound, by simp [hbuf], by simpa using hmkdir, ?_⟩
        exact (createEntries_fst _ [procDirName] _).mp (by simpa using hcreate)
      · exact performAll_afterInit a.unregister hfresh hdir hwithin hnew enable online

end Noschedule

/-- **Loading is all or nothing.** Whatever fails while trace-runqlat or trace-noschedule is loaded,
what was done is undone, and nothing else; and when a module that was loaded is removed, all is as
before. A probe that cannot be unregistered is left behind. Each probe is attached to the first
tracepoint of its name. -/
theorem load_all_or_nothing (kernel : List Loading.Tracepoint) (a : Loading.Answers)
    (r : Loading.Resources) :
    (a.Sound r Runqlat.procDir → (∀ hook ∈ Runqlat.wanted kernel, hook ∉ r.hooks) →
      ∃ r', Loading.AllOrNothing r (Runqlat.traceRunqlatInit a kernel) (Runqlat.Loads a kernel)
        (Runqlat.wanted kernel).toFinset
        (Runqlat.traceRunqlatExit a.unregister (a.buf.getD 0) (Runqlat.hooksIn kernel))
        (Loading.stuck a.unregister (Runqlat.wanted kernel)) r')
    ∧ (a.Sound r Noschedule.procDirName → ∀ debug enable online, ∀ hook ∉ r.hooks,
      ∃ r', Loading.AllOrNothing r (Noschedule.traceNoscheduleInit debug a kernel)
        (Noschedule.Loads debug a kernel) ∅
        (Noschedule.afterInit a.unregister enable online hook (a.buf.getD 0))
        (Loading.stuck a.unregister [hook]) r')
    ∧ Noschedule.hooksIn kernel = Noschedule.wanted kernel :=
  ⟨fun ha hnew => Runqlat.init_allOrNothing ha hnew,
    fun ha _ enable online _ hnew => Noschedule.init_allOrNothing ha hnew enable online,
    Noschedule.hooksIn_eq kernel⟩

/-- A kernel in which no module has anything. -/
def bareResources : Loading.Resources where
  proc := { paths := {[]}, root := by decide, closed := by simp }
  bufs := ∅
  hooks := ∅

/-- The last of the probes cannot be registered. -/
def lastFails : Loading.Answers where
  buf := some 1
  procMkdir := true
  procCreate := fun _ => true
  register := fun hook => if hook.probe = .schedMigrateTask then -Errno.einval.code else 0
  unregister := fun _ => 0

def someTracepoints : List Loading.Tracepoint :=
  [⟨"sched_switch", 0⟩, ⟨"sched_wakeup", 1⟩, ⟨"irq_entry", 2⟩, ⟨"sched_wakeup_new", 3⟩,
    ⟨"sched_migrate_task", 4⟩]

theorem load_all_or_nothing_lastFails :
    (Runqlat.traceRunqlatInit lastFails someTracepoints).1 = -22
      ∧ ∃ r', bareResources.performAll (Runqlat.traceRunqlatInit lastFails someTracepoints).2 = some r'
        ∧ r' = bareResources := by
  have hsound : lastFails.Sound bareResources Runqlat.procDir := ⟨nofun, fun _ => by decide⟩
  obtain ⟨r', hr'⟩ := (load_all_or_nothing someTracepoints lastFails bareResources).1
    hsound fun hook _ => Finset.notMem_empty hook
  have hcode : (Runqlat.traceRunqlatInit lastFails someTracepoints).1 = -22 := by decide
  have hnone : Loading.stuck lastFails.unregister (Runqlat.wanted someTracepoints) = ∅ := by decide
  obtain ⟨hooks, hsub, hrestored⟩ := hr'.error (by rw [hcode]; decide)
  rw [hnone, Finset.subset_empty] at hsub
  subst hsub
  exact ⟨hcode, r', hr'.calls, hrestored⟩

end UioLinuxSample
