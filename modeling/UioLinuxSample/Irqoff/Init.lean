import UioLinuxSample.Kernel
import UioLinuxSample.Lib.PathTree

set_option autoImplicit false

/-! # Loading trace-irqoff

`trace_irqoff_init` allocates the per-CPU area, makes the directory `/proc/trace_irqoff` and four
entries in it. When a call fails it jumps into a ladder of labels at the end of the function, each
of which falls through to the next one. The label `free_percpu` is the first of them and not the
last. So a failed `proc_mkdir` also gets to the labels that remove the entries, with a
`parent_dir` that is `NULL`, which stands for the root of the tree; and a failed `proc_create`
enters the ladder below `free_percpu`, and the area is lost (`init_of_no_dir`, `init_of_dir`).
-/

namespace UioLinuxSample.Irqoff

/-! ## The resources -/

/-- The entries of `/proc` and the per-CPU areas that are allocated. -/
@[ext]
structure Resources where
  proc : PathTree String
  percpu : Finset Nat

namespace Resources

/-- An area that is not in use. -/
def newArea (r : Resources) : Nat := r.percpu.sup id + 1

/-- `alloc_percpu`, with its outcome. -/
def allocPercpu (r : Resources) (ok : Bool) : Option (Nat × Resources) :=
  if ok then some (r.newArea, { r with percpu := insert r.newArea r.percpu }) else none

/-- `free_percpu`. -/
def freePercpu (r : Resources) (area : Nat) : Resources :=
  { r with percpu := r.percpu.erase area }

/-- The path of a directory: a `parent` that is `NULL` is the root. -/
def dirOf (parent : Option (List String)) : List String := parent.getD []

/-- `proc_create`, and `proc_mkdir`, which returns the new directory. -/
def procCreate (r : Resources) (ok : Bool) (name : String) (parent : Option (List String)) :
    Option (List String × Resources) :=
  if ok then
    (r.proc.create name (dirOf parent)).map fun proc => (name :: dirOf parent, { r with proc })
  else none

/-- `remove_proc_entry`, which warns if there is no such entry, and `remove_proc_subtree`. -/
def removeProcEntry (r : Resources) (name : String) (parent : Option (List String)) :
    Resources :=
  { r with proc := r.proc.remove name (dirOf parent) }

/-- `proc_remove`, which does nothing for `NULL`. -/
def procRemove (r : Resources) : Option (List String) → Resources
  | some (name :: dir) => r.removeProcEntry name (some dir)
  | _ => r

end Resources

/-! ## `trace_irqoff_init` -/

/-- Whether the calls succeed, as far as they are made. -/
structure Outcomes where
  allocPercpu : Bool
  procMkdir : Bool
  distribute : Bool
  traceLatency : Bool
  enable : Bool
  samplingPeriod : Bool

/-- The labels, from the last one up. -/
def removeTraceIrqoff (parentDir : Option (List String)) (r : Resources) : Int × Resources :=
  (-Errno.enomem.code, r.procRemove parentDir)

def removeDistribute (parentDir : Option (List String)) (r : Resources) : Int × Resources :=
  removeTraceIrqoff parentDir (r.removeProcEntry "distribute" parentDir)

def removeTraceLatency (parentDir : Option (List String)) (r : Resources) : Int × Resources :=
  removeDistribute parentDir (r.removeProcEntry "trace_latency" parentDir)

def removeEnable (parentDir : Option (List String)) (r : Resources) : Int × Resources :=
  removeTraceLatency parentDir (r.removeProcEntry "enable" parentDir)

def freePercpu (cpuStackTrace : Nat) (parentDir : Option (List String)) (r : Resources) :
    Int × Resources :=
  removeEnable parentDir (r.freePercpu cpuStackTrace)

/-- `trace_irqoff_init`. -/
def traceIrqoffInit (o : Outcomes) (r : Resources) : Int × Resources :=
  match r.allocPercpu o.allocPercpu with
  | none => (-Errno.enomem.code, r)
  | some (cpuStackTrace, r) =>
  match r.procCreate o.procMkdir "trace_irqoff" none with
  | none => freePercpu cpuStackTrace none r
  | some (parentDir, r) =>
  match r.procCreate o.distribute "distribute" (some parentDir) with
  | none => removeTraceIrqoff (some parentDir) r
  | some (_, r) =>
  match r.procCreate o.traceLatency "trace_latency" (some parentDir) with
  | none => removeDistribute (some parentDir) r
  | some (_, r) =>
  match r.procCreate o.enable "enable" (some parentDir) with
  | none => removeTraceLatency (some parentDir) r
  | some (_, r) =>
  match r.procCreate o.samplingPeriod "sampling_period" (some parentDir) with
  | none => removeEnable (some parentDir) r
  | some (_, r) => (0, r)

/-- `trace_irqoff_exit`, as far as it releases what `trace_irqoff_init` has acquired. -/
def traceIrqoffExit (cpuStackTrace : Nat) (r : Resources) : Resources :=
  (r.removeProcEntry "trace_irqoff" none).freePercpu cpuStackTrace

/-! ## What a call leaves -/

section Init

variable {o : Outcomes} {r : Resources}

theorem newArea_not_mem (r : Resources) : r.newArea ∉ r.percpu := by
  intro hmem
  have hle : r.newArea ≤ r.percpu.sup id := Finset.le_sup (f := id) hmem
  exact Nat.not_succ_le_self _ hle

theorem procCreate_of_create {name : String} {parent : Option (List String)}
    {t : PathTree String} (h : r.proc.create name (Resources.dirOf parent) = some t) :
    r.procCreate true name parent
      = some (name :: Resources.dirOf parent, { r with proc := t }) := by
  unfold Resources.procCreate
  rw [if_pos rfl, h]
  rfl

/-- The paths that a call is to add. -/
def addedPaths : Finset (List String) :=
  {["trace_irqoff"], ["distribute", "trace_irqoff"], ["trace_latency", "trace_irqoff"],
    ["enable", "trace_irqoff"], ["sampling_period", "trace_irqoff"]}

theorem addedPaths_below : ∀ p ∈ addedPaths, ["trace_irqoff"] <:+ p := by decide

/-- All calls of `proc_create` succeed. -/
def Outcomes.AllCreated (o : Outcomes) : Prop :=
  o.distribute = true ∧ o.traceLatency = true ∧ o.enable = true ∧ o.samplingPeriod = true

/-- `proc_mkdir` fails, for want of memory or because of an entry that is there. -/
def MkdirFails (o : Outcomes) (r : Resources) : Prop :=
  o.procMkdir = false ∨ ["trace_irqoff"] ∈ r.proc

theorem init_of_no_area (halloc : o.allocPercpu = false) :
    traceIrqoffInit o r = (-Errno.enomem.code, r) := by
  unfold traceIrqoffInit Resources.allocPercpu
  rw [halloc]
  rfl

/-- The area is freed, and then three entries of the root are removed. -/
theorem init_of_no_dir (halloc : o.allocPercpu = true) (hmkdir : MkdirFails o r) :
    traceIrqoffInit o r = (-Errno.enomem.code, { r with
      proc := ((r.proc.remove "enable" []).remove "trace_latency" []).remove "distribute" [] }) := by
  have hnone : Resources.procCreate { r with percpu := insert r.newArea r.percpu } o.procMkdir
      "trace_irqoff" none = none := by
    unfold Resources.procCreate
    rcases hmkdir with hfalse | hmem
    · rw [hfalse]
      rfl
    · have hcreate : r.proc.create "trace_irqoff" [] = none :=
        PathTree.create_eq_none_iff.mpr fun _ => hmem
      cases o.procMkdir
      · rfl
      · show (r.proc.create "trace_irqoff" []).map _ = none
        rw [hcreate]
        rfl
  have hfreed : (insert r.newArea r.percpu).erase r.newArea = r.percpu :=
    Finset.erase_insert (newArea_not_mem r)
  unfold traceIrqoffInit Resources.allocPercpu
  rw [halloc, if_pos rfl]
  dsimp only
  rw [hnone]
  dsimp only [freePercpu, removeEnable, removeTraceLatency, removeDistribute, removeTraceIrqoff,
    Resources.freePercpu, Resources.removeProcEntry, Resources.procRemove, Resources.dirOf]
  rw [hfreed]
  rfl

theorem undo_procCreate {t t' : PathTree String} {name : String} {dir : List String}
    (h : t.create name dir = some t') (percpu : Finset Nat) :
    Resources.removeProcEntry ⟨t', percpu⟩ name (some dir) = ⟨t, percpu⟩ := by
  unfold Resources.removeProcEntry
  dsimp only [Resources.dirOf, Option.getD_some]
  rw [PathTree.remove_of_create h]

theorem removeTraceIrqoff_undo {t t' : PathTree String}
    (h : t.create "trace_irqoff" [] = some t') (percpu : Finset Nat) :
    removeTraceIrqoff (some ["trace_irqoff"]) ⟨t', percpu⟩
      = (-Errno.enomem.code, ⟨t, percpu⟩) := by
  unfold removeTraceIrqoff Resources.procRemove
  dsimp only
  rw [undo_procCreate h]

/-- The directory is made. If an entry fails, what is in the tree is removed again, but not the
area. -/
theorem init_of_dir (halloc : o.allocPercpu = true) (hmkdir : ¬ MkdirFails o r) :
    ∃ proc, (∀ p, p ∈ proc ↔ p ∈ addedPaths ∨ p ∈ r.proc)
      ∧ (o.AllCreated →
          traceIrqoffInit o r = (0, { proc := proc, percpu := insert r.newArea r.percpu }))
      ∧ (¬ o.AllCreated → traceIrqoffInit o r
          = (-Errno.enomem.code, { r with percpu := insert r.newArea r.percpu })) := by
  obtain ⟨hok, hfree⟩ := not_or.mp hmkdir
  replace hok : o.procMkdir = true := by simpa using hok
  -- the trees after each of the five calls
  obtain ⟨t₁, h₁⟩ := PathTree.exists_create r.proc.root hfree
  have hdir₁ : ["trace_irqoff"] ∈ t₁ := ((PathTree.create_spec h₁).2.2 _).mpr (.inl rfl)
  have hfree₁ : ∀ name, [name, "trace_irqoff"] ∉ t₁ := fun name => PathTree.not_mem_new h₁
  obtain ⟨t₂, h₂⟩ := PathTree.exists_create hdir₁ (hfree₁ "distribute")
  have hdir₂ := PathTree.mem_of_create h₂ hdir₁
  have hfree₂ : ∀ name, name ≠ "distribute" → [name, "trace_irqoff"] ∉ t₂ :=
    fun name hne => PathTree.not_mem_of_create h₂ hne (hfree₁ name)
  obtain ⟨t₃, h₃⟩ := PathTree.exists_create hdir₂ (hfree₂ "trace_latency" (by decide))
  have hdir₃ := PathTree.mem_of_create h₃ hdir₂
  have hfree₃ : ["enable", "trace_irqoff"] ∉ t₃ :=
    PathTree.not_mem_of_create h₃ (by decide) (hfree₂ _ (by decide))
  obtain ⟨t₄, h₄⟩ := PathTree.exists_create hdir₃ hfree₃
  have hfree₄ : ["sampling_period", "trace_irqoff"] ∉ t₄ :=
    PathTree.not_mem_of_create h₄ (by decide)
      (PathTree.not_mem_of_create h₃ (by decide) (hfree₂ _ (by decide)))
  obtain ⟨t₅, h₅⟩ := PathTree.exists_create (PathTree.mem_of_create h₄ hdir₃) hfree₄
  refine ⟨t₅, ?_, ?_⟩
  · intro p
    rw [(PathTree.create_spec h₅).2.2, (PathTree.create_spec h₄).2.2,
      (PathTree.create_spec h₃).2.2, (PathTree.create_spec h₂).2.2, (PathTree.create_spec h₁).2.2]
    simp only [addedPaths, Finset.mem_insert, Finset.mem_singleton]
    grind
  · -- each label removes the entry of the call before, down to the directory
    have label₁ := removeTraceIrqoff_undo h₁ (insert r.newArea r.percpu)
    have label₂ := (congrArg (removeTraceIrqoff _) (undo_procCreate h₂ _)).trans label₁
    have label₃ := (congrArg (removeDistribute _) (undo_procCreate h₃ _)).trans label₂
    have label₄ := (congrArg (removeTraceLatency _) (undo_procCreate h₄ _)).trans label₃
    unfold traceIrqoffInit Resources.allocPercpu Outcomes.AllCreated
    rw [halloc, hok, if_pos rfl]
    dsimp only
    rw [procCreate_of_create h₁]
    dsimp only
    cases o.distribute with
    | false => exact ⟨fun h => (nomatch h.1), fun _ => label₁⟩
    | true =>
        rw [procCreate_of_create h₂]
        dsimp only
        cases o.traceLatency with
        | false => exact ⟨fun h => (nomatch h.2.1), fun _ => label₂⟩
        | true =>
            rw [procCreate_of_create h₃]
            dsimp only
            cases o.enable with
            | false => exact ⟨fun h => (nomatch h.2.2.1), fun _ => label₃⟩
            | true =>
                rw [procCreate_of_create h₄]
                dsimp only
                cases o.samplingPeriod with
                | false => exact ⟨fun h => (nomatch h.2.2.2), fun _ => label₄⟩
                | true =>
                    rw [procCreate_of_create h₅]
                    exact ⟨fun _ => rfl, fun hnot => absurd ⟨rfl, rfl, rfl, rfl⟩ hnot⟩

/-! ## Atomicity -/

/-- The outcome `out` of a call in the state `r`: an error leaves everything as it was, and 0 comes
with one area, the directory and its four entries. -/
structure Atomic (r : Resources) (out : Int × Resources) : Prop where
  error : out.1 ≠ 0 → out.2 = r
  success : out.1 = 0 →
    (∃ area, area ∉ r.percpu ∧ out.2.percpu = insert area r.percpu)
      ∧ (∀ p ∈ addedPaths, p ∉ r.proc) ∧ ∀ p, p ∈ out.2.proc ↔ p ∈ addedPaths ∨ p ∈ r.proc

/-- A failed call is atomic if it has left nothing. -/
theorem atomic_error_iff {r' : Resources} : Atomic r (-Errno.enomem.code, r') ↔ r' = r := by
  have hcode : (-Errno.enomem.code) ≠ 0 := by decide
  exact ⟨fun h => h.error hcode, fun h => ⟨fun _ => h, fun hzero => absurd hzero hcode⟩⟩

/-- The three entries that `free_percpu` falls through to. -/
theorem remove_three_eq_self_iff {t : PathTree String} :
    ((t.remove "enable" []).remove "trace_latency" []).remove "distribute" [] = t
      ↔ ["enable"] ∉ t ∧ ["trace_latency"] ∉ t ∧ ["distribute"] ∉ t := by
  constructor
  · intro h
    -- a path in the tree is one that no removal has taken
    have hmem : ∀ p ∈ t, ¬ ["enable"] <:+ p ∧ ¬ ["trace_latency"] <:+ p
        ∧ ¬ ["distribute"] <:+ p := by
      intro p hp
      rw [← h, PathTree.mem_remove, PathTree.mem_remove, PathTree.mem_remove] at hp
      exact ⟨hp.1.1.2, hp.1.2, hp.2⟩
    exact ⟨fun he => (hmem _ he).1 List.suffix_rfl, fun hl => (hmem _ hl).2.1 List.suffix_rfl,
      fun hd => (hmem _ hd).2.2 List.suffix_rfl⟩
  · rintro ⟨henable, hlatency, hdistribute⟩
    rw [PathTree.remove_eq_self_iff.mpr henable, PathTree.remove_eq_self_iff.mpr hlatency,
      PathTree.remove_eq_self_iff.mpr hdistribute]

/-- **When `trace_irqoff_init` is atomic.** It is if `alloc_percpu` fails; if `proc_mkdir` fails and
the root has no entry of one of three names; and if it succeeds. -/
theorem init_atomic_iff (o : Outcomes) (r : Resources) :
    Atomic r (traceIrqoffInit o r)
      ↔ o.allocPercpu = false
        ∨ (MkdirFails o r
          ∧ ["enable"] ∉ r.proc ∧ ["trace_latency"] ∉ r.proc ∧ ["distribute"] ∉ r.proc)
        ∨ (¬ MkdirFails o r ∧ o.AllCreated) := by
  cases halloc : o.allocPercpu with
  | false =>
      rw [init_of_no_area halloc, atomic_error_iff]
      simp
  | true =>
      by_cases hmkdir : MkdirFails o r
      · rw [init_of_no_dir halloc hmkdir, atomic_error_iff, ← remove_three_eq_self_iff]
        simp [hmkdir, Resources.ext_iff]
      · obtain ⟨proc, hproc, hall, hfail⟩ := init_of_dir halloc hmkdir
        by_cases hcreated : o.AllCreated
        · rw [hall hcreated]
          refine iff_of_true ⟨fun h => absurd rfl h, fun _ => ⟨⟨_, newArea_not_mem r, rfl⟩, ?_, hproc⟩⟩
            (.inr (.inr ⟨hmkdir, hcreated⟩))
          -- the entries are new since their directory is
          intro p hp hmem
          exact hmkdir (.inr (PathTree.mem_of_suffix hmem (addedPaths_below p hp)))
        · rw [hfail hcreated, atomic_error_iff]
          refine iff_of_false ?_ (by simp [hmkdir, hcreated])
          -- the error leaves the area allocated
          intro heq
          have hpercpu : insert r.newArea r.percpu = r.percpu := congrArg Resources.percpu heq
          exact newArea_not_mem r (Finset.insert_eq_self.mp hpercpu)

/-- A tree with the directory `/proc/fs` and an entry `/proc/enable` of another module. -/
def busyTree : PathTree String where
  paths := {[], ["fs"], ["enable"]}
  root := by decide
  closed := by
    intro a dir h
    simp only [Finset.mem_insert, Finset.mem_singleton, List.cons.injEq, reduceCtorEq,
      false_or] at h
    rcases h with ⟨-, rfl⟩ | ⟨-, rfl⟩ <;> decide

/-- No memory for the directory: the other module loses its entry. No memory for the first entry:
an area is left. -/
theorem init_not_atomic :
    (traceIrqoffInit ⟨true, false, true, true, true, true⟩ ⟨busyTree, ∅⟩).1 = -12
      ∧ ["enable"] ∈ busyTree
      ∧ ["enable"] ∉ (traceIrqoffInit ⟨true, false, true, true, true, true⟩ ⟨busyTree, ∅⟩).2.proc
      ∧ (traceIrqoffInit ⟨true, true, false, true, true, true⟩ ⟨busyTree, ∅⟩).1 = -12
      ∧ (traceIrqoffInit ⟨true, true, false, true, true, true⟩ ⟨busyTree, ∅⟩).2.percpu = {1} := by
  decide

/-- **Unloading undoes loading.** `trace_irqoff_exit` removes the directory with its entries, so
after a call that returned 0 everything is as it was. -/
theorem exit_after_init (h : (traceIrqoffInit o r).1 = 0) :
    traceIrqoffExit r.newArea (traceIrqoffInit o r).2 = r := by
  have hcode : (-Errno.enomem.code) ≠ 0 := by decide
  cases halloc : o.allocPercpu with
  | false =>
      rw [init_of_no_area halloc] at h
      exact absurd h hcode
  | true =>
      by_cases hmkdir : MkdirFails o r
      · rw [init_of_no_dir halloc hmkdir] at h
        exact absurd h hcode
      · obtain ⟨proc, hproc, hall, hfail⟩ := init_of_dir halloc hmkdir
        by_cases hcreated : o.AllCreated
        · rw [hall hcreated]
          refine Resources.ext (PathTree.ext_mem fun p => ?_) ?_
          · show p ∈ proc.remove "trace_irqoff" [] ↔ p ∈ r.proc
            rw [PathTree.mem_remove, hproc]
            constructor
            · rintro ⟨hp | hp, hnot⟩
              · exact absurd (addedPaths_below p hp) hnot
              · exact hp
            · intro hp
              exact ⟨.inr hp, fun hbelow => hmkdir (.inr (PathTree.mem_of_suffix hp hbelow))⟩
          · exact Finset.erase_insert (newArea_not_mem r)
        · rw [hfail hcreated] at h
          exact absurd h hcode

end Init

end UioLinuxSample.Irqoff
