import UioLinuxSample.Lib.Run

set_option autoImplicit false

/-! # `userns_child_exec.c`: the parent and its child

The program runs a command in a new user namespace. The child is not to execute the command before the
parent has written the maps of user and group ids, so it first waits for the end of a pipe whose write
end the parent closes when it is done. Both processes have the write end open after `clone`, and the
child closes its own.

The pipe does what it is for as long as nothing fails (`exec_after_maps`). But a parent that cannot write
a map exits, which closes the pipe as well, and the child executes the command without it.
-/

namespace UioLinuxSample.Userns

open Run

/-! ## The two processes -/

inductive MapFile where
  | uid
  | gid
  deriving DecidableEq

/-- The arguments of `-M` and `-G`. -/
structure Options where
  uidMap : Option (List Char)
  gidMap : Option (List Char)

def Options.mapping (o : Options) : MapFile → Option (List Char)
  | .uid => o.uidMap
  | .gid => o.gidMap

/-- The loop of `update_map` over `mapping[j]`. -/
def replaceCommas (mapping : List Char) : List Char :=
  (List.range mapping.length).foldl
    (fun mapping j => if mapping[j]? = some ',' then mapping.set j '\n' else mapping) mapping

/-- A mapping as it is to be: its records are separated by commas on the command line, and by newlines
in the file. -/
def withNewlines (mapping : List Char) : List Char := mapping.map fun c => if c = ',' then '\n' else c

/-- What the maps are to be. -/
def Options.wanted (o : Options) (f : MapFile) : Option (List Char) := (o.mapping f).map withNewlines

/-- The calls of the parent after `clone`. -/
inductive ParentCall where
  | openMap (f : MapFile)
  | writeMap (f : MapFile)
  | closePipe
  | waitpid
  deriving DecidableEq

/-- `if (uid_map != NULL) update_map(...)`. -/
def updateMap (o : Options) (f : MapFile) : List ParentCall :=
  if (o.mapping f).isSome then [.openMap f, .writeMap f] else []

/-- `main`, from `clone` on. -/
def parentMain (o : Options) : List ParentCall :=
  updateMap o .uid ++ updateMap o .gid ++ [.closePipe, .waitpid]

inductive Parent where
  | running (todo : List ParentCall)
  | exited (status : Nat)
  deriving DecidableEq

/-- The child executes the command with the maps that there are then. -/
inductive Child where
  | cloned
  | reading
  | executing (maps : MapFile → Option (List Char))
  | failed

/-- The processes, whether they have the write end of the pipe open, and the maps of the namespace. -/
structure System where
  parent : Parent
  child : Child
  parentEnd : Bool
  childEnd : Bool
  maps : MapFile → Option (List Char)

def System.init (o : Options) : System where
  parent := .running (parentMain o)
  child := .cloned
  parentEnd := true
  childEnd := true
  maps := fun _ => none

namespace System

/-- `exit`, which closes all descriptors. -/
def parentExit (s : System) (status : Nat) : System :=
  { s with parent := .exited status, parentEnd := false }

/-- The next call of the parent, with its result. A map is written at once or not at all. -/
def parentStep (o : Options) (s : System) (result : Int) : System :=
  match s.parent with
  | .exited _ | .running [] => s
  | .running (.openMap _ :: todo) =>
      if result = -1 then s.parentExit 1 else { s with parent := .running todo }
  | .running (.writeMap f :: todo) =>
      if result ≠ (((o.mapping f).getD []).length : Int) then s.parentExit 1
      else
        { s with
          parent := .running todo
          maps := Function.update s.maps f ((o.mapping f).map replaceCommas) }
  | .running (.closePipe :: todo) => { s with parent := .running todo, parentEnd := false }
  | .running (.waitpid :: _) =>
      if result = -1 then s.parentExit 1
      else
        match s.child with
        | .cloned | .reading => s
        | .executing _ | .failed => s.parentExit 0

/-- `childFunc`. Nothing is ever written to the pipe, so `read` waits until no process has its write
end. -/
def childStep (s : System) (result : Int) : System :=
  match s.child with
  | .cloned => { s with childEnd := false, child := .reading }
  | .reading =>
      if result < 0 then { s with child := .failed }
      else if s.parentEnd || s.childEnd then s
      else { s with child := .executing s.maps }
  | .executing _ | .failed => s

end System

inductive Event where
  | parent (result : Int)
  | child (result : Int)

def step (o : Options) (s : System) : Event → System
  | .parent result => s.parentStep o result
  | .child result => s.childStep result

/-! ## The text of a map -/

/-- After `n` turns of the loop the first `n` characters are done. -/
theorem foldl_replaceCommas (mapping : List Char) {n : ℕ} (hn : n ≤ mapping.length) :
    (List.range n).foldl
        (fun mapping j => if mapping[j]? = some ',' then mapping.set j '\n' else mapping) mapping
      = withNewlines (mapping.take n) ++ mapping.drop n := by
  induction n with
  | zero => rfl
  | succ n ih =>
      have hlt : n < mapping.length := hn
      have hlen : (withNewlines (mapping.take n)).length = n := by simp [withNewlines, hlt.le]
      have hat : (withNewlines (mapping.take n) ++ mapping.drop n)[n]? = some mapping[n] := by
        rw [List.getElem?_append_right (by omega), hlen]
        simp
      have hset : (withNewlines (mapping.take n) ++ mapping.drop n).set n '\n'
          = withNewlines (mapping.take n) ++ '\n' :: mapping.drop (n + 1) := by
        rw [List.set_append_right _ _ (by omega), hlen, List.drop_eq_getElem_cons hlt, Nat.sub_self,
          List.set_cons_zero]
      have hsucc : withNewlines (mapping.take (n + 1))
          = withNewlines (mapping.take n) ++ [if mapping[n] = ',' then '\n' else mapping[n]] := by
        rw [← List.take_concat_get' mapping n hlt, withNewlines, List.map_append]
        rfl
      rw [List.range_succ, List.foldl_append, ih hlt.le, List.foldl_cons, List.foldl_nil, hat, hset, hsucc,
        List.append_assoc]
      by_cases hcomma : mapping[n] = ','
      · rw [if_pos (congrArg some hcomma), if_pos hcomma]
        rfl
      · rw [if_neg (mt Option.some.inj hcomma), if_neg hcomma, List.drop_eq_getElem_cons hlt]
        rfl

/-- The loop makes of a mapping what it is to be. -/
theorem replaceCommas_eq (mapping : List Char) : replaceCommas mapping = withNewlines mapping := by
  rw [replaceCommas, foldl_replaceCommas mapping le_rfl, List.take_length, List.drop_length,
    List.append_nil]

theorem map_replaceCommas (o : Options) (f : MapFile) :
    (o.mapping f).map replaceCommas = o.wanted f := by
  rw [Options.wanted, funext replaceCommas_eq]

/-! ## The order of the calls -/

/-- The pipe is closed after the last map has been written, and `waitpid` is the last call. -/
structure Ordered (todo : List ParentCall) : Prop where
  after : todo.Pairwise fun a b => (a = .closePipe → b = .waitpid) ∧ a ≠ .waitpid
  close : ∀ f, .writeMap f ∈ todo → .closePipe ∈ todo

theorem Ordered.tail {call : ParentCall} {todo : List ParentCall} (h : Ordered (call :: todo)) :
    Ordered todo := by
  obtain ⟨hcall, hafter⟩ := List.pairwise_cons.mp h.after
  refine ⟨hafter, fun f hf => ?_⟩
  refine (List.mem_cons.mp (h.close f (List.mem_cons_of_mem _ hf))).resolve_left fun hclose => ?_
  exact nomatch (hcall _ hf).1 hclose.symm

theorem ordered_parentMain (o : Options) : Ordered (parentMain o) := by
  obtain ⟨uid, gid⟩ := o
  constructor
  · cases uid <;> cases gid <;> simp [parentMain, updateMap, Options.mapping]
  · intro f _
    simp [parentMain]

theorem mem_updateMap {o : Options} {f g : MapFile} :
    .writeMap f ∈ updateMap o g ↔ f = g ∧ (o.mapping f).isSome = true := by
  unfold updateMap
  split <;> simp_all

theorem mem_parentMain {o : Options} {f : MapFile} :
    .writeMap f ∈ parentMain o ↔ (o.mapping f).isSome = true := by
  unfold parentMain
  cases f <;> simp [mem_updateMap]

/-! ## The invariant -/

/-- What the state of the parent says of the pipe and of the maps. -/
def ParentOk (o : Options) (s : System) : Parent → Prop
  | .running todo => Ordered todo ∧ (s.parentEnd = true ↔ .closePipe ∈ todo)
      ∧ ∀ f, .writeMap f ∉ todo → s.maps f = o.wanted f
  | .exited status => s.parentEnd = false ∧ (status = 0 → s.maps = o.wanted) ∧ status ≤ 1

/-- A child that executes the command has waited for the parent. -/
structure Inv (o : Options) (s : System) : Prop where
  parent : ParentOk o s s.parent
  reading : s.child = .reading → s.childEnd = false
  executing : ∀ maps, s.child = .executing maps →
    s.parentEnd = false ∧ (maps = o.wanted ∨ s.parent = .exited 1)

section Steps

variable {o : Options} {s : System} {call : ParentCall} {todo : List ParentCall}

theorem inv_init (o : Options) : Inv o (System.init o) := by
  refine ⟨⟨ordered_parentMain o, ?_, fun f hf => ?_⟩, nofun, nofun⟩
  · simp [System.init, parentMain]
  · have hnone : o.mapping f = none := by
      rw [mem_parentMain, Option.not_isSome_iff_eq_none] at hf
      exact hf
    simp [System.init, Options.wanted, hnone]

/-- Nothing but `exit` makes a parent one that has failed, so a child that executes has all maps. -/
theorem Inv.executing_running (h : Inv o s) (hrun : s.parent = .running todo)
    {maps : MapFile → Option (List Char)} (hexec : s.child = .executing maps) :
    s.parentEnd = false ∧ maps = o.wanted := by
  obtain ⟨hend, hmaps⟩ := h.executing maps hexec
  refine ⟨hend, hmaps.resolve_right fun hexited => ?_⟩
  rw [hrun] at hexited
  cases hexited

/-- The parent goes on to its next call. -/
theorem Inv.next {parentEnd : Bool} {maps : MapFile → Option (List Char)} (h : Inv o s)
    (hrun : s.parent = .running (call :: todo)) (hend : parentEnd = true ↔ .closePipe ∈ todo)
    (hclosed : s.parentEnd = false → parentEnd = false)
    (hmaps : ∀ f, .writeMap f ∉ todo → maps f = o.wanted f) :
    Inv o { s with parent := .running todo, parentEnd, maps } := by
  have hparent := h.parent
  rw [hrun] at hparent
  refine ⟨⟨hparent.1.tail, hend, hmaps⟩, h.reading, fun maps hexec => ?_⟩
  obtain ⟨hopen, hall⟩ := h.executing_running hrun hexec
  exact ⟨hclosed hopen, .inl hall⟩

theorem Inv.fail (h : Inv o s) : Inv o (s.parentExit 1) :=
  ⟨⟨rfl, nofun, Nat.le_refl 1⟩, h.reading, fun _ _ => ⟨rfl, .inr rfl⟩⟩

theorem Inv.parentStep (h : Inv o s) (result : Int) : Inv o (s.parentStep o result) := by
  have hparent := h.parent
  unfold System.parentStep
  split
  · exact h
  · exact h
  · next f todo hrun =>
      rw [hrun] at hparent
      obtain ⟨-, hend, hmaps⟩ := hparent
      split
      · exact h.fail
      · refine h.next hrun (hend.trans ?_) id fun g hg => hmaps g ?_ <;> simp_all
  · next f todo hrun =>
      rw [hrun] at hparent
      obtain ⟨-, hend, hmaps⟩ := hparent
      split
      · exact h.fail
      · refine h.next hrun (hend.trans (by simp)) id fun g hg => ?_
        rcases eq_or_ne g f with rfl | hne
        · rw [Function.update_self, map_replaceCommas]
        · rw [Function.update_of_ne hne]
          exact hmaps g (by simp [hne, hg])
  · next todo hrun =>
      rw [hrun] at hparent
      obtain ⟨hordered, -, hmaps⟩ := hparent
      have hlast : ∀ call ∈ todo, call = .waitpid := fun call hcall =>
        ((List.pairwise_cons.mp hordered.after).1 call hcall).1 rfl
      refine h.next hrun ⟨nofun, fun hclose => nomatch hlast _ hclose⟩ (fun _ => rfl) fun g hg => ?_
      exact hmaps g (by simp [hg])
  · next todo hrun =>
      rw [hrun] at hparent
      obtain ⟨hordered, -, hmaps⟩ := hparent
      have hlast : todo = [] := List.eq_nil_iff_forall_not_mem.mpr fun call hcall =>
        ((List.pairwise_cons.mp hordered.after).1 call hcall).2 rfl
      have hall : s.maps = o.wanted := funext fun f => hmaps f (by simp [hlast])
      have hexit : Inv o (s.parentExit 0) :=
        ⟨⟨rfl, fun _ => hall, Nat.zero_le 1⟩, h.reading,
          fun maps hexec => ⟨rfl, .inl (h.executing_running hrun hexec).2⟩⟩
      split
      · exact h.fail
      · split
        · exact h
        · exact h
        · exact hexit
        · exact hexit

theorem ParentOk.maps_eq (h : ParentOk o s s.parent) (hend : s.parentEnd = false) :
    s.maps = o.wanted ∨ s.parent = .exited 1 := by
  cases hparent : s.parent with
  | running todo =>
      rw [hparent] at h
      obtain ⟨hordered, hopen, hmaps⟩ := h
      refine .inl (funext fun f => hmaps f fun hf => ?_)
      rw [hopen.mpr (hordered.close f hf)] at hend
      cases hend
  | exited status =>
      rw [hparent] at h
      obtain ⟨-, hall, hle⟩ := h
      rcases Nat.le_one_iff_eq_zero_or_eq_one.mp hle with rfl | rfl
      · exact .inl (hall rfl)
      · exact .inr rfl

theorem Inv.childStep (h : Inv o s) (result : Int) : Inv o (s.childStep result) := by
  unfold System.childStep
  split
  · exact ⟨h.parent, fun _ => rfl, nofun⟩
  · split_ifs with herror hwait
    · exact ⟨h.parent, nofun, nofun⟩
    · exact h
    · -- the end of the pipe: the parent has closed it, in one way or the other
      have hend : s.parentEnd = false := by
        rw [Bool.or_eq_true, not_or, Bool.not_eq_true] at hwait
        exact hwait.1
      refine ⟨h.parent, nofun, ?_⟩
      rintro maps ⟨⟩
      exact ⟨hend, h.parent.maps_eq hend⟩
  · exact h
  · exact h

theorem Inv.step (s : System) (e : Event) (h : Inv o s) : Inv o (step o s e) := by
  cases e with
  | parent result => exact h.parentStep result
  | child result => exact h.childStep result

/-- Once the parent has closed the pipe, nothing keeps the child. -/
theorem Inv.executes (h : Inv o s) (hend : s.parentEnd = false) (hfailed : s.child ≠ .failed) :
    ∃ n maps, (run (Userns.step o) s (List.replicate n (.child 0))).child = .executing maps := by
  cases hchild : s.child with
  | cloned =>
      refine ⟨2, s.maps, ?_⟩
      simp [Userns.step, System.childStep, hchild, hend]
  | reading =>
      refine ⟨1, s.maps, ?_⟩
      simp [Userns.step, System.childStep, hchild, hend, h.reading hchild]
  | executing maps => exact ⟨0, maps, hchild⟩
  | failed => exact absurd hchild hfailed

end Steps

/-- **The command and the maps.** When the child executes the command, the parent has written all the
maps, or it has failed. The two never wait for each other: as soon as the parent waits for the child
the command can be executed. This is also so when the parent has failed. -/
theorem exec_after_maps (o : Options) (es : List Event) :
    let s := run (step o) (System.init o) es
    (∀ maps, s.child = .executing maps → maps = o.wanted ∨ s.parent = .exited 1)
      ∧ (s.parent = .running [.waitpid] ∨ s.parent = .exited 1 → s.child ≠ .failed →
        ∃ n maps, (run (step o) s (List.replicate n (.child 0))).child = .executing maps) := by
  intro s
  have hinv : Inv o s :=
    inv_run (fun s e h _ => Inv.step s e h) (inv_init o) (Steps.of_forall fun _ _ => trivial)
  refine ⟨fun maps hexec => (hinv.executing maps hexec).2, fun hparent hfailed => ?_⟩
  have hend : s.parentEnd = false := by
    have hok := hinv.parent
    rcases hparent with hparent | hparent <;> rw [hparent] at hok
    · obtain ⟨-, hopen, -⟩ := hok
      rw [← Bool.not_eq_true, hopen]
      decide
    · exact hok.1
  exact hinv.executes hend hfailed

/-- A mapping of each kind. -/
def rootMaps : Options := ⟨some "0 1000 1".toList, some "0 1000 1,1 2000 1".toList⟩

/-- The map of the groups cannot be written, and the command is executed without it. -/
theorem exec_after_maps_refused :
    let s := run (step rootMaps) (System.init rootMaps)
      [.child 0, .parent 3, .parent 8, .parent 3, .parent (-1), .child 0]
    s.parent = .exited 1 ∧ (∃ maps, s.child = .executing maps ∧ maps .gid = none)
      ∧ ∃ n maps, (run (step rootMaps) s (List.replicate n (.child 0))).child = .executing maps := by
  intro s
  have hparent : s.parent = .exited 1 := by decide
  have hchild : s.child ≠ .failed := nofun
  exact ⟨hparent, ⟨s.maps, rfl, by decide⟩, (exec_after_maps rootMaps _).2 (.inr hparent) hchild⟩

end UioLinuxSample.Userns
