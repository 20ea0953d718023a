import Mathlib.Data.Finset.Basic
import UioLinuxSample.Lib.Run

set_option autoImplicit false

/-! # Memory that callbacks use

A piece of memory is used by callbacks, which may run at any time while they are registered, and by
the processes that are in one of its files. One thread takes all of that down and frees the memory,
while the others go on. Unregistering a callback does not wait for those that have started; the thread
has to ask for that: `synchronize` waits for all callbacks that run when it is called, `cancel` waits
until a callback does not run and then unregisters it, and `removeFiles` waits for the processes in the
files. A process in a file may register a callback too.

* `Proper` is a check of a row of operations, one after the other, that says that no callback can be
  under way when the memory is freed. It is enough, whatever the others do, as long as they register
  nothing (`unused_of_proper`).
* Without a `synchronize` or a `cancel`, a callback that has started may run on in memory that is freed
  (`exists_used`).
* If the files are removed last, a process can register a callback that nobody takes down
  (`exists_added`).
-/

namespace GracePeriod

open Run

inductive Op (π : Type) where
  | register (p : π)
  | unregister (p : π)
  | cancel (p : π)
  | synchronize
  | addFiles
  | removeFiles
  | free
  deriving DecidableEq

/-- The callbacks that are registered and that are under way, the latter with a number each; the files
and the processes in them; and what the thread has still to do. Inside of a `synchronize`, `grace` is
the number of the first callback that it need not wait for. -/
structure State (π : Type) where
  registered : Finset π
  running : List (Nat × π)
  started : Nat
  files : Bool
  users : Nat
  grace : Option Nat
  todo : List (Op π)
  freed : Bool

inductive Event (π : Type) where
  | start (p : π)
  | finish (n : Nat)
  | enter
  | leave
  /-- A process in a file registers a callback. -/
  | add (p : π)
  /-- Another thread unregisters a callback. -/
  | drop (p : π)
  | work

section Machine

variable {π : Type} [DecidableEq π]

/-- The thread does an operation, after which `ops` are left, or waits. -/
def State.perform (s : State π) (ops : List (Op π)) : Op π → State π
  | .register p => { s with registered := insert p s.registered, todo := ops }
  | .unregister p => { s with registered := s.registered.erase p, todo := ops }
  | .cancel p =>
      if ∃ r ∈ s.running, r.2 = p then s
      else { s with registered := s.registered.erase p, todo := ops }
  | .synchronize =>
      match s.grace with
      | none => { s with grace := some s.started }
      | some n => if ∃ r ∈ s.running, r.1 < n then s else { s with grace := none, todo := ops }
  | .addFiles => { s with files := true, todo := ops }
  | .removeFiles =>
      if s.files then { s with files := false }
      else if s.users = 0 then { s with todo := ops }
      else s
  | .free => { s with freed := true, todo := ops }

def State.work (s : State π) : State π :=
  match s.todo with
  | [] => s
  | op :: ops => s.perform ops op

def step (s : State π) : Event π → State π
  | .start p =>
      if p ∈ s.registered then
        { s with running := (s.started, p) :: s.running, started := s.started + 1 }
      else s
  | .finish n => { s with running := s.running.filter (·.1 ≠ n) }
  | .enter => if s.files then { s with users := s.users + 1 } else s
  | .leave => { s with users := s.users - 1 }
  | .add p => if 0 < s.users then { s with registered := insert p s.registered } else s
  | .drop p => { s with registered := s.registered.erase p }
  | .work => s.work

/-- Nothing is registered through a file. -/
def Quiet (es : List (Event π)) : Prop := ∀ p, .add p ∉ es

/-- The thread at its start. -/
def State.init (registered : Finset π) (files : Bool) (ops : List (Op π)) : State π where
  registered := registered
  running := []
  started := 0
  files := files
  users := 0
  grace := none
  todo := ops
  freed := false

/-- Nobody uses the memory, and nobody will. -/
structure State.Unused (s : State π) : Prop where
  registered : s.registered = ∅
  running : s.running = []
  files : s.files = false
  users : s.users = 0

/-! ## The check -/

/-- What may be registered, under way and open. -/
structure Plan (π : Type) where
  registered : Finset π
  mayRun : Finset π
  files : Bool
  sub : registered ⊆ mayRun

def Plan.Idle (a : Plan π) : Prop := a.mayRun = ∅ ∧ a.files = false

instance (a : Plan π) : Decidable a.Idle := inferInstanceAs (Decidable (_ ∧ _))

def Plan.init (registered : Finset π) (files : Bool) : Plan π :=
  ⟨registered, registered, files, Finset.Subset.refl _⟩

def Plan.after (a : Plan π) : Op π → Plan π
  | .register p =>
      { a with
        registered := insert p a.registered
        mayRun := insert p a.mayRun
        sub := Finset.insert_subset_insert p a.sub }
  | .unregister p =>
      { a with
        registered := a.registered.erase p
        sub := (Finset.erase_subset _ _).trans a.sub }
  | .cancel p =>
      { a with
        registered := a.registered.erase p
        mayRun := a.mayRun.erase p
        sub := Finset.erase_subset_erase p a.sub }
  | .synchronize => { a with mayRun := a.registered, sub := Finset.Subset.refl _ }
  | .addFiles => { a with files := true }
  | .removeFiles => { a with files := false }
  | .free => a

/-- The memory is freed when nothing can use it, as the last thing. -/
def Proper : Plan π → List (Op π) → Prop
  | _, [] => True
  | a, op :: ops => (op = .free → a.Idle ∧ ops = []) ∧ Proper (a.after op) ops

/-- The state is one of those that the plan allows. -/
structure Follows (a : Plan π) (s : State π) : Prop where
  proper : Proper a s.todo
  registered : s.registered ⊆ a.registered
  running : ∀ r ∈ s.running, r.2 ∈ a.mayRun
  started : ∀ r ∈ s.running, r.1 < s.started
  /-- What has started inside of a `synchronize` was registered then. -/
  grace : ∀ n, s.grace = some n →
    (∃ ops, s.todo = .synchronize :: ops) ∧ ∀ r ∈ s.running, n ≤ r.1 → r.2 ∈ a.registered
  files : s.files = true → a.files = true
  users : 0 < s.users → a.files = true
  freed : s.freed = true → a.Idle ∧ s.todo = []

variable {a : Plan π} {s : State π} {ops : List (Op π)}

theorem Follows.unused (h : Follows a s) (hfreed : s.freed = true) : s.Unused := by
  obtain ⟨hmay, hfiles⟩ := (h.freed hfreed).1
  refine ⟨?_, ?_, ?_, ?_⟩
  · have hsub := h.registered.trans a.sub
    rw [hmay] at hsub
    exact Finset.subset_empty.mp hsub
  · refine List.eq_nil_iff_forall_not_mem.mpr fun r hr => ?_
    have hmem := h.running r hr
    rw [hmay] at hmem
    exact Finset.notMem_empty _ hmem
  · exact Bool.eq_false_iff.mpr fun hopen => Bool.false_ne_true (hfiles.symm.trans (h.files hopen))
  · by_contra hne
    exact Bool.false_ne_true (hfiles.symm.trans (h.users (Nat.pos_of_ne_zero hne)))

theorem Follows.not_freed {op : Op π} (h : Follows a s) (htodo : s.todo = op :: ops) :
    s.freed = false := by
  rw [← Bool.not_eq_true]
  intro hfreed
  rw [(h.freed hfreed).2] at htodo
  cases htodo

/-- An operation other than `synchronize` is done outside of one. -/
theorem Follows.grace_none {op : Op π} (h : Follows a s) (htodo : s.todo = op :: ops)
    (hop : op ≠ .synchronize) : s.grace = none := by
  cases hgrace : s.grace with
  | none => rfl
  | some n =>
      obtain ⟨⟨ops', hops⟩, -⟩ := h.grace n hgrace
      rw [htodo] at hops
      exact absurd (List.cons.inj hops).1 hop

theorem Follows.start (h : Follows a s) {p : π} (hp : p ∈ s.registered) :
    Follows a { s with running := (s.started, p) :: s.running, started := s.started + 1 } where
  proper := h.proper
  registered := h.registered
  running := List.forall_mem_cons.mpr ⟨a.sub (h.registered hp), h.running⟩
  started := List.forall_mem_cons.mpr ⟨Nat.lt_succ_self _, fun r hr => Nat.lt_succ_of_lt (h.started r hr)⟩
  grace n hn := ⟨(h.grace n hn).1,
    List.forall_mem_cons.mpr ⟨fun _ => h.registered hp, (h.grace n hn).2⟩⟩
  files := h.files
  users := h.users
  freed := h.freed

theorem Follows.fewer {running : List (Nat × π)} {registered : Finset π} (h : Follows a s)
    (hrunning : running ⊆ s.running) (hregistered : registered ⊆ s.registered) :
    Follows a { s with running, registered } where
  proper := h.proper
  registered := hregistered.trans h.registered
  running r hr := h.running r (hrunning hr)
  started r hr := h.started r (hrunning hr)
  grace n hn := ⟨(h.grace n hn).1, fun r hr => (h.grace n hn).2 r (hrunning hr)⟩
  files := h.files
  users := h.users
  freed := h.freed

/-- The thread goes on to its next operation. -/
theorem Follows.next {op : Op π} {s' : State π} (h : Follows a s) (htodo : s.todo = op :: ops)
    (hrest : s'.todo = ops) (hstarted : s'.started = s.started) (hrunning' : s'.running = s.running)
    (hgrace : s'.grace = none) (hregistered : s'.registered ⊆ (a.after op).registered)
    (hrunning : ∀ r ∈ s.running, r.2 ∈ (a.after op).mayRun)
    (hfiles : s'.files = true → (a.after op).files = true)
    (husers : 0 < s'.users → (a.after op).files = true)
    (hfreed : s'.freed = true → s.freed = true ∨ (a.after op).Idle ∧ ops = []) :
    Follows (a.after op) s' := by
  have hproper := h.proper
  rw [htodo] at hproper
  refine ⟨hrest ▸ hproper.2, hregistered, hrunning' ▸ hrunning, ?_, ?_, hfiles, husers, ?_⟩
  · rw [hrunning', hstarted]
    exact h.started
  · intro n hn
    rw [hgrace] at hn
    cases hn
  · intro hfreed'
    rcases hfreed hfreed' with hold | ⟨hidle, hlast⟩
    · rw [h.not_freed htodo] at hold
      cases hold
    · exact ⟨hidle, hrest.trans hlast⟩

theorem work_cons {op : Op π} (htodo : s.todo = op :: ops) : s.work = s.perform ops op := by
  unfold State.work
  rw [htodo]

theorem Follows.perform {op : Op π} (h : Follows a s) (htodo : s.todo = op :: ops) :
    ∃ a', Follows a' (s.perform ops op) := by
  have hgrace : op ≠ .synchronize → s.grace = none := h.grace_none htodo
  cases op with
  | register p =>
      refine ⟨_, h.next htodo rfl rfl rfl (hgrace nofun) ?_ ?_ h.files h.users .inl⟩
      · exact Finset.insert_subset_insert p h.registered
      · exact fun r hr => Finset.mem_insert_of_mem (h.running r hr)
  | unregister p =>
      refine ⟨_, h.next htodo rfl rfl rfl (hgrace nofun) ?_ h.running h.files h.users .inl⟩
      exact Finset.erase_subset_erase p h.registered
  | cancel p =>
      simp only [State.perform]
      split
      · exact ⟨a, h⟩
      · next hidle =>
          refine ⟨_, h.next htodo rfl rfl rfl (hgrace nofun) ?_ ?_ h.files h.users .inl⟩
          · exact Finset.erase_subset_erase p h.registered
          · exact fun r hr => Finset.mem_erase.mpr ⟨fun heq => hidle ⟨r, hr, heq⟩, h.running r hr⟩
  | synchronize =>
      simp only [State.perform]
      cases hn : s.grace with
      | none =>
          -- all that is under way when it begins has a smaller number
          refine ⟨a, h.proper, h.registered, h.running, h.started, ?_, h.files, h.users, h.freed⟩
          rintro n ⟨⟩
          exact ⟨⟨ops, htodo⟩, fun r hr hle => absurd (h.started r hr) (Nat.not_lt.mpr hle)⟩
      | some n =>
          dsimp only
          split
          · exact ⟨a, h⟩
          · next hover =>
              refine ⟨_, h.next htodo rfl rfl rfl rfl h.registered ?_ h.files h.users .inl⟩
              intro r hr
              have hle : n ≤ r.1 := Nat.not_lt.mp fun hlt => hover ⟨r, hr, hlt⟩
              exact (h.grace n hn).2 r hr hle
  | addFiles =>
      exact ⟨_, h.next htodo rfl rfl rfl (hgrace nofun) h.registered h.running (fun _ => rfl)
        (fun _ => rfl) .inl⟩
  | removeFiles =>
      simp only [State.perform]
      split_ifs with hopen hempty
      · exact ⟨a, h.proper, h.registered, h.running, h.started, h.grace, nofun, h.users, h.freed⟩
      · exact ⟨_, h.next htodo rfl rfl rfl (hgrace nofun) h.registered h.running
          (fun hfiles => absurd hfiles hopen) (fun hpos => absurd hempty hpos.ne') .inl⟩
      · exact ⟨a, h⟩
  | free =>
      have hproper := h.proper
      rw [htodo] at hproper
      exact ⟨_, h.next htodo rfl rfl rfl (hgrace nofun) h.registered h.running h.files h.users
        fun _ => .inr (hproper.1 rfl)⟩

theorem Follows.step (h : Follows a s) {e : Event π} (hquiet : ∀ p, e ≠ .add p) :
    ∃ a', Follows a' (step s e) := by
  cases e with
  | add p => exact absurd rfl (hquiet p)
  | start p =>
      simp only [GracePeriod.step]
      split
      · next hp => exact ⟨a, h.start hp⟩
      · exact ⟨a, h⟩
  | finish n => exact ⟨a, h.fewer (List.filter_subset_self _) (Finset.Subset.refl _)⟩
  | enter =>
      simp only [GracePeriod.step]
      split
      · next hopen =>
          exact ⟨a, h.proper, h.registered, h.running, h.started, h.grace, h.files,
            fun _ => h.files hopen, h.freed⟩
      · exact ⟨a, h⟩
  | leave =>
      exact ⟨a, h.proper, h.registered, h.running, h.started, h.grace, h.files,
        fun hpos => h.users (Nat.lt_of_lt_of_le hpos (Nat.sub_le _ _)), h.freed⟩
  | drop p => exact ⟨a, h.fewer (List.Subset.refl _) (Finset.erase_subset _ _)⟩
  | work =>
      cases htodo : s.todo with
      | nil =>
          refine ⟨a, ?_⟩
          simp only [GracePeriod.step, State.work, htodo]
          exact h
      | cons op ops =>
          show ∃ a', Follows a' s.work
          rw [work_cons htodo]
          exact h.perform htodo

/-- **A proper row of operations is safe.** Whatever happens meanwhile, as long as nothing is
registered through a file, nobody uses the memory when it has been freed. -/
theorem unused_of_proper {registered : Finset π} {files : Bool}
    (h : Proper (Plan.init registered files) ops) {es : List (Event π)} (hquiet : Quiet es) :
    let s := run GracePeriod.step (State.init registered files ops) es
    s.freed = true → s.Unused := by
  intro s hfreed
  have hstart : Follows (Plan.init registered files) (State.init registered files ops) :=
    ⟨h, Finset.Subset.refl _, nofun, nofun, nofun, id, nofun, nofun⟩
  have hstep : ∀ (s : State π) (e : Event π), (∃ a, Follows a s) → (∀ p, e ≠ .add p) →
      ∃ a, Follows a (GracePeriod.step s e) := fun s e ⟨_, ha⟩ he => ha.step he
  obtain ⟨a, ha⟩ : ∃ a, Follows a s :=
    inv_run hstep ⟨_, hstart⟩ (Steps.of_forall_mem fun e he _ p heq => hquiet p (heq ▸ he))
  exact ha.unused hfreed

/-! ### Rows of operations -/

/-- The plan after a row of operations. -/
def Plan.afterAll (a : Plan π) (ops : List (Op π)) : Plan π := ops.foldl Plan.after a

theorem proper_append {ops' : List (Op π)} (hfree : .free ∉ ops) (h : Proper (a.afterAll ops) ops') :
    Proper a (ops ++ ops') := by
  induction ops generalizing a with
  | nil => exact h
  | cons op ops ih =>
      refine ⟨fun heq => absurd (heq ▸ List.mem_cons_self ..) hfree, ih ?_ h⟩
      exact fun hmem => hfree (List.mem_cons_of_mem _ hmem)

theorem afterAll_unregister (a : Plan π) (ps : List π) :
    (a.afterAll (ps.map .unregister)).registered = a.registered \ ps.toFinset := by
  induction ps generalizing a with
  | nil => simp [Plan.afterAll]
  | cons p ps ih =>
      calc (a.afterAll ((p :: ps).map .unregister)).registered
          = (a.after (.unregister p)).registered \ ps.toFinset := ih _
        _ = a.registered \ (p :: ps).toFinset := by
          simp [Plan.after, Finset.erase_sdiff_comm, Finset.sdiff_insert]

theorem afterAll_cancel (a : Plan π) (ps : List π) :
    (a.afterAll (ps.map .cancel)).registered = a.registered \ ps.toFinset
      ∧ (a.afterAll (ps.map .cancel)).mayRun = a.mayRun \ ps.toFinset := by
  induction ps generalizing a with
  | nil => simp [Plan.afterAll]
  | cons p ps ih =>
      obtain ⟨hregistered, hmayRun⟩ := ih (a.after (.cancel p))
      refine ⟨hregistered.trans ?_, hmayRun.trans ?_⟩ <;>
        simp [Plan.after, Finset.erase_sdiff_comm, Finset.sdiff_insert]

/-- The end that is proper once nothing is registered. -/
theorem proper_end (h : a.registered = ∅) : Proper a [.synchronize, .removeFiles, .free] :=
  ⟨nofun, nofun, fun _ => ⟨⟨h, rfl⟩, rfl⟩, trivial⟩

/-- What was cancelled does not run, and nothing has to be waited for. -/
theorem proper_cancelled (h : a.mayRun = ∅) : Proper a [.removeFiles, .free] :=
  ⟨nofun, fun _ => ⟨⟨h, rfl⟩, rfl⟩, trivial⟩

/-! ## Without waiting -/

/-- How the thread gets from one state to another one, undisturbed. -/
def Works (s s' : State π) : Prop := ∃ n, run GracePeriod.step s (List.replicate n .work) = s'

theorem Works.refl (s : State π) : Works s s := ⟨0, rfl⟩

theorem Works.trans {s' s'' : State π} (h : Works s s') (h' : Works s' s'') : Works s s'' := by
  obtain ⟨n, hn⟩ := h
  obtain ⟨m, hm⟩ := h'
  refine ⟨n + m, ?_⟩
  rw [List.replicate_add, run_append, hn, hm]

theorem works_perform {op : Op π} (htodo : s.todo = op :: ops) : Works s (s.perform ops op) :=
  ⟨1, work_cons htodo⟩

/-- Setting up takes no waiting. -/
theorem works_setup {pre post : List (Op π)} (htodo : s.todo = pre ++ post)
    (hpre : ∀ op ∈ pre, op = .addFiles ∨ ∃ p, op = .register p) :
    ∃ registered files, Works s { s with registered, files, todo := post }
      ∧ s.registered ⊆ registered ∧ ∀ p, .register p ∈ pre → p ∈ registered := by
  induction pre generalizing s with
  | nil =>
      obtain rfl : s.todo = post := htodo
      exact ⟨s.registered, s.files, Works.refl s, Finset.Subset.refl _, nofun⟩
  | cons op pre ih =>
      obtain ⟨hop, hrest⟩ := List.forall_mem_cons.mp hpre
      have hworks : Works s (s.perform (pre ++ post) op) := works_perform htodo
      rcases hop with rfl | ⟨p, rfl⟩
      · obtain ⟨registered, files, hworks', hsub, hmem⟩ :=
          ih (s := { s with files := true, todo := pre ++ post }) rfl hrest
        refine ⟨registered, files, hworks.trans hworks', hsub, fun q hq => hmem q ?_⟩
        exact (List.mem_cons.mp hq).resolve_left nofun
      · obtain ⟨registered, files, hworks', hsub, hmem⟩ :=
          ih (s := { s with registered := insert p s.registered, todo := pre ++ post }) rfl hrest
        refine ⟨registered, files, hworks.trans hworks', (Finset.subset_insert p _).trans hsub, ?_⟩
        intro q hq
        rcases List.mem_cons.mp hq with hq | hq
        · cases hq
          exact hsub (Finset.mem_insert_self ..)
        · exact hmem q hq

/-- With nobody in the files, and no callback under way that is cancelled, nothing keeps a thread that
does not synchronize from getting to the point where it frees the memory. -/
theorem works_free (htodo : s.todo = ops) (hfree : .free ∈ ops) (husers : s.users = 0)
    (hsync : .synchronize ∉ ops) (hcancel : ∀ r ∈ s.running, .cancel r.2 ∉ ops) :
    ∃ s', Works s s' ∧ s'.freed = true ∧ s'.running = s.running := by
  induction ops generalizing s with
  | nil => cases hfree
  | cons op ops ih =>
      -- a state in which the rest is to be done, with the same callbacks and nobody in the files
      have hgo : ∀ s', Works s s' → op ≠ .free → s'.todo = ops → s'.users = 0 →
          s'.running = s.running →
          ∃ s'', Works s s'' ∧ s''.freed = true ∧ s''.running = s.running := by
        intro s' hworks hne htodo' husers' hrunning
        obtain ⟨s'', hworks', hfreed, hrunning'⟩ := ih htodo'
          ((List.mem_cons.mp hfree).resolve_left fun h => hne h.symm) husers'
          (fun h => hsync (List.mem_cons_of_mem _ h))
          (fun r hr h => hcancel r (hrunning ▸ hr) (List.mem_cons_of_mem _ h))
        exact ⟨s'', hworks.trans hworks', hfreed, hrunning'.trans hrunning⟩
      have hworks := works_perform htodo
      cases op with
      | free => exact ⟨_, hworks, rfl, rfl⟩
      | register p => exact hgo _ hworks nofun rfl husers rfl
      | unregister p => exact hgo _ hworks nofun rfl husers rfl
      | addFiles => exact hgo _ hworks nofun rfl husers rfl
      | synchronize => exact absurd (List.mem_cons_self ..) hsync
      | cancel p =>
          have hidle : ¬ ∃ r ∈ s.running, r.2 = p := by
            rintro ⟨r, hr, rfl⟩
            exact hcancel r hr (List.mem_cons_self ..)
          simp only [State.perform, if_neg hidle] at hworks
          exact hgo _ hworks nofun rfl husers rfl
      | removeFiles =>
          have hclosed : Works s { s with files := false, todo := ops } := by
            cases hopen : s.files with
            | false =>
                simp only [State.perform, hopen, Bool.false_eq_true, if_false, if_pos husers] at hworks
                rwa [← hopen] at hworks ⊢
            | true =>
                simp only [State.perform, hopen, if_true] at hworks
                have hagain := works_perform (s := { s with files := false }) htodo
                simp only [State.perform, Bool.false_eq_true, if_false, if_pos husers] at hagain
                exact hworks.trans hagain
          exact hgo _ hclosed nofun rfl husers rfl

/-- **A callback that nobody waits for.** After some setting up, in which `p` is registered, the memory
may be freed while `p` is under way. -/
theorem exists_used {pre post : List (Op π)} {p : π} {registered : Finset π} {files : Bool}
    (hpre : ∀ op ∈ pre, op = .addFiles ∨ ∃ p, op = .register p)
    (hp : p ∈ registered ∨ .register p ∈ pre) (hfree : .free ∈ post) (hsync : .synchronize ∉ post)
    (hcancel : .cancel p ∉ post) :
    ∃ es, let s := run GracePeriod.step (State.init registered files (pre ++ post)) es
      s.freed = true ∧ ∃ n, (n, p) ∈ s.running := by
  obtain ⟨registered', files', ⟨n, hn⟩, hsub, hmem⟩ :=
    works_setup (s := State.init registered files (pre ++ post)) rfl hpre
  have hregistered : p ∈ registered' := hp.elim (fun h => hsub h) (hmem p)
  let started : State π := ⟨registered', [(0, p)], 1, files', 0, none, post, false⟩
  obtain ⟨s', ⟨m, hm⟩, hfreed, hrunning⟩ := works_free (s := started) rfl hfree rfl hsync
    fun r hr => List.mem_singleton.mp hr ▸ hcancel
  refine ⟨List.replicate n .work ++ .start p :: List.replicate m .work, ?_⟩
  have hstart : GracePeriod.step
      { State.init registered files (pre ++ post) with
        registered := registered', files := files', todo := post } (.start p) = started := by
    simp only [GracePeriod.step, hregistered, if_true]
    rfl
  rw [run_append, hn, run_cons, hstart, hm]
  exact ⟨hfreed, 0, hrunning ▸ List.mem_singleton_self _⟩

/-! ## Through a file -/

/-- What a process in a file can do. -/
def Event.byProcess : Event π → Bool
  | .enter | .leave | .add _ | .drop _ => true
  | .start _ | .finish _ | .work => false

/-- Nothing keeps a thread from taking down callbacks that are not under way. -/
theorem works_takeDown {pre post : List (Op π)} (htodo : s.todo = pre ++ post)
    (hpre : ∀ op ∈ pre, op = .synchronize ∨ ∃ p, op = .unregister p ∨ op = .cancel p)
    (hrunning : s.running = []) (hgrace : s.grace = none) :
    ∃ registered, Works s { s with registered, todo := post } := by
  induction pre generalizing s with
  | nil =>
      obtain rfl : s.todo = post := htodo
      exact ⟨s.registered, Works.refl s⟩
  | cons op pre ih =>
      obtain ⟨hop, hrest⟩ := List.forall_mem_cons.mp hpre
      have hworks : Works s (s.perform (pre ++ post) op) := works_perform htodo
      -- the state after the operation, from which the rest is done
      have hgo : ∀ registered', Works s { s with registered := registered', todo := pre ++ post } →
          ∃ registered, Works s { s with registered, todo := post } := by
        intro registered' hworks'
        obtain ⟨registered, hworks''⟩ :=
          ih (s := { s with registered := registered', todo := pre ++ post }) rfl hrest hrunning hgrace
        exact ⟨registered, hworks'.trans hworks''⟩
      rcases hop with rfl | ⟨p, rfl | rfl⟩
      · -- it begins to wait, and there is nothing to wait for
        have hnone : ¬ ∃ r ∈ s.running, r.1 < s.started := by simp [hrunning]
        have hbegin : Works s { s with grace := some s.started } := by
          simpa only [State.perform, hgrace] using hworks
        have hend := works_perform (s := { s with grace := some s.started }) htodo
        simp only [State.perform, if_neg hnone] at hend
        refine hgo s.registered ?_
        have hboth := hbegin.trans hend
        rwa [← hgrace] at hboth
      · exact hgo _ hworks
      · have hnone : ¬ ∃ r ∈ s.running, r.2 = p := by simp [hrunning]
        simp only [State.perform, if_neg hnone] at hworks
        exact hgo _ hworks

/-- A process in a file adds and drops callbacks. -/
theorem run_inFile (husers : 0 < s.users) {es : List (Event π)}
    (hes : ∀ e ∈ es, ∃ p, e = .add p ∨ e = .drop p) :
    ∃ registered, run GracePeriod.step s es = { s with registered } := by
  induction es generalizing s with
  | nil => exact ⟨s.registered, rfl⟩
  | cons e es ih =>
      obtain ⟨⟨p, hp⟩, hrest⟩ := List.forall_mem_cons.mp hes
      rw [run_cons]
      rcases hp with rfl | rfl
      · have hadd : GracePeriod.step s (.add p) = { s with registered := insert p s.registered } :=
          if_pos husers
        rw [hadd]
        exact ih (s := { s with registered := insert p s.registered }) husers hrest
      · exact ih (s := { s with registered := s.registered.erase p }) husers hrest

theorem run_adds (husers : 0 < s.users) {es : List (Event π)} (hes : ∀ e ∈ es, ∃ p, e = .add p) :
    ∃ registered, run GracePeriod.step s es = { s with registered }
      ∧ s.registered ⊆ registered ∧ ∀ p, .add p ∈ es → p ∈ registered := by
  induction es generalizing s with
  | nil => exact ⟨s.registered, rfl, Finset.Subset.refl _, nofun⟩
  | cons e es ih =>
      obtain ⟨⟨q, rfl⟩, hrest⟩ := List.forall_mem_cons.mp hes
      have hadd : GracePeriod.step s (.add q) = { s with registered := insert q s.registered } :=
        if_pos husers
      obtain ⟨registered, hrun, hsub, hmem⟩ :=
        ih (s := { s with registered := insert q s.registered }) husers hrest
      refine ⟨registered, by rw [run_cons, hadd, hrun], (Finset.subset_insert q _).trans hsub, ?_⟩
      intro p hp
      rcases List.mem_cons.mp hp with heq | hp
      · cases heq
        exact hsub (Finset.mem_insert_self ..)
      · exact hmem p hp

omit [DecidableEq π] in
theorem filter_byProcess {es : List (Event π)} (hes : ∀ e ∈ es, ∃ p, e = .add p ∨ e = .drop p) :
    es.filter Event.byProcess = es := by
  refine List.filter_eq_self.mpr fun e he => ?_
  obtain ⟨p, rfl | rfl⟩ := hes e he
  · rfl
  · rfl

/-- A process enters a file, does this and leaves it. -/
def visit (es : List (Event π)) : List (Event π) := .enter :: es ++ [.leave]

theorem run_visit (hfiles : s.files = true) {es : List (Event π)}
    (hes : ∀ e ∈ es, ∃ p, e = .add p ∨ e = .drop p) :
    ∃ registered, run GracePeriod.step s (visit es) = { s with registered } := by
  have henter : GracePeriod.step s .enter = { s with users := s.users + 1 } := if_pos hfiles
  obtain ⟨registered, hrun⟩ :=
    run_inFile (s := { s with users := s.users + 1 }) (Nat.succ_pos _) hes
  refine ⟨registered, ?_⟩
  unfold visit
  rw [List.cons_append, run_cons, henter, run_append, hrun]
  rfl

omit [DecidableEq π] in
theorem filter_visit {es : List (Event π)} (hes : ∀ e ∈ es, ∃ p, e = .add p ∨ e = .drop p) :
    (visit es).filter Event.byProcess = visit es := by
  simp [visit, List.filter_cons, List.filter_append, filter_byProcess hes, Event.byProcess]

/-- **A callback that comes too late.** The thread takes callbacks down and then removes the files. A
process that drops some callbacks through a file, and then adds others, can leave one of them under way
when the memory is freed. -/
theorem exists_added {pre : List (Op π)} {p : π} {registered : Finset π}
    (hpre : ∀ op ∈ pre, op = .synchronize ∨ ∃ p, op = .unregister p ∨ op = .cancel p)
    {drops adds : List (Event π)} (hdrops : ∀ e ∈ drops, ∃ q, e = .drop q)
    (hadds : ∀ e ∈ adds, ∃ q, e = .add q) (hp : .add p ∈ adds) :
    ∃ es, es.filter Event.byProcess = visit drops ++ visit adds
      ∧ let s := run GracePeriod.step (State.init registered true (pre ++ [.removeFiles, .free])) es
        s.freed = true ∧ ∃ n, (n, p) ∈ s.running := by
  have hdrops' : ∀ e ∈ drops, ∃ q, e = .add q ∨ e = .drop q := fun e he =>
    (hdrops e he).imp fun q heq => .inr heq
  have hadds' : ∀ e ∈ adds, ∃ q, e = .add q ∨ e = .drop q := fun e he =>
    (hadds e he).imp fun q heq => .inl heq
  let first : State π := State.init registered true (pre ++ [.removeFiles, .free])
  -- the callbacks are dropped before the thread takes them down, and added after that
  obtain ⟨registered₁, hdropped⟩ := run_visit (s := first) rfl hdrops'
  obtain ⟨registered₂, n, hn⟩ :=
    works_takeDown (s := { first with registered := registered₁ }) rfl hpre rfl rfl
  let entered : State π :=
    { first with registered := registered₂, todo := [.removeFiles, .free], users := 1 }
  obtain ⟨registered₃, hadded, -, hmem⟩ := run_adds (s := entered) Nat.one_pos hadds
  let left : State π := ⟨registered₃, [(0, p)], 1, true, 0, none, [.removeFiles, .free], false⟩
  have htodo : left.todo = [.removeFiles, .free] := rfl
  obtain ⟨s', ⟨m, hm⟩, hfreed, hrunning⟩ :=
    works_free htodo (by simp) rfl (by simp) fun r _ => by simp
  refine ⟨visit drops ++ (List.replicate n .work ++ (.enter :: (adds ++ (.start p :: .leave
    :: List.replicate m .work)))), ?_, ?_⟩
  · have hworks : ∀ k, (List.replicate k (Event.work (π := π))).filter Event.byProcess = [] :=
      fun k => List.filter_eq_nil_iff.mpr fun e he => by
        simp [List.eq_of_mem_replicate he, Event.byProcess]
    rw [List.filter_append, filter_visit hdrops']
    simp [List.filter_cons, List.filter_append, hworks, filter_byProcess hadds', Event.byProcess, visit]
  · have henter : GracePeriod.step
        { first with registered := registered₂, todo := [.removeFiles, .free] } .enter = entered := rfl
    have hstart : GracePeriod.step (GracePeriod.step
        { entered with registered := registered₃ } (.start p)) .leave = left := by
      simp only [GracePeriod.step, hmem p hp, if_true]
      rfl
    rw [run_append, hdropped, run_append, hn, run_cons, henter, run_append, hadded, run_cons, run_cons,
      hstart, hm]
    exact ⟨hfreed, 0, hrunning ▸ List.mem_singleton_self _⟩

end Machine

end GracePeriod
