import UioLinuxSample.Lib.Ownership
import UioLinuxSample.Lib.Run

set_option autoImplicit false

/-! # The resources of a process

`resources_create` opens the connection and the device and allocates what the example needs, one
after the other. When a call fails it releases what it has so far. `main` calls `resources_destroy`
in both cases, and relies on the fields that are `NULL` again after a failure.

* `sock_connect` does not stop at the first address that works. It returns what the last one gives
  and loses the connections before it (`sockConnect_client`).
* Whatever fails, every object that `main` has got hold of is given back once, and before what it
  needs. Of the descriptors, those that `sock_connect` has lost stay open (`main_gives_back`).
-/

namespace UioLinuxSample.Rdma.Resources

open Ownership Run

/-! ## The connection -/

/-- What the calls return for one of the resolved addresses: a descriptor or a failure, and the
results of `connect` and `bind`. -/
structure AddrAnswers where
  socket : Option Nat
  connect : Int
  bind : Int
  accept : Option Nat

/-- The descriptors that are open, and the two variables of `sock_connect`. -/
structure Sockets where
  opened : Finset Nat
  sockfd : Int
  listenfd : Nat

/-- The turn of the loop for an address, as a client. -/
def connectTurn (s : Sockets) (a : AddrAnswers) : Sockets :=
  match a.socket with
  | none => { s with sockfd := -1 }
  | some fd =>
      if a.connect = 0 then { s with opened := insert fd s.opened, sockfd := fd }
      -- the socket is closed again
      else { s with sockfd := -1 }

/-- The loop, as a server: it ends at the first address that cannot be bound. -/
def listenLoop (s : Sockets) : List AddrAnswers → Sockets
  | [] => s
  | a :: as =>
      match a.socket with
      | none => listenLoop { s with sockfd := -1 } as
      | some fd =>
          let s := { s with opened := insert fd s.opened, listenfd := fd, sockfd := -1 }
          if a.bind ≠ 0 then s
          else
            match a.accept with
            | none => listenLoop s as
            | some conn => listenLoop { s with opened := insert conn s.opened, sockfd := conn } as

/-- The variables before the loop. `sockfd` holds the result of `getaddrinfo`. -/
def Sockets.start (resolved : Int) (opened : Finset Nat) : Sockets where
  opened := opened
  sockfd := resolved
  listenfd := 0

/-- `sock_connect`, from the result of `getaddrinfo` on, with what it leaves open. -/
def sockConnect (client : Bool) (resolved : Int) (as : List AddrAnswers) (opened : Finset Nat) :
    Int × Finset Nat :=
  if resolved < 0 then (resolved, opened)
  else
    let s := .start resolved opened
    let s := if client then run connectTurn s as else listenLoop s as
    (s.sockfd, if s.listenfd ≠ 0 then s.opened.erase s.listenfd else s.opened)

/-- The client gets a connection to this address. -/
def AddrAnswers.Connects (a : AddrAnswers) : Prop := a.socket.isSome = true ∧ a.connect = 0

instance (a : AddrAnswers) : Decidable a.Connects :=
  inferInstanceAs (Decidable (_ ∧ _))

/-- The kernel gives a descriptor that is not in use. -/
def Unused (s : Sockets) (a : AddrAnswers) : Prop := ∀ fd ∈ a.socket, fd ∉ s.opened

instance (s : Sockets) (a : AddrAnswers) : Decidable (Unused s a) :=
  match h : a.socket with
  | none => .isTrue (by unfold Unused; rw [h]; nofun)
  | some fd => decidable_of_iff (fd ∉ s.opened) (by unfold Unused; rw [h]; simp)

section SockConnect

variable {s : Sockets} {a : AddrAnswers} {as : List AddrAnswers}

/-- What a turn does. -/
theorem connectTurn_cases (s : Sockets) (a : AddrAnswers) :
    ¬ a.Connects ∧ connectTurn s a = { s with sockfd := -1 }
      ∨ ∃ fd, a.Connects ∧ a.socket = some fd
        ∧ connectTurn s a = { s with opened := insert fd s.opened, sockfd := fd } := by
  unfold connectTurn AddrAnswers.Connects
  cases hsocket : a.socket with
  | none => exact .inl ⟨nofun, rfl⟩
  | some fd =>
      by_cases hconnect : a.connect = 0
      · exact .inr ⟨fd, ⟨rfl, hconnect⟩, rfl, if_pos hconnect⟩
      · exact .inl ⟨fun h => hconnect h.2, if_neg hconnect⟩

/-- Every connection stays open. -/
theorem run_connectTurn (hunused : Steps connectTurn Unused s as) :
    (run connectTurn s as).listenfd = s.listenfd ∧ s.opened ⊆ (run connectTurn s as).opened
      ∧ (run connectTurn s as).opened.card = s.opened.card + as.countP (·.Connects) := by
  induction as generalizing s with
  | nil => exact ⟨rfl, Finset.Subset.refl _, rfl⟩
  | cons a as ih =>
      obtain ⟨hnew, hrest⟩ := hunused
      obtain ⟨hlisten, hsub, hcard⟩ := ih hrest
      rw [run_cons]
      rcases connectTurn_cases s a with ⟨hfails, hturn⟩ | ⟨fd, hconnects, hsocket, hturn⟩
      · rw [List.countP_cons_of_neg (by simpa using hfails)]
        rw [hturn] at hlisten hsub hcard ⊢
        exact ⟨hlisten, hsub, hcard⟩
      · have hnot : fd ∉ s.opened := hnew fd hsocket
        rw [List.countP_cons_of_pos (by simpa using hconnects)]
        rw [hturn] at hlisten hsub hcard ⊢
        rw [Finset.card_insert_of_notMem hnot] at hcard
        exact ⟨hlisten, (Finset.subset_insert fd _).trans hsub, by omega⟩

/-- What is returned depends on the last address. -/
theorem sockfd_append (s : Sockets) (as : List AddrAnswers) (a : AddrAnswers) :
    ¬ a.Connects ∧ (run connectTurn s (as ++ [a])).sockfd = -1
      ∨ ∃ fd : Nat, a.Connects ∧ a.socket = some fd
        ∧ (run connectTurn s (as ++ [a])).sockfd = fd
        ∧ fd ∈ (run connectTurn s (as ++ [a])).opened := by
  rw [run_append, run_cons, run_nil]
  rcases connectTurn_cases (run connectTurn s as) a with ⟨hfails, hturn⟩ | ⟨fd, hconnects, hsocket, hturn⟩
  · rw [hturn]
    exact .inl ⟨hfails, rfl⟩
  · rw [hturn]
    exact .inr ⟨fd, hconnects, hsocket, rfl, Finset.mem_insert_self fd _⟩

end SockConnect

/-- **A client that connects.** Of the resolved addresses the last one decides, and as many
descriptors are left open as there were addresses to which a connection was made. -/
theorem sockConnect_client (as : List AddrAnswers) (a : AddrAnswers) (opened : Finset Nat)
    (hunused : Steps connectTurn Unused (.start 0 opened) (as ++ [a])) :
    let r := sockConnect true 0 (as ++ [a]) opened
    (0 ≤ r.1 ↔ a.Connects) ∧ (0 ≤ r.1 → r.1.toNat ∈ r.2) ∧ opened ⊆ r.2
      ∧ r.2.card = opened.card + as.countP (·.Connects) + if 0 ≤ r.1 then 1 else 0 := by
  obtain ⟨hlisten, hsub, hcard⟩ := run_connectTurn hunused
  have hresult : sockConnect true 0 (as ++ [a]) opened
      = ((run connectTurn (.start 0 opened) (as ++ [a])).sockfd,
        (run connectTurn (.start 0 opened) (as ++ [a])).opened) := by
    unfold sockConnect
    rw [if_neg (by decide)]
    dsimp only
    have hzero : ¬ (run connectTurn (.start 0 opened) (as ++ [a])).listenfd ≠ 0 :=
      not_not.mpr hlisten
    rw [if_pos rfl, if_neg hzero]
  rw [hresult]
  dsimp only
  rw [List.countP_append, List.countP_singleton] at hcard
  rcases sockfd_append (.start 0 opened) as a with ⟨hfails, hfd⟩ | ⟨fd, hconnects, -, hfd, hmem⟩
  · rw [hfd]
    rw [if_neg (by simpa using hfails)] at hcard
    exact ⟨⟨nofun, fun h => absurd h hfails⟩, nofun, hsub, hcard⟩
  · rw [hfd, if_pos (Int.natCast_nonneg fd)]
    rw [if_pos (by simpa using hconnects)] at hcard
    exact ⟨⟨fun _ => hconnects, fun _ => Int.natCast_nonneg fd⟩, fun _ => hmem, hsub, hcard⟩

/-- Two addresses, of which the first one can be connected: the function fails, and descriptor 3
stays open. -/
theorem sockConnect_client_sample :
    let good : AddrAnswers := { socket := some 3, connect := 0, bind := 0, accept := none }
    let bad : AddrAnswers := { socket := some 4, connect := -1, bind := 0, accept := none }
    Steps connectTurn Unused (.start 0 {0, 1, 2}) ([good] ++ [bad])
      ∧ ¬ 0 ≤ (sockConnect true 0 ([good] ++ [bad]) {0, 1, 2}).1
      ∧ (sockConnect true 0 ([good] ++ [bad]) {0, 1, 2}).2.card = 4 := by
  intro good bad
  have hunused : Steps connectTurn Unused (.start 0 {0, 1, 2}) ([good] ++ [bad]) := by decide
  obtain ⟨hfd, -, -, hcard⟩ := sockConnect_client [good] bad {0, 1, 2} hunused
  have hfails : ¬ 0 ≤ (sockConnect true 0 ([good] ++ [bad]) {0, 1, 2}).1 :=
    fun h => absurd (hfd.mp h) (by decide)
  rw [if_neg hfails] at hcard
  exact ⟨hunused, hfails, hcard⟩

/-! ## `resources_create` -/

/-- The fields of `struct resources`, the list of the devices and `config.dev_name`. -/
inductive Kind where
  | sock
  | devList
  | devName
  | ibCtx
  | pd
  | cq
  | buf
  | mr
  | qp
  deriving DecidableEq

/-- What the verbs library asks to be there as long as an object is. -/
def needs : Kind → Finset Kind
  | .pd | .cq => {.ibCtx}
  | .mr => {.pd, .buf}
  | .qp => {.pd, .cq}
  | _ => ∅

/-- The pointers that are not `NULL` (and `sock`, if it is not negative), and the calls that were
made; `res->sock` and the descriptors of the process. -/
structure World where
  held : Finset Kind
  trace : List (Op Kind)
  sock : Int
  opened : Finset Nat

namespace World

def acquire (w : World) (k : Kind) : World :=
  { w with held := insert k w.held, trace := w.trace ++ [.acquire k] }

/-- The descriptors after an object was released: for the socket it is `close`. -/
def openedAfter (w : World) (k : Kind) : Finset Nat :=
  if k = .sock then w.opened.erase w.sock.toNat else w.opened

/-- Release an object and forget it, if there is one. -/
def release (w : World) (k : Kind) : World :=
  if k ∈ w.held then
    { w with
      held := w.held.erase k
      trace := w.trace ++ [.release k]
      opened := w.openedAfter k }
  else w

end World

/-- What the calls return: an object or a failure, and the results of the others. -/
structure Answers where
  /-- `config.dev_name`, from the command line. -/
  devName : Option String
  /-- There is a `config.server_name`. -/
  client : Bool
  /-- The result of `getaddrinfo`, and what happens at the addresses. -/
  resolved : Int
  addrs : List AddrAnswers
  /-- The names of the devices. -/
  deviceList : Option (List String)
  openDevice : Bool
  queryPort : Int
  allocPd : Bool
  createCq : Bool
  malloc : Bool
  regMr : Bool
  createQp : Bool
  /-- `rc` after `connect_qp` and the messages. -/
  session : Int
  /-- The results in `resources_destroy`. -/
  destroy : Kind → Int

/-- The search for the device: with no name given, the name of the first one is taken. -/
def findDevice (devName : Option String) (i : Nat) : List String → Option String × Option Nat
  | [] => (devName, none)
  | name :: names =>
      let devName := devName.getD name
      if name = devName then (some devName, some i) else findDevice (some devName) (i + 1) names

/-- The label `resources_create_exit`. -/
def createExit (rc : Int) (w : World) : Int × World :=
  if rc ≠ 0 then
    (rc, [Kind.qp, .mr, .buf, .cq, .pd, .ibCtx, .devList, .sock].foldl World.release w)
  else (rc, w)

/-- `resources_create`, when the device has been found. -/
def createOnDevice (a : Answers) (w : World) : Int × World :=
  if a.openDevice = false then createExit 1 w else
  let w := (w.acquire .ibCtx).release .devList
  if a.queryPort ≠ 0 then createExit 1 w else
  if a.allocPd = false then createExit 1 w else
  let w := w.acquire .pd
  if a.createCq = false then createExit 1 w else
  let w := w.acquire .cq
  if a.malloc = false then createExit 1 w else
  let w := w.acquire .buf
  if a.regMr = false then createExit 1 w else
  let w := w.acquire .mr
  if a.createQp = false then createExit 1 w else
  createExit 0 (w.acquire .qp)

/-- `resources_create`, when `sock_connect` has succeeded. -/
def createConnected (a : Answers) (w : World) : Int × World :=
  let w := w.acquire .sock
  match a.deviceList with
  | none => createExit 1 w
  | some names =>
      let w := w.acquire .devList
      if names.length = 0 then createExit 1 w else
      let w := if a.devName = none then w.acquire .devName else w
      if (findDevice a.devName 0 names).2 = none then createExit 1 w else createOnDevice a w

/-- `resources_create`. -/
def resourcesCreate (a : Answers) (w : World) : Int × World :=
  let connected := sockConnect a.client a.resolved a.addrs w.opened
  let w := { w with sock := connected.1, opened := connected.2 }
  if w.sock < 0 then createExit (-1) w else createConnected a w

/-- A call of `resources_destroy` for an object that is there. `free` has no result, and the field
keeps its value. -/
def destroyOne (results : Kind → Int) (s : Int × World) (k : Kind) : Int × World :=
  if k ∈ s.2.held then
    (if k ≠ .buf ∧ results k ≠ 0 then 1 else s.1,
      { s.2 with trace := s.2.trace ++ [.release k], opened := s.2.openedAfter k })
  else s

/-- `resources_destroy`. -/
def resourcesDestroy (results : Kind → Int) (w : World) : Int × World :=
  [Kind.qp, .mr, .buf, .cq, .pd, .ibCtx, .sock].foldl (destroyOne results) (0, w)

/-- What there is after the options have been read and `resources_init` was called. -/
def start (devName : Option String) (opened : Finset Nat) : World :=
  let w : World := { held := ∅, trace := [], sock := -1, opened := opened }
  if devName = none then w else w.acquire .devName

/-- `main`, after the options. -/
def main (a : Answers) (opened : Finset Nat) : Int × World :=
  let created := resourcesCreate a (start a.devName opened)
  let destroyed := resourcesDestroy a.destroy created.2
  (if destroyed.1 ≠ 0 then 1 else if created.1 ≠ 0 then 1 else a.session,
    destroyed.2.release .devName)

/-! ## What is given back -/

/-- The trace keeps the rules, and the process holds what it has acquired and not given back. -/
def World.Ok (w : World) : Prop := exec needs ∅ w.trace = some w.held

section GivesBack

variable {w : World} {k : Kind} {order : List Kind} {a : Answers} {sock : Int} {opened : Finset Nat}

/-- The descriptors after the objects that are there were released. -/
def World.openedAfterAll (w : World) (order : List Kind) : Finset Nat :=
  if .sock ∈ order ∧ .sock ∈ w.held then w.opened.erase w.sock.toNat else w.opened

theorem openedAfterAll_of_mem {w' : World} (hmem : k ∈ w.held) (hsock : w'.sock = w.sock)
    (hopened : w'.opened = w.openedAfter k) (hheld : .sock ≠ k → (.sock ∈ w'.held ↔ .sock ∈ w.held)) :
    w'.openedAfterAll order = w.openedAfterAll (k :: order) := by
  unfold World.openedAfterAll
  rw [hopened, hsock]
  unfold World.openedAfter
  by_cases hk : k = .sock
  · subst hk
    simp [hmem]
  · simp [hk, Ne.symm hk, hheld (Ne.symm hk)]

theorem openedAfterAll_of_not_mem (hnot : k ∉ w.held) :
    w.openedAfterAll order = w.openedAfterAll (k :: order) := by
  unfold World.openedAfterAll
  by_cases hk : k = .sock
  · subst hk
    simp [hnot]
  · simp [Ne.symm hk]

/-- A row of releases releases what there is. -/
theorem foldl_release (hnodup : order.Nodup) :
    order.foldl World.release w
      = { w with
          held := w.held \ order.toFinset
          trace := w.trace ++ (order.filter (· ∈ w.held)).map .release
          opened := w.openedAfterAll order } := by
  induction order generalizing w with
  | nil => simp [World.openedAfterAll]
  | cons k order ih =>
      obtain ⟨hnot, hnodup⟩ := List.nodup_cons.mp hnodup
      rw [List.foldl_cons, ih hnodup]
      unfold World.release
      by_cases hmem : k ∈ w.held
      · have hfilter : order.filter (· ∈ w.held.erase k) = order.filter (· ∈ w.held) := by
          apply List.filter_congr
          intro x hx
          have hne : x ≠ k := fun h => hnot (h ▸ hx)
          simp [hne]
        rw [if_pos hmem, List.filter_cons_of_pos (by simpa using hmem)]
        have hopened : World.openedAfterAll { w with
            held := w.held.erase k
            trace := w.trace ++ [.release k]
            opened := w.openedAfter k } order = w.openedAfterAll (k :: order) :=
          openedAfterAll_of_mem hmem rfl rfl fun hne => by simp [hne]
        simp only [hfilter, hopened, List.map_cons, List.append_assoc, List.singleton_append,
          List.toFinset_cons, Finset.sdiff_insert, Finset.erase_sdiff_comm]
      · rw [if_neg hmem, List.filter_cons_of_neg (by simpa using hmem)]
        rw [openedAfterAll_of_not_mem hmem]
        simp [Finset.sdiff_insert, hmem]

theorem foldl_destroyOne (results : Kind → Int) (rc : Int) :
    order.foldl (destroyOne results) (rc, w)
      = (if ∃ k ∈ order, k ∈ w.held ∧ k ≠ .buf ∧ results k ≠ 0 then 1 else rc,
        { w with
          trace := w.trace ++ (order.filter (· ∈ w.held)).map .release
          opened := w.openedAfterAll order }) := by
  induction order generalizing w rc with
  | nil => simp [World.openedAfterAll]
  | cons k order ih =>
      rw [List.foldl_cons]
      by_cases hmem : k ∈ w.held
      · have hone : destroyOne results (rc, w) k = (if k ≠ .buf ∧ results k ≠ 0 then 1 else rc,
            { w with trace := w.trace ++ [.release k], opened := w.openedAfter k }) := if_pos hmem
        have hopened : World.openedAfterAll { w with
            trace := w.trace ++ [.release k]
            opened := w.openedAfter k } order = w.openedAfterAll (k :: order) :=
          openedAfterAll_of_mem hmem rfl rfl fun _ => Iff.rfl
        rw [hone, ih, hopened, List.filter_cons_of_pos (by simpa using hmem)]
        by_cases hlater : ∃ k ∈ order, k ∈ w.held ∧ k ≠ .buf ∧ results k ≠ 0
        · simp [hlater, hmem]
        · simp [hlater, hmem]
      · have hone : destroyOne results (rc, w) k = (rc, w) := if_neg hmem
        rw [hone, ih, openedAfterAll_of_not_mem hmem, List.filter_cons_of_neg (by simpa using hmem)]
        simp [hmem]

/-- An order in which objects can be released: the last ones are needed by the first. -/
structure Descending (order : List Kind) : Prop where
  nodup : order.Nodup
  pairwise : order.Pairwise fun a b => a ∉ needs b
  needing : ∀ a b : Kind, a ∈ needs b → b ∈ order ∧ b ≠ a

theorem World.Ok.release_all (h : w.Ok) (horder : Descending order) :
    exec needs ∅ (w.trace ++ (order.filter (· ∈ w.held)).map .release)
      = some (w.held \ order.toFinset) := by
  have hmem : ∀ k ∈ order.filter (· ∈ w.held), k ∈ w.held := by
    intro k hk
    simpa using (List.mem_filter.mp hk).2
  have hfree : ∀ k ∈ order.filter (· ∈ w.held), ∀ b ∈ w.held, k ∈ needs b →
      b ∈ order.filter (· ∈ w.held) ∧ b ≠ k := by
    intro k _ b hb hneed
    obtain ⟨hin, hne⟩ := horder.needing k b hneed
    exact ⟨List.mem_filter.mpr ⟨hin, by simpa using hb⟩, hne⟩
  rw [exec_append h,
    exec_release_list hmem (horder.nodup.filter _) (horder.pairwise.filter _) hfree]
  congr 1
  ext k
  simp only [Finset.mem_sdiff, List.mem_toFinset, List.mem_filter, decide_eq_true_eq]
  tauto

theorem descending_create :
    Descending [.qp, .mr, .buf, .cq, .pd, .ibCtx, .devList, .sock] where
  nodup := by decide
  pairwise := by decide
  needing := by rintro a (_ | _) <;> revert a <;> decide

theorem descending_destroy : Descending [.qp, .mr, .buf, .cq, .pd, .ibCtx, .sock] where
  nodup := by decide
  pairwise := by decide
  needing := by rintro a (_ | _) <;> revert a <;> decide

/-- The descriptors but the one that `sock_connect` returned. -/
def remaining (opened : Finset Nat) (sock : Int) : Finset Nat :=
  if 0 ≤ sock then opened.erase sock.toNat else opened

/-- What `resources_create` leaves when `sock_connect` has returned `sock`: all of it, or nothing but
the name. -/
def Leaves (opened : Finset Nat) (sock : Int) (r : Int × World) : Prop :=
  r.2.Ok ∧ (r.1 = 0 ∧ r.2.held = {.sock, .devName, .ibCtx, .pd, .cq, .buf, .mr, .qp}
      ∧ r.2.openedAfterAll [.sock] = remaining opened sock
    ∨ r.1 ≠ 0 ∧ r.2.held ⊆ {.devName} ∧ r.2.opened = remaining opened sock)

/-- The trace keeps the rules, these objects are held, and these descriptors are open. -/
structure World.Holds (w : World) (held : Finset Kind) (sock : Int) (opened : Finset Nat) : Prop where
  ok : w.Ok
  held : w.held = held
  sock : w.sock = sock
  opened : w.opened = opened

theorem World.Holds.acquire {held held' : Finset Kind} (h : w.Holds held sock opened) (k : Kind)
    (hnew : k ∉ held) (hneeds : needs k ⊆ held) (hheld' : insert k held = held') :
    (w.acquire k).Holds held' sock opened := by
  obtain ⟨hok, rfl, hsock, hopened⟩ := h
  exact ⟨exec_acquire hok hnew hneeds, hheld', hsock, hopened⟩

/-- Anything but the socket is released and leaves the descriptors alone. -/
theorem World.Holds.release {held held' : Finset Kind} (h : w.Holds held sock opened) (k : Kind)
    (hne : k ≠ .sock) (hmem : k ∈ held) (hfree : ∀ b ∈ held, k ∉ needs b)
    (hheld' : held.erase k = held') : (w.release k).Holds held' sock opened := by
  obtain ⟨hok, rfl, hsock, hopened⟩ := h
  unfold World.release World.openedAfter
  rw [if_pos hmem, if_neg hne]
  exact ⟨exec_release hok hmem hfree, hheld', hsock, hopened⟩

theorem World.Holds.openedAfterAll {held : Finset Kind} (h : w.Holds held sock opened)
    (hsock : .sock ∈ held ↔ 0 ≤ sock) (hmem : .sock ∈ order) :
    w.openedAfterAll order = remaining opened sock := by
  obtain ⟨-, rfl, rfl, rfl⟩ := h
  unfold World.openedAfterAll remaining
  simp only [hmem, hsock, true_and]

theorem World.Holds.leaves {held : Finset Kind} {rc : Int} (h : w.Holds held sock opened)
    (hsock : .sock ∈ held ↔ 0 ≤ sock) (hrc : rc ≠ 0) :
    Leaves opened sock (createExit rc w) := by
  unfold createExit
  rw [if_pos hrc, foldl_release descending_create.nodup]
  refine ⟨h.ok.release_all descending_create, .inr ⟨hrc, fun k hk => ?_, ?_⟩⟩
  · obtain ⟨-, hnot⟩ := Finset.mem_sdiff.mp hk
    cases k <;> first | exact Finset.mem_singleton_self _ | exact absurd (by decide) hnot
  · exact h.openedAfterAll hsock (by decide)

theorem createOnDevice_leaves (hpos : 0 ≤ sock)
    (h : w.Holds {.devName, .devList, .sock} sock opened) :
    Leaves opened sock (createOnDevice a w) := by
  unfold createOnDevice
  split
  · exact h.leaves (by simp [hpos]) (by decide)
  have hctx : ((w.acquire .ibCtx).release .devList).Holds {.ibCtx, .devName, .sock}
      sock opened :=
    (h.acquire .ibCtx (by decide) (by decide) rfl).release .devList (by decide) (by decide)
      (by decide) (by decide)
  dsimp only
  split
  · exact hctx.leaves (by simp [hpos]) (by decide)
  split
  · exact hctx.leaves (by simp [hpos]) (by decide)
  have hpd := hctx.acquire .pd (by decide) (by decide) rfl
  split
  · exact hpd.leaves (by simp [hpos]) (by decide)
  have hcq := hpd.acquire .cq (by decide) (by decide) rfl
  split
  · exact hcq.leaves (by simp [hpos]) (by decide)
  have hbuf := hcq.acquire .buf (by decide) (by decide) rfl
  split
  · exact hbuf.leaves (by simp [hpos]) (by decide)
  have hmr := hbuf.acquire .mr (by decide) (by decide) rfl
  split
  · exact hmr.leaves (by simp [hpos]) (by decide)
  have hqp := hmr.acquire .qp (by decide) (by decide) rfl
  exact ⟨hqp.ok, .inl ⟨rfl, hqp.held.trans (by decide),
    hqp.openedAfterAll (by simp [hpos]) (by decide)⟩⟩

/-- What is held when `resources_create` is called. -/
def named (devName : Option String) : Finset Kind := if devName = none then ∅ else {.devName}

theorem not_mem_named {devName : Option String} (hne : k ≠ .devName) : k ∉ named devName := by
  unfold named
  split
  · exact Finset.notMem_empty k
  · simpa using hne

theorem createConnected_leaves (hpos : 0 ≤ sock) (h : w.Holds (named a.devName) sock opened) :
    Leaves opened sock (createConnected a w) := by
  unfold createConnected
  have hsock : (w.acquire .sock).Holds (insert .sock (named a.devName)) sock opened :=
    h.acquire .sock (not_mem_named (by decide)) (Finset.empty_subset _) rfl
  cases a.deviceList with
  | none => exact hsock.leaves (by simp [hpos]) (by decide)
  | some names =>
      have hnew : Kind.devList ∉ insert .sock (named a.devName) := by
        simpa using not_mem_named (by decide)
      have hlist := hsock.acquire .devList hnew (Finset.empty_subset _) rfl
      dsimp only
      split
      · exact hlist.leaves (by simp [hpos]) (by decide)
      have hname : (if a.devName = none then ((w.acquire .sock).acquire .devList).acquire .devName
          else (w.acquire .sock).acquire .devList).Holds {.devName, .devList, .sock} sock opened := by
        unfold named at hlist
        split
        next hnone =>
          rw [if_pos hnone] at hlist
          exact hlist.acquire .devName (by decide) (by decide) rfl
        next hsome =>
          rw [if_neg hsome] at hlist
          exact ⟨hlist.ok, hlist.held.trans (by decide), hlist.sock, hlist.opened⟩
      split
      · exact hname.leaves (by simp [hpos]) (by decide)
      · exact createOnDevice_leaves hpos hname

theorem resourcesCreate_leaves (h : w.Holds (named a.devName) sock opened) :
    Leaves (sockConnect a.client a.resolved a.addrs opened).2
      (sockConnect a.client a.resolved a.addrs opened).1 (resourcesCreate a w) := by
  unfold resourcesCreate
  rw [h.opened]
  dsimp only
  split
  next hneg =>
    refine World.Holds.leaves ⟨h.ok, h.held, rfl, rfl⟩ ?_ (by decide)
    exact iff_of_false (not_mem_named (by decide)) (not_le.mpr hneg)
  next hnot => exact createConnected_leaves (not_lt.mp hnot) ⟨h.ok, h.held, rfl, rfl⟩

theorem holds_start (devName : Option String) (opened : Finset Nat) :
    (start devName opened).Holds (named devName) (-1) opened := by
  unfold start named
  dsimp only
  split
  · exact ⟨rfl, rfl, rfl, rfl⟩
  · exact ⟨rfl, rfl, rfl, rfl⟩

theorem release_devName (h : exec needs ∅ w.trace = some (w.held ∩ {.devName})) :
    exec needs ∅ (w.release .devName).trace = some ∅ := by
  unfold World.release
  split
  next hmem =>
    rw [Finset.inter_singleton_of_mem hmem] at h
    exact exec_release h (Finset.mem_singleton_self _) (by decide)
  next hnot =>
    rw [Finset.inter_singleton_of_notMem hnot] at h
    exact h

theorem resourcesDestroy_eq (results : Kind → Int) (w : World) :
    resourcesDestroy results w
      = (if ∃ k ∈ [Kind.qp, .mr, .buf, .cq, .pd, .ibCtx, .sock],
            k ∈ w.held ∧ k ≠ .buf ∧ results k ≠ 0 then 1 else 0,
        { w with
          trace := w.trace
            ++ ([Kind.qp, .mr, .buf, .cq, .pd, .ibCtx, .sock].filter (· ∈ w.held)).map .release
          opened := w.openedAfterAll [.sock] }) := by
  unfold resourcesDestroy
  rw [foldl_destroyOne]
  unfold World.openedAfterAll
  simp

/-- `resources_destroy` leaves the name, if there is one. -/
theorem Leaves.held_sdiff {r : Int × World} (h : Leaves opened sock r) :
    r.2.held \ [Kind.qp, .mr, .buf, .cq, .pd, .ibCtx, .sock].toFinset
      = r.2.held ∩ {.devName} := by
  rcases h.2 with ⟨-, hall, -⟩ | ⟨-, hname, -⟩
  · rw [hall]
    decide
  · rcases Finset.subset_singleton_iff.mp hname with hnone | hone
    · rw [hnone]
      decide
    · rw [hone]
      decide

/-- `resources_destroy` closes what `sock_connect` returned, if that has not been done. -/
theorem Leaves.opened_destroyed {r : Int × World} (h : Leaves opened sock r) :
    r.2.openedAfterAll [.sock] = remaining opened sock := by
  rcases h.2 with ⟨-, -, hopened⟩ | ⟨-, hname, hopened⟩
  · exact hopened
  · have hnot : Kind.sock ∉ r.2.held := fun hmem => nomatch Finset.mem_singleton.mp (hname hmem)
    unfold World.openedAfterAll
    rw [if_neg (fun hand => hnot hand.2), hopened]

theorem opened_release_devName (w : World) : (w.release .devName).opened = w.opened := by
  unfold World.release World.openedAfter
  split
  · rfl
  · rfl

/-- When everything is there, a failure is that of one of the calls that have a result. -/
theorem destroy_fails_iff {held : Finset Kind}
    (hall : held = {.sock, .devName, .ibCtx, .pd, .cq, .buf, .mr, .qp}) (results : Kind → Int) :
    (∃ k ∈ [Kind.qp, .mr, .buf, .cq, .pd, .ibCtx, .sock], k ∈ held ∧ k ≠ .buf ∧ results k ≠ 0)
      ↔ ¬ ∀ k ∈ [Kind.qp, .mr, .cq, .pd, .ibCtx, .sock], results k = 0 := by
  rw [hall]
  simp
  tauto

/-- The descriptors that the kernel gives at an address are not in use. -/
def AddrAnswers.Fresh (x : AddrAnswers) (opened : Finset Nat) : Prop :=
  ∀ fd ∈ x.socket, fd ∉ opened ∧ ∀ conn ∈ x.accept, conn ∉ opened ∧ conn ≠ fd

/-- With a single address nothing is lost. -/
theorem remaining_sockConnect_single {client : Bool} {x : AddrAnswers} (hzero : 0 ∈ opened)
    (hfresh : x.Fresh opened) :
    remaining (sockConnect client 0 [x] opened).2 (sockConnect client 0 [x] opened).1 = opened := by
  obtain ⟨socket, connect, bind, accept⟩ := x
  cases socket with
  | none => cases client <;> simp [sockConnect, connectTurn, listenLoop, Sockets.start, remaining]
  | some fd =>
      obtain ⟨hfd, haccept⟩ := hfresh fd rfl
      have hne : fd ≠ 0 := fun h => hfd (h ▸ hzero)
      cases client with
      | true =>
          by_cases hconnect : connect = 0
          · simp [sockConnect, connectTurn, Sockets.start, remaining, hconnect, hfd]
          · simp [sockConnect, connectTurn, Sockets.start, remaining, hconnect]
      | false =>
          by_cases hbind : bind = 0
          · cases accept with
            | none => simp [sockConnect, listenLoop, Sockets.start, remaining, hbind, hfd, hne]
            | some conn =>
                obtain ⟨hconn, hother⟩ := haccept conn rfl
                simp [sockConnect, listenLoop, Sockets.start, remaining, hbind, hfd, hne, hconn,
                  Finset.erase_insert_of_ne hother]
          · simp [sockConnect, listenLoop, Sockets.start, remaining, hbind, hfd, hne]

end GivesBack

/-- A client with one address, for which all goes well but the registration of the buffer. -/
def regMrFails : Answers where
  devName := none
  client := true
  resolved := 0
  addrs := [{ socket := some 3, connect := 0, bind := 0, accept := none }]
  deviceList := some ["mlx5_0"]
  openDevice := true
  queryPort := 0
  allocPd := true
  createCq := true
  malloc := true
  regMr := false
  createQp := true
  session := 0
  destroy := fun _ => 0

end UioLinuxSample.Rdma.Resources
