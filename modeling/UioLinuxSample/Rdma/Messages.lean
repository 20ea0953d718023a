import UioLinuxSample.Rdma.Barriers

set_option autoImplicit false

/-! # The messages of a session

Whatever the order of the calls and of the adapters' actions, the client prints the message that was
sent and then the one that the server has put in its place, and the server ends with the message that
the client has written (`session_messages`).

The positions of the two programs give each side a phase. The phases say what is in the buffers and
which requests there can be (`Holds`), and the barriers keep the two sides in phases that go
together.
-/

namespace UioLinuxSample.Rdma.Session

open Run Words

/-! ## Phases -/

/-- How far the client is: it waits for the message with its receive request posted, it has been
sent the message, it reads the server's buffer, and so on. -/
inductive ClientPhase where
  | starting
  | waiting
  | sent
  | reading
  | read
  | filled
  | writing
  | done
  deriving DecidableEq

def clientPhase (pc : Nat) : ClientPhase :=
  if pc ≤ 2 then .starting
  else if pc ≤ 6 then .waiting
  else if pc ≤ 9 then .sent
  else if pc ≤ 10 then .reading
  else if pc ≤ 12 then .read
  else if pc ≤ 14 then .filled
  else if pc ≤ 15 then .writing
  else .done

/-- The server has the first message in its buffer until it has been sent, and then the second. -/
inductive ServerPhase where
  | first
  | sending
  | polled
  | again
  deriving DecidableEq

def serverPhase (pc : Nat) : ServerPhase :=
  if pc ≤ 5 then .first
  else if pc ≤ 6 then .sending
  else if pc ≤ 7 then .polled
  else .again

/-- A call that neither changes the memory nor begins a phase. -/
def Cmd.keeps : Cmd → Bool
  | .sync _ | .modifyQp _ | .printBuf => true
  | _ => false

inductive ClientTurn : Cmd → ClientPhase → ClientPhase → Prop where
  | keep {cmd : Cmd} {ph : ClientPhase} (h : cmd.keeps = true) : ClientTurn cmd ph ph
  | postReceive : ClientTurn .postReceive .starting .waiting
  | pollReceive : ClientTurn .pollCompletion .waiting .sent
  | postRead : ClientTurn (.postSend .rdmaRead) .sent .reading
  | pollRead : ClientTurn .pollCompletion .reading .read
  | strcpyBuf : ClientTurn (.strcpyBuf rdmaMsgW) .read .filled
  | postWrite : ClientTurn (.postSend .rdmaWrite) .filled .writing
  | pollWrite : ClientTurn .pollCompletion .writing .done

theorem clientTurn_of_at {pc : Nat} {cmd : Cmd} (hat : (program .client)[pc]? = some cmd) :
    ClientTurn cmd (clientPhase pc) (clientPhase (pc + 1)) := by
  obtain ⟨hlt, rfl⟩ := List.getElem?_eq_some_iff.mp hat
  have hlt' : pc < 17 := hlt
  interval_cases pc <;> first | exact .keep rfl | constructor

inductive ServerTurn : Cmd → ServerPhase → ServerPhase → Prop where
  | keep {cmd : Cmd} {ph : ServerPhase} (h : cmd.keeps = true) : ServerTurn cmd ph ph
  | postSend : ServerTurn (.postSend .send) .first .sending
  | pollSend : ServerTurn .pollCompletion .sending .polled
  | strcpyBuf : ServerTurn (.strcpyBuf rdmaMsgR) .polled .again

theorem serverTurn_of_at {pc : Nat} {cmd : Cmd} (hat : (program .server)[pc]? = some cmd) :
    ServerTurn cmd (serverPhase pc) (serverPhase (pc + 1)) := by
  obtain ⟨hlt, rfl⟩ := List.getElem?_eq_some_iff.mp hat
  have hlt' : pc < 11 := hlt
  interval_cases pc <;> first | exact .keep rfl | constructor

/-- The client has gone beyond the message. -/
def ClientPhase.late : ClientPhase → Bool
  | .starting | .waiting | .sent => false
  | _ => true

/-! ## Memories -/

/-- No request is under way. -/
structure Memory.Idle (mem : Memory) : Prop where
  recvs : mem.recvs = 0
  wr : mem.wr = none
  cq : mem.cq = []

/-- A request is under way, with `Moved` for the bytes it has copied, or completed, and then with
success only if all have been copied. -/
structure Memory.Requested (mem : Memory) (opcode : Opcode) (Moved : Fin msgSize → Prop) : Prop where
  recvs : mem.recvs = 0
  wr : ∀ wr, mem.wr = some wr → wr.opcode = opcode ∧ mem.cq = [] ∧ ∀ i ∈ wr.copied, Moved i
  cq : mem.cq.length ≤ 1
  success : true ∈ mem.cq → ∀ i, Moved i

/-- What the client's memory `c` holds in a phase, with `b` in the server's buffer. -/
def ClientHolds (c : Memory) (b : Buffer) : ClientPhase → Prop
  | .starting => c.Idle
  | .waiting => c.wr = none ∧ c.recvs + c.cq.length ≤ 1 ∧ (true ∈ c.cq → c.buf = sendMsg)
  | .sent => c.Idle ∧ c.buf = sendMsg
  | .reading => c.Requested .rdmaRead (fun i => c.buf i = rdmaMsgR i)
  | .read => c.Idle ∧ c.buf = rdmaMsgR
  | .filled => c.Idle ∧ c.buf = rdmaMsgW
  | .writing => c.Requested .rdmaWrite (fun i => b i = rdmaMsgW i) ∧ c.buf = rdmaMsgW
  | .done => c.Idle ∧ b = rdmaMsgW

/-- The client does not have the message. -/
def NotReceived (c : Memory) (ph : ClientPhase) : Prop :=
  ph = .starting ∨ ph = .waiting ∧ true ∉ c.cq

/-- What the server's memory `v` holds in a phase, while the client is in the phase `ph`. -/
def ServerHolds (v c : Memory) (ph : ClientPhase) : ServerPhase → Prop
  | .first => v.Idle ∧ v.buf = sendMsg ∧ NotReceived c ph
  | .sending => v.recvs = 0 ∧ v.cq.length ≤ 1 ∧ v.buf = sendMsg
      ∧ ∀ wr, v.wr = some wr → wr.opcode = .send ∧ v.cq = []
        ∧ (wr.delivered = false → NotReceived c ph ∧ ∀ i ∈ wr.copied, c.buf i = sendMsg i)
  | .polled => v.Idle ∧ v.buf = sendMsg
  | .again => v.Idle ∧ (ph ≠ .writing → ph ≠ .done → v.buf = rdmaMsgR)

structure Holds (c v : Memory) (cph : ClientPhase) (vph : ServerPhase) : Prop where
  client : ClientHolds c v.buf cph
  server : ServerHolds v c cph vph

section Memories

variable {c : Memory} {opcode : Opcode} {Moved : Fin msgSize → Prop} {wr : SendWr} {success : Bool}
  {rest : List Bool}

theorem eq_nil_of_length_cons_le (h : (success :: rest).length ≤ 1) : rest = [] := by
  rw [List.length_cons] at h
  exact List.length_eq_zero_iff.mp (by omega)

theorem Memory.Idle.cq_ne_cons (h : c.Idle) : c.cq ≠ success :: rest := by
  rw [h.cq]
  nofun

theorem Memory.Idle.requested (h : c.Idle) (hopcode : wr.opcode = opcode)
    (hcopied : wr.copied = []) : Memory.Requested { c with wr := some wr } opcode Moved := by
  constructor
  · exact h.recvs
  · rintro wr' hsome
    obtain rfl := Option.some.inj hsome
    refine ⟨hopcode, h.cq, ?_⟩
    rw [hcopied]
    nofun
  · show c.cq.length ≤ 1
    rw [h.cq]
    decide
  · show true ∈ c.cq → _
    rw [h.cq]
    nofun

theorem Memory.Requested.wr_eq_none (h : c.Requested opcode Moved) (hcq : c.cq = success :: rest) :
    c.wr = none := by
  by_contra hne
  obtain ⟨wr, hsome⟩ := Option.ne_none_iff_exists'.mp hne
  have hnil := (h.wr wr hsome).2.1
  rw [hcq] at hnil
  cases hnil

/-- A completion that was polled leaves nothing behind. -/
theorem Memory.Requested.polled (h : c.Requested opcode Moved) (hcq : c.cq = true :: rest) :
    Memory.Idle { c with cq := rest } ∧ ∀ i, Moved i := by
  refine ⟨⟨h.recvs, h.wr_eq_none hcq, eq_nil_of_length_cons_le (hcq ▸ h.cq)⟩, h.success ?_⟩
  rw [hcq]
  exact List.mem_cons_self

theorem Memory.Requested.dropped (h : c.Requested opcode Moved) (hcq : c.cq = success :: rest) :
    Memory.Requested { c with cq := rest } opcode Moved := by
  obtain rfl := eq_nil_of_length_cons_le (hcq ▸ h.cq)
  exact ⟨h.recvs, fun wr hsome => ⟨(h.wr wr hsome).1, rfl, (h.wr wr hsome).2.2⟩, Nat.zero_le 1,
    nofun⟩

end Memories

/-! ## The calls of the client -/

section ClientCalls

variable {c c' v : Memory} {cph cph' : ClientPhase} {vph : ServerPhase} {wr : SendWr}
  {rest : List Bool}

theorem Holds.refilled (h : Holds c v cph vph) (hvph : vph = .again) (hwriting : cph ≠ .writing)
    (hdone : cph ≠ .done) : v.buf = rdmaMsgR := by
  subst hvph
  exact h.server.2 hwriting hdone

/-- What the server's memory holds depends on the client only in these ways. -/
theorem ServerHolds.of_client (h : ServerHolds v c cph vph) (hbuf : c'.buf = c.buf)
    (hnot : NotReceived c cph → NotReceived c' cph')
    (hagain : vph = .again → cph' ≠ .writing → cph' ≠ .done → v.buf = rdmaMsgR) :
    ServerHolds v c' cph' vph := by
  cases vph with
  | first => exact ⟨h.1, h.2.1, hnot h.2.2⟩
  | sending =>
      obtain ⟨hrecvs, hcq, hsend, hwr⟩ := h
      refine ⟨hrecvs, hcq, hsend, fun wr hsome => ?_⟩
      obtain ⟨hopcode, hnil, hundelivered⟩ := hwr wr hsome
      refine ⟨hopcode, hnil, fun hfalse => ?_⟩
      rw [hbuf]
      exact ⟨hnot (hundelivered hfalse).1, (hundelivered hfalse).2⟩
  | polled => exact h
  | again => exact ⟨h.1, hagain rfl⟩

theorem Holds.postReceive (h : Holds c v .starting vph) :
    Holds { c with recvs := c.recvs + 1 } v .waiting vph := by
  obtain ⟨hrecvs, hwr, hcq⟩ := h.client
  have hnone : true ∉ c.cq := by
    rw [hcq]
    nofun
  constructor
  · refine ⟨hwr, ?_, fun hmem => absurd hmem hnone⟩
    show c.recvs + 1 + c.cq.length ≤ 1
    rw [hrecvs, hcq]
    decide
  · exact h.server.of_client rfl (fun _ => .inr ⟨rfl, hnone⟩)
      (fun hvph _ _ => h.refilled hvph nofun nofun)

theorem Holds.pollReceive (h : Holds c v .waiting vph) (hcq : c.cq = true :: rest) :
    Holds { c with cq := rest } v .sent vph := by
  obtain ⟨hwr, hpending, hbuf⟩ := h.client
  have hmem : true ∈ c.cq := by
    rw [hcq]
    exact List.mem_cons_self
  rw [hcq, List.length_cons] at hpending
  constructor
  · have hrecvs : c.recvs = 0 := by omega
    exact ⟨⟨hrecvs, hwr, List.length_eq_zero_iff.mp (by show rest.length = 0; omega)⟩, hbuf hmem⟩
  · refine h.server.of_client rfl ?_ (fun hvph _ _ => h.refilled hvph nofun nofun)
    rintro (hstarting | ⟨-, hnot⟩)
    · cases hstarting
    · exact absurd hmem hnot

/-- The completion of a request that has failed says nothing about the buffers. -/
theorem Holds.client_dropped (h : Holds c v cph vph) (hcq : c.cq = false :: rest) :
    Holds { c with cq := rest } v cph vph := by
  constructor
  · have hclient := h.client
    cases cph with
    | starting => exact absurd hcq hclient.cq_ne_cons
    | waiting =>
        obtain ⟨hwr, hpending, hbuf⟩ := hclient
        rw [hcq] at hpending hbuf
        refine ⟨hwr, ?_, fun hmem => hbuf (List.mem_cons_of_mem _ hmem)⟩
        rw [List.length_cons] at hpending
        show c.recvs + rest.length ≤ 1
        omega
    | reading => exact Memory.Requested.dropped hclient hcq
    | writing => exact ⟨hclient.1.dropped hcq, hclient.2⟩
    | sent | read | filled | done => exact absurd hcq hclient.1.cq_ne_cons
  · refine h.server.of_client rfl ?_ h.refilled
    rintro (hstarting | ⟨hwaiting, hnot⟩)
    · exact .inl hstarting
    · rw [hcq] at hnot
      exact .inr ⟨hwaiting, fun hmem => hnot (List.mem_cons_of_mem _ hmem)⟩

/-- A call of the client. The server has filled its buffer again before the client goes beyond the
message. -/
theorem Holds.client_turn {cmd : Cmd} (hturn : ClientTurn cmd cph cph') (heffect : Effect c cmd c')
    (h : Holds c v cph vph) (hlate : cph'.late = true → vph = .again) : Holds c' v cph' vph := by
  cases hturn with
  | keep hkeeps =>
      cases heffect with
      | modifyQp | printBuf => exact h
      | postReceive | postSend | polled | strcpyBuf => cases hkeeps
  | postReceive =>
      cases heffect
      exact h.postReceive
  | pollReceive =>
      cases heffect with
      | polled hcq => exact h.pollReceive hcq
  | postRead =>
      obtain rfl := hlate rfl
      cases heffect with
      | postSend hopcode hcopied =>
          exact ⟨h.client.1.requested hopcode hcopied, h.server.1,
            fun _ _ => h.server.2 nofun nofun⟩
  | pollRead =>
      obtain rfl := hlate rfl
      cases heffect with
      | polled hcq =>
          obtain ⟨hidle, hmoved⟩ := Memory.Requested.polled h.client hcq
          exact ⟨⟨hidle, funext hmoved⟩, h.server.1, fun _ _ => h.server.2 nofun nofun⟩
  | strcpyBuf =>
      obtain rfl := hlate rfl
      cases heffect
      obtain ⟨hrecvs, hwr, hcq⟩ := h.client.1
      exact ⟨⟨⟨hrecvs, hwr, hcq⟩, rfl⟩, h.server.1, fun _ _ => h.server.2 nofun nofun⟩
  | postWrite =>
      obtain rfl := hlate rfl
      cases heffect with
      | postSend hopcode hcopied =>
          exact ⟨⟨h.client.1.requested hopcode hcopied, h.client.2⟩, h.server.1,
            fun hwriting => absurd rfl hwriting⟩
  | pollWrite =>
      obtain rfl := hlate rfl
      cases heffect with
      | polled hcq =>
          obtain ⟨hidle, hmoved⟩ := h.client.1.polled hcq
          exact ⟨⟨hidle, funext hmoved⟩, h.server.1, fun _ hdone => absurd rfl hdone⟩

theorem ClientTurn.eq_of_keeps {cmd : Cmd} (hturn : ClientTurn cmd cph cph')
    (hkeeps : cmd.keeps = true) : cph' = cph := by
  cases hturn <;> first | rfl | cases hkeeps

theorem Holds.client_move {stream : List UInt8} {x x' : View} (hmove : Move .client stream x x')
    (h : Holds x.mem v (clientPhase x.pc) vph)
    (hlate : (clientPhase x'.pc).late = true → vph = .again) :
    Holds x'.mem v (clientPhase x'.pc) vph := by
  cases hmove with
  | stay | write | read => exact h
  | synced hat =>
      show Holds x.mem v (clientPhase (x.pc + 1)) vph
      rw [(clientTurn_of_at hat).eq_of_keeps rfl]
      exact h
  | call hat heffect => exact h.client_turn (clientTurn_of_at hat) heffect hlate
  | dropped hcq => exact h.client_dropped hcq

end ClientCalls

/-! ## The calls of the server -/

section ServerCalls

variable {c v v' : Memory} {cph : ClientPhase} {vph vph' : ServerPhase} {rest : List Bool}

/-- What the client's memory holds depends on the server's buffer only when it has gone on. -/
theorem ClientHolds.of_server {b b' : Buffer} (h : ClientHolds c b cph)
    (hbuf : cph.late = true → b' = b) : ClientHolds c b' cph := by
  cases cph with
  | starting | waiting | sent => exact h
  | reading | read | filled | writing | done =>
      rw [hbuf rfl]
      exact h

theorem Holds.server_turn {cmd : Cmd} (hturn : ServerTurn cmd vph vph') (heffect : Effect v cmd v')
    (h : Holds c v cph vph) (hlate : cph.late = true → vph = .again) : Holds c v' cph vph' := by
  cases hturn with
  | keep hkeeps =>
      cases heffect with
      | modifyQp | printBuf => exact h
      | postReceive | postSend | polled | strcpyBuf => cases hkeeps
  | postSend =>
      obtain ⟨hidle, hbuf, hnot⟩ := h.server
      cases heffect with
      | postSend hopcode hcopied =>
          refine ⟨h.client, hidle.recvs, ?_, hbuf, ?_⟩
          · show v.cq.length ≤ 1
            rw [hidle.cq]
            decide
          · rintro wr' hsome
            obtain rfl := Option.some.inj hsome
            refine ⟨hopcode, hidle.cq, fun _ => ⟨hnot, ?_⟩⟩
            rw [hcopied]
            nofun
  | pollSend =>
      obtain ⟨hrecvs, hlen, hbuf, hwr⟩ := h.server
      cases heffect with
      | polled hcq =>
          refine ⟨h.client, ⟨hrecvs, ?_, eq_nil_of_length_cons_le (hcq ▸ hlen)⟩, hbuf⟩
          show v.wr = none
          by_contra hne
          obtain ⟨wr, hsome⟩ := Option.ne_none_iff_exists'.mp hne
          have hnil := (hwr wr hsome).2.1
          rw [hcq] at hnil
          cases hnil
  | strcpyBuf =>
      obtain ⟨⟨hrecvs, hwr, hcq⟩, -⟩ := h.server
      cases heffect
      exact ⟨h.client.of_server (fun hcph => nomatch hlate hcph), ⟨hrecvs, hwr, hcq⟩,
        fun _ _ => rfl⟩

theorem ServerTurn.eq_of_keeps {cmd : Cmd} (hturn : ServerTurn cmd vph vph')
    (hkeeps : cmd.keeps = true) : vph' = vph := by
  cases hturn <;> first | rfl | cases hkeeps

theorem Holds.server_dropped (h : Holds c v cph vph) (hcq : v.cq = false :: rest) :
    Holds c { v with cq := rest } cph vph := by
  refine ⟨h.client, ?_⟩
  have hserver := h.server
  cases vph with
  | sending =>
      obtain ⟨hrecvs, hlen, hbuf, hwr⟩ := hserver
      obtain rfl := eq_nil_of_length_cons_le (hcq ▸ hlen)
      exact ⟨hrecvs, Nat.zero_le 1, hbuf,
        fun wr hsome => ⟨(hwr wr hsome).1, rfl, (hwr wr hsome).2.2⟩⟩
  | first | polled | again => exact absurd hcq hserver.1.cq_ne_cons

theorem Holds.server_move {stream : List UInt8} {x x' : View} (hmove : Move .server stream x x')
    (h : Holds c x.mem cph (serverPhase x.pc))
    (hlate : cph.late = true → serverPhase x.pc = .again) :
    Holds c x'.mem cph (serverPhase x'.pc) := by
  cases hmove with
  | stay | write | read => exact h
  | synced hat =>
      show Holds c x.mem cph (serverPhase (x.pc + 1))
      rw [(serverTurn_of_at hat).eq_of_keeps rfl]
      exact h
  | call hat heffect => exact h.server_turn (serverTurn_of_at hat) heffect hlate
  | dropped hcq => exact h.server_dropped hcq

end ServerCalls

/-! ## The actions of the adapters -/

/-- What an action can do to the memory of the requesting side and to the other one. -/
inductive NicMove (own other : Memory) : Memory → Memory → Prop where
  | stay : NicMove own other own other
  | copySend {wr : SendWr} (i : Fin msgSize) (hwr : own.wr = some wr) (hopcode : wr.opcode = .send)
      (hdelivered : wr.delivered = false) (hrecvs : 0 < other.recvs) :
      NicMove own other { own with wr := some { wr with copied := i :: wr.copied } }
        { other with buf := copyByte i own.buf other.buf }
  | copyRead {wr : SendWr} (i : Fin msgSize) (hwr : own.wr = some wr)
      (hopcode : wr.opcode = .rdmaRead) :
      NicMove own other
        { own with
          wr := some { wr with copied := i :: wr.copied }, buf := copyByte i other.buf own.buf }
        other
  | copyWrite {wr : SendWr} (i : Fin msgSize) (hwr : own.wr = some wr)
      (hopcode : wr.opcode = .rdmaWrite) :
      NicMove own other { own with wr := some { wr with copied := i :: wr.copied } }
        { other with buf := copyByte i own.buf other.buf }
  | deliver {wr : SendWr} (hwr : own.wr = some wr) (hopcode : wr.opcode = .send)
      (hdelivered : wr.delivered = false) (hwhole : wr.Whole) (hrecvs : 0 < other.recvs) :
      NicMove own other { own with wr := some { wr with delivered := true } }
        { other with recvs := other.recvs - 1, cq := other.cq ++ [true] }
  | complete {wr : SendWr} {success : Bool} (hwr : own.wr = some wr)
      (hmay : wr.MayComplete success) :
      NicMove own other { own with wr := none, cq := own.cq ++ [success] } other
  | flush (hrecvs : 0 < own.recvs) :
      NicMove own other { own with recvs := own.recvs - 1, cq := own.cq ++ [false] } other

theorem copyStep_move {wr : SendWr} {own other : Memory} (i : Fin msgSize)
    (hwr : own.wr = some wr) :
    NicMove own other (copyStep i wr own other).1 (copyStep i wr own other).2 := by
  unfold copyStep
  dsimp only
  split
  next hopcode =>
    split
    next hcan => exact .copySend i hwr hopcode hcan.1 hcan.2
    next => exact .stay
  next hopcode => exact .copyRead i hwr hopcode
  next hopcode => exact .copyWrite i hwr hopcode

/-- **What an action does.** -/
theorem nicStep_move (cfg : Setup) (s : State) (side : Side) (e : NicEvent) :
    NicMove (s side).mem (s side.other).mem (nicStep cfg s side e).1 (nicStep cfg s side e).2 := by
  unfold nicStep
  dsimp only
  split
  next wr i hwr =>
    split
    next => exact copyStep_move i hwr
    next => exact .stay
  next wr hwr =>
    split
    next =>
      unfold deliverStep
      split
      next hcan => exact .deliver hwr hcan.1 hcan.2.1 hcan.2.2.1 hcan.2.2.2
      next => exact .stay
    next => exact .stay
  next wr success hwr =>
    unfold completeStep
    split
    next hmay => exact .complete hwr hmay
    next => exact .stay
  next =>
    split
    next hrecvs => exact .flush hrecvs
    next => exact .stay
  next => exact .stay

section Actions

variable {c c' v v' : Memory} {cph : ClientPhase} {vph : ServerPhase} {opcode : Opcode}
  {Moved Moved' : Fin msgSize → Prop} {wr : SendWr}

theorem copyByte_eq {i j : Fin msgSize} {src dst : Buffer} {b : Char} (hsrc : src j = b)
    (hdst : j ≠ i → dst j = b) : copyByte i src dst j = b := by
  unfold copyByte
  rcases eq_or_ne j i with rfl | hne
  · rw [Function.update_self, hsrc]
  · rw [Function.update_of_ne hne, hdst hne]

/-- One more byte of a request is copied. -/
theorem Memory.Requested.copied (h : c.Requested opcode Moved) (hwr : c.wr = some wr)
    {i : Fin msgSize} {b : Buffer} (hi : Moved' i) (hrest : ∀ j, Moved j → Moved' j) :
    Memory.Requested { c with buf := b, wr := some { wr with copied := i :: wr.copied } }
      opcode Moved' := by
  obtain ⟨hopcode, hcq, hmoved⟩ := h.wr wr hwr
  refine ⟨h.recvs, ?_, h.cq, ?_⟩
  · rintro wr' hsome
    obtain rfl := Option.some.inj hsome
    refine ⟨hopcode, hcq, fun j hj => ?_⟩
    rcases List.mem_cons.mp hj with rfl | hj
    · exact hi
    · exact hrest j (hmoved j hj)
  · show true ∈ c.cq → _
    rw [hcq]
    nofun

theorem Memory.Requested.complete (h : c.Requested opcode Moved) (hopcode : opcode ≠ .send)
    (hwr : c.wr = some wr) {success : Bool} (hmay : wr.MayComplete success) :
    Memory.Requested { c with wr := none, cq := c.cq ++ [success] } opcode Moved := by
  obtain ⟨hwropcode, hcq, hmoved⟩ := h.wr wr hwr
  rw [hcq]
  refine ⟨h.recvs, nofun, Nat.le_refl 1, fun hmem i => hmoved i ?_⟩
  have hwhole := hmay (List.mem_singleton.mp hmem).symm
  rw [hwropcode, if_neg hopcode] at hwhole
  exact hwhole i

theorem Memory.Idle.wr_ne_some (h : c.Idle) : c.wr ≠ some wr := by
  rw [h.wr]
  nofun

/-- Only a client that reads or writes has a send request. -/
theorem ClientHolds.requesting {b : Buffer} (h : ClientHolds c b cph) (hwr : c.wr = some wr) :
    cph = .reading ∧ wr.opcode = .rdmaRead ∨ cph = .writing ∧ wr.opcode = .rdmaWrite := by
  cases cph with
  | starting => exact absurd hwr h.wr_ne_some
  | waiting => exact absurd hwr (by rw [h.1]; nofun)
  | reading => exact .inl ⟨rfl, (Memory.Requested.wr h wr hwr).1⟩
  | writing => exact .inr ⟨rfl, (h.1.wr wr hwr).1⟩
  | sent | read | filled | done => exact absurd hwr h.1.wr_ne_some

/-- Only a client that waits for the message has a receive request. -/
theorem ClientHolds.receiving {b : Buffer} (h : ClientHolds c b cph) (hrecvs : 0 < c.recvs) :
    cph = .waiting := by
  cases cph with
  | waiting => rfl
  | starting => exact absurd h.recvs hrecvs.ne'
  | reading => exact absurd (Memory.Requested.recvs h) hrecvs.ne'
  | sent | read | filled | writing | done => exact absurd h.1.recvs hrecvs.ne'

/-- The server has no receive request, and only its message as a send request. -/
theorem ServerHolds.recvs (h : ServerHolds v c cph vph) : v.recvs = 0 := by
  cases vph with
  | sending => exact h.1
  | first | polled | again => exact h.1.recvs

theorem ServerHolds.requesting (h : ServerHolds v c cph vph) (hwr : v.wr = some wr) :
    vph = .sending ∧ wr.opcode = .send := by
  cases vph with
  | sending => exact ⟨rfl, (h.2.2.2 wr hwr).1⟩
  | first | polled | again => exact absurd hwr h.1.wr_ne_some

theorem Holds.client_nic (hmove : NicMove c v c' v') (h : Holds c v cph vph)
    (hlate : cph.late = true → vph = .again) : Holds c' v' cph vph := by
  cases hmove with
  | stay => exact h
  | copySend i hwr hopcode | deliver hwr hopcode =>
      rcases h.client.requesting hwr with ⟨-, hread⟩ | ⟨-, hwrite⟩
      · rw [hopcode] at hread
        cases hread
      · rw [hopcode] at hwrite
        cases hwrite
  | copyRead i hwr hopcode =>
      rcases h.client.requesting hwr with ⟨rfl, -⟩ | ⟨-, hwrite⟩
      · obtain rfl := hlate rfl
        have hsrc : v.buf = rdmaMsgR := h.server.2 nofun nofun
        refine ⟨Memory.Requested.copied h.client hwr ?_ ?_, h.server.1, fun _ _ => hsrc⟩
        · exact copyByte_eq (congrFun hsrc i) (absurd rfl)
        · intro j hj
          exact copyByte_eq (congrFun hsrc j) (fun _ => hj)
      · rw [hopcode] at hwrite
        cases hwrite
  | copyWrite i hwr hopcode =>
      rcases h.client.requesting hwr with ⟨-, hread⟩ | ⟨rfl, -⟩
      · rw [hopcode] at hread
        cases hread
      · obtain rfl := hlate rfl
        obtain ⟨hrequested, hsrc⟩ := h.client
        obtain ⟨⟨hrecvs, hnone, hcq⟩, -⟩ := h.server
        refine ⟨⟨hrequested.copied hwr ?_ ?_, hsrc⟩, ⟨hrecvs, hnone, hcq⟩,
          fun hwriting => absurd rfl hwriting⟩
        · exact copyByte_eq (congrFun hsrc i) (absurd rfl)
        · intro j hj
          exact copyByte_eq (congrFun hsrc j) (fun _ => hj)
  | complete hwr hmay =>
      rcases h.client.requesting hwr with ⟨rfl, -⟩ | ⟨rfl, -⟩
      · obtain rfl := hlate rfl
        exact ⟨Memory.Requested.complete h.client nofun hwr hmay, h.server⟩
      · obtain rfl := hlate rfl
        exact ⟨⟨h.client.1.complete nofun hwr hmay, h.client.2⟩, h.server⟩
  | flush hrecvs =>
      obtain rfl := h.client.receiving hrecvs
      obtain ⟨hwr, hpending, hbuf⟩ := h.client
      have hnil : c.cq = [] := List.length_eq_zero_iff.mp (by omega)
      rw [hnil]
      refine ⟨⟨hwr, ?_, ?_⟩, h.server.of_client rfl ?_ h.refilled⟩
      · show c.recvs - 1 + 1 ≤ 1
        omega
      · intro hmem
        cases List.mem_singleton.mp hmem
      · rintro (hstarting | ⟨hwaiting, -⟩)
        · cases hstarting
        · exact .inr ⟨hwaiting, fun hmem => nomatch List.mem_singleton.mp hmem⟩

theorem Holds.server_nic (hmove : NicMove v c v' c') (h : Holds c v cph vph) :
    Holds c' v' cph vph := by
  cases hmove with
  | stay => exact h
  | copyRead i hwr hopcode | copyWrite i hwr hopcode =>
      obtain ⟨-, hsend⟩ := h.server.requesting hwr
      rw [hopcode] at hsend
      cases hsend
  | flush hrecvs => exact absurd h.server.recvs hrecvs.ne'
  | copySend i hwr hopcode hdelivered hrecvs =>
      obtain ⟨rfl, -⟩ := h.server.requesting hwr
      obtain rfl := h.client.receiving hrecvs
      obtain ⟨hvrecvs, hlen, hbuf, hsending⟩ := h.server
      obtain ⟨-, hnil, hundelivered⟩ := hsending _ hwr
      obtain ⟨hnot, hcopied⟩ := hundelivered hdelivered
      obtain ⟨hnone, hpending, -⟩ := h.client
      have hwithout : true ∉ c.cq := by
        rcases hnot with hstarting | ⟨-, hwithout⟩
        · cases hstarting
        · exact hwithout
      refine ⟨⟨hnone, hpending, fun hmem => absurd hmem hwithout⟩, hvrecvs, hlen, hbuf, ?_⟩
      rintro wr' hsome
      obtain rfl := Option.some.inj hsome
      refine ⟨hopcode, hnil, fun _ => ⟨.inr ⟨rfl, hwithout⟩, fun j hj => ?_⟩⟩
      refine copyByte_eq (congrFun hbuf j) (fun hne => ?_)
      exact hcopied j ((List.mem_cons.mp hj).resolve_left hne)
  | deliver hwr hopcode hdelivered hwhole hrecvs =>
      obtain ⟨rfl, -⟩ := h.server.requesting hwr
      obtain rfl := h.client.receiving hrecvs
      obtain ⟨hvrecvs, hlen, hbuf, hsending⟩ := h.server
      obtain ⟨-, hnil, hundelivered⟩ := hsending _ hwr
      obtain ⟨-, hcopied⟩ := hundelivered hdelivered
      obtain ⟨hnone, hpending, -⟩ := h.client
      refine ⟨⟨hnone, ?_, fun _ => funext fun i => hcopied i (hwhole i)⟩, hvrecvs, hlen, hbuf, ?_⟩
      · show c.recvs - 1 + (c.cq ++ [true]).length ≤ 1
        rw [List.length_append, List.length_singleton]
        omega
      · rintro wr' hsome
        obtain rfl := Option.some.inj hsome
        exact ⟨hopcode, hnil, nofun⟩
  | complete hwr hmay =>
      obtain ⟨rfl, -⟩ := h.server.requesting hwr
      obtain ⟨hvrecvs, -, hbuf, hsending⟩ := h.server
      obtain ⟨-, hnil, -⟩ := hsending _ hwr
      refine ⟨h.client, hvrecvs, ?_, hbuf, nofun⟩
      rw [hnil]
      exact Nat.le_refl 1

end Actions

/-! ## The session -/

/-- What a side prints when it gets to the end. -/
def messages : Side → List (List Char)
  | .client => [sendMsgText, rdmaMsgRText, rdmaMsgWText]
  | .server => [rdmaMsgWText]

/-- How often a side has printed its buffer. -/
def prints (side : Side) (pc : Nat) : Nat := ((program side).take pc).count .printBuf

def State.views (s : State) : Side → View := fun side => (s side).view

/-- A side that has ended with 0 has made all its calls. -/
def Party.Ended (side : Side) (p : Party) : Prop :=
  p.exited = some 0 → p.pc = (program side).length

structure Kept (s : State) : Prop where
  counted : Counted s.views
  holds : Holds (s .client).mem (s .server).mem (clientPhase (s .client).pc)
    (serverPhase (s .server).pc)
  printed : ∀ side, (s side).printed = (messages side).take (prints side (s side).pc)
  ended : ∀ side, (s side).Ended side

section Session

variable {cfg : Setup} {side : Side} {s : State} {pc : Nat} {cmd : Cmd}

theorem prints_succ (hat : (program side)[pc]? = some cmd) :
    prints side (pc + 1) = prints side pc + if cmd = .printBuf then 1 else 0 := by
  unfold prints
  rw [List.take_add_one, hat]
  simp [List.count_cons]

theorem prints_length : prints side (program side).length = (messages side).length := by
  cases side <;> decide +kernel

theorem clientPhase_late (h : (clientPhase pc).late = true) : 10 ≤ pc := by
  by_contra hlt
  have hlt' : pc < 10 := not_le.mp hlt
  interval_cases pc <;> cases h

theorem serverPhase_again (h : 8 ≤ pc) : serverPhase pc = .again := by
  unfold serverPhase
  iterate 3 rw [if_neg (by omega)]

theorem clientPhase_done (h : 16 ≤ pc) : clientPhase pc = .done := by
  unfold clientPhase
  iterate 7 rw [if_neg (by omega)]

/-- The phases of the two sides that go together. -/
theorem Counted.late {w : Side → View} (h : Counted w)
    (hlate : (clientPhase (w .client).pc).late = true) :
    serverPhase (w .server).pc = .again := by
  have hpc := clientPhase_late hlate
  exact serverPhase_again (h.filled (by omega))

/-- What the client prints next. -/
theorem client_prints (hat : (program .client)[pc]? = some .printBuf) :
    clientPhase pc = .sent ∧ prints .client pc = 0
      ∨ clientPhase pc = .read ∧ prints .client pc = 1
      ∨ clientPhase pc = .filled ∧ prints .client pc = 2 := by
  obtain ⟨hlt, hcmd⟩ := List.getElem?_eq_some_iff.mp hat
  have hlt' : pc < 17 := hlt
  interval_cases pc <;> first | decide +kernel | cases hcmd

theorem server_prints (hat : (program .server)[pc]? = some .printBuf) : pc = 10 := by
  obtain ⟨hlt, hcmd⟩ := List.getElem?_eq_some_iff.mp hat
  have hlt' : pc < 11 := hlt
  interval_cases pc <;> first | rfl | cases hcmd

/-- A buffer that is printed holds the next message. -/
theorem Kept.next_message (h : Kept s) (hat : (program side)[(s side).pc]? = some .printBuf) :
    (messages side)[prints side (s side).pc]? = some (s side).mem.buf.text := by
  obtain ⟨-, hsend, hread, hwrite⟩ := text_messages
  cases side with
  | client =>
      have hclient := h.holds.client
      rcases client_prints hat with ⟨hph, hprints⟩ | ⟨hph, hprints⟩ | ⟨hph, hprints⟩
      all_goals
        rw [hph] at hclient
        rw [hprints, hclient.2]
      · rw [hsend]; rfl
      · rw [hread]; rfl
      · rw [hwrite]; rfl
  | server =>
      have hpc := server_prints hat
      have hdone : clientPhase (s .client).pc = .done :=
        clientPhase_done (h.counted.written (Nat.le_of_eq hpc.symm))
      have hclient := h.holds.client
      rw [hdone] at hclient
      rw [hpc, hclient.2, hwrite]
      rfl

theorem Move.printed {stream : List UInt8} {v v' : View} (hmove : Move side stream v v')
    (h : v.printed = (messages side).take (prints side v.pc))
    (hnext : (program side)[v.pc]? = some .printBuf →
      (messages side)[prints side v.pc]? = some v.mem.buf.text) :
    v'.printed = (messages side).take (prints side v'.pc) := by
  cases hmove with
  | stay | write | read | dropped => exact h
  | synced hat =>
      show v.printed = (messages side).take (prints side (v.pc + 1))
      rw [prints_succ hat]
      exact h
  | @call cmd mem hat heffect =>
      show v.printed ++ cmd.prints v.mem.buf = (messages side).take (prints side (v.pc + 1))
      rw [prints_succ hat, h]
      cases heffect with
      | printBuf =>
          rw [if_pos rfl, List.take_add_one, hnext hat]
          rfl
      | modifyQp | postReceive | postSend | polled | strcpyBuf =>
          rw [if_neg nofun]
          exact List.append_nil _

theorem Party.ended_fail (p : Party) : p.fail.Ended side := nofun

theorem Party.ended_advance (p : Party) : (p.advance side).Ended side := by
  intro hexited
  by_contra hne
  have hnone : (p.advance side).exited = none := if_neg hne
  rw [hnone] at hexited
  cases hexited

theorem Party.ended_synced {point : SyncPoint} {rc : Int} (p : Party) :
    (p.synced cfg side point rc).Ended side := by
  unfold Party.synced
  split
  · cases point <;> exact Party.ended_advance _
  · exact p.ended_fail

theorem partyStep_ended {stream : List UInt8} {p : Party} (h : p.Ended side) (e : PartyEvent) :
    (partyStep cfg side stream p e).Ended side := by
  unfold partyStep
  split
  next =>
    unfold Party.write
    dsimp only
    split_ifs
    exacts [Party.ended_synced _, h, h]
  next =>
    unfold Party.read
    split
    · exact h
    · dsimp only
      split_ifs
      exacts [h, Party.ended_synced _, h]
  next =>
    unfold Party.readEnd
    split_ifs
    exacts [Party.ended_synced _, h]
  next =>
    unfold Party.modifyQp
    split_ifs
    exacts [Party.ended_advance _, p.ended_fail]
  next =>
    unfold Party.postReceive
    split_ifs
    exacts [Party.ended_advance _, p.ended_fail]
  next =>
    unfold Party.postSend
    split_ifs
    exacts [Party.ended_advance _, p.ended_fail]
  next =>
    unfold Party.poll
    split
    · exact h
    · split
      · split_ifs
        exacts [h, p.ended_fail]
      · dsimp only
        split_ifs
        exacts [Party.ended_advance _, Party.ended_fail _]
  next =>
    split_ifs
    exacts [p.ended_fail, h]
  next => exact Party.ended_advance _
  next => exact Party.ended_advance _
  next => exact h

theorem views_update (p : Party) :
    State.views (Function.update s side p) = Function.update s.views side p.view := by
  funext side'
  rcases eq_or_ne side' side with rfl | hne
  · simp [State.views]
  · simp [State.views, hne]

theorem Kept.run {e : PartyEvent} (h : Kept s) (hok : Completes s (.run side e)) :
    Kept (step cfg s (.run side e)) := by
  have hmove : Move side (s.views side.other).sent (s.views side)
      (partyStep cfg side (s side.other).sent (s side) e).view := partyStep_move hok
  have hcounted := h.counted.move hmove
  rw [← views_update] at hcounted
  refine ⟨hcounted, ?_, ?_, ?_⟩
  · cases side with
    | client => exact h.holds.client_move hmove hcounted.late
    | server => exact h.holds.server_move hmove h.counted.late
  · intro side'
    show (Function.update s side _ side').printed
      = (messages side').take (prints side' (Function.update s side _ side').pc)
    rcases eq_or_ne side' side with rfl | hne
    · rw [Function.update_self]
      exact hmove.printed (h.printed side') h.next_message
    · rw [Function.update_of_ne hne]
      exact h.printed side'
  · intro side'
    show (Function.update s side _ side').Ended side'
    rcases eq_or_ne side' side with rfl | hne
    · rw [Function.update_self]
      exact partyStep_ended (h.ended side') e
    · rw [Function.update_of_ne hne]
      exact h.ended side'

/-- An action changes nothing but the memories. -/
theorem step_nic (cfg : Setup) (s : State) (side : Side) (e : NicEvent) (side' : Side) :
    ∃ mem, step cfg s (.nic side e) side' = { s side' with mem := mem } := by
  unfold step
  dsimp only
  split
  · exact ⟨_, rfl⟩
  · exact ⟨_, rfl⟩

theorem Kept.nic {e : NicEvent} (h : Kept s) : Kept (step cfg s (.nic side e)) := by
  have hsame := step_nic cfg s side e
  refine ⟨⟨?_, ?_⟩, ?_, ?_, ?_⟩
  · intro side'
    obtain ⟨mem, heq⟩ := hsame side'
    obtain ⟨hreading, hreceived, hsent⟩ := h.counted.each side'
    unfold State.views
    rw [heq]
    exact ⟨hreading, hreceived, hsent⟩
  · intro side'
    obtain ⟨mem, heq⟩ := hsame side'
    obtain ⟨mem', heq'⟩ := hsame side'.other
    unfold State.views
    rw [heq, heq']
    exact h.counted.wire side'
  · have hmove := nicStep_move cfg s side e
    cases side with
    | client => exact h.holds.client_nic hmove h.counted.late
    | server => exact h.holds.server_nic hmove
  · intro side'
    obtain ⟨mem, heq⟩ := hsame side'
    rw [heq]
    exact h.printed side'
  · intro side'
    obtain ⟨mem, heq⟩ := hsame side'
    rw [heq]
    exact h.ended side'

theorem kept_initial (cfg : Setup) : Kept (initial cfg) where
  counted := ⟨fun _ => ⟨nofun, Nat.zero_le 0, Nat.zero_le 0⟩, fun _ => Nat.zero_le 0⟩
  holds := ⟨⟨rfl, rfl, rfl⟩, ⟨rfl, rfl, rfl⟩, rfl, .inl rfl⟩
  printed := fun _ => rfl
  ended := fun _ => nofun

theorem kept_session (es : List Event) (h : Steps (step cfg) Completes (initial cfg) es) :
    Kept (session cfg es) := by
  refine inv_run (fun s e hkept hok => ?_) (kept_initial cfg) h
  cases e with
  | run side e => exact hkept.run hok
  | nic side e => exact hkept.nic

/-- There is room for every completion in a queue of `cq_size = 1`. -/
theorem Holds.cq_length {c v : Memory} {cph : ClientPhase} {vph : ServerPhase}
    (h : Holds c v cph vph) : c.cq.length ≤ 1 ∧ v.cq.length ≤ 1 := by
  obtain ⟨hclient, hserver⟩ := h
  constructor
  · cases cph with
    | waiting => exact (Nat.le_add_left _ _).trans hclient.2.1
    | starting => simp [hclient.cq]
    | reading => exact Memory.Requested.cq hclient
    | writing => exact hclient.1.cq
    | sent | read | filled | done => simp [hclient.1.cq]
  · cases vph with
    | sending => exact hserver.2.1
    | first | polled | again => simp [hserver.1.cq]

end Session

/-- **The messages of a session.** Each side prints its messages in this order and nothing else, and
all of them before it returns 0. The completion queues have room for what is completed, and nothing
is sent before there is a request to receive it. -/
theorem session_messages (cfg : Setup) (es : List Event)
    (h : Steps (step cfg) Completes (initial cfg) es) :
    let s := session cfg es
    (∀ side, (s side).printed <+: messages side
        ∧ ((s side).exited = some 0 → (s side).printed = messages side)
        ∧ (s side).mem.cq.length ≤ 1)
      ∧ ((s .server).Did .server (.postSend .send) → (s .client).Did .client .postReceive) := by
  have hkept := kept_session es h
  refine ⟨fun side => ⟨?_, fun hexited => ?_, ?_⟩, fun hdid => ?_⟩
  · rw [hkept.printed side]
    exact List.take_prefix _ _
  · rw [hkept.printed side, hkept.ended side hexited, prints_length]
    exact List.take_length
  · cases side with
    | client => exact hkept.holds.cq_length.1
    | server => exact hkept.holds.cq_length.2
  · have hserver : 5 ≤ (session cfg es .server).pc := by
      by_contra hlt
      have hle : (session cfg es .server).pc ≤ 5 := by omega
      have hmem := (List.take_sublist_take_left hle).subset hdid
      exact absurd hmem (by decide)
    have hclient : 5 ≤ (session cfg es .client).pc := hkept.counted.ready hserver
    have hmem : Cmd.postReceive ∈ (program .client).take 5 := by decide
    exact (List.take_sublist_take_left hclient).subset hmem

/-! ## Two sessions -/

/-- Both sides make the calls of one barrier. -/
def meet (bytes : Nat) : List Event :=
  [.run .client (.write bytes), .run .server (.write bytes), .run .client (.read bytes),
    .run .server (.read bytes)]

/-- A request of a side is carried out. -/
def transfer (side : Side) : List Event :=
  (List.finRange msgSize).map (fun i => .nic side (.copy i))
    ++ [.nic side .deliver, .nic side (.complete true)]

def polls (side : Side) : List Event := [.run side (.poll 0), .run side (.poll 1)]

def calls (side : Side) (n : Nat) : List Event := List.replicate n (.run side (.call 0))

def proceeds (side : Side) (n : Nat) : List Event := List.replicate n (.run side .proceed)

def connected : List Event := meet conDataSize ++ calls .client 4 ++ calls .server 3 ++ meet 1

def sampleSession : List Event :=
  connected ++ calls .server 1 ++ transfer .server ++ polls .server ++ proceeds .server 1
    ++ polls .client ++ proceeds .client 1 ++ meet 1
    ++ calls .client 1 ++ transfer .client ++ polls .client ++ proceeds .client 3
    ++ calls .client 1 ++ transfer .client ++ polls .client ++ meet 1 ++ proceeds .server 1

def sampleSetup : Setup where
  endian _ := .little
  res
    | .client => { buf := 0x1000, rkey := 7, qpNum := 17, lid := 1 }
    | .server => { buf := 0x2000, rkey := 8, qpNum := 18, lid := 2 }
  gid _ := Vector.replicate 16 0
  stack _ := List.replicate 34 0

theorem session_messages_sample :
    Steps (step sampleSetup) Completes (initial sampleSetup) sampleSession
      ∧ (∀ side ∈ [Side.client, .server], (session sampleSetup sampleSession side).exited = some 0)
      ∧ (session sampleSetup sampleSession .client).printed
        = [sendMsgText, rdmaMsgRText, rdmaMsgWText] :=
  have hsteps : Steps (step sampleSetup) Completes (initial sampleSetup) sampleSession := by
    decide +kernel
  have hexited : ∀ side ∈ [Side.client, .server],
      (session sampleSetup sampleSession side).exited = some 0 := by decide +kernel
  ⟨hsteps, hexited,
    ((session_messages sampleSetup sampleSession hsteps).1 .client).2.1
      (hexited .client List.mem_cons_self)⟩

/-- The second exchange fails on both sides after the server has written its byte. -/
def staleSession : List Event :=
  meet conDataSize ++ calls .client 4 ++ calls .server 3
    ++ [.run .server (.write 1), .run .server (.readEnd (-1)), .run .client (.write (-1))]
    ++ calls .server 1 ++ transfer .server ++ polls .client ++ proceeds .client 1
    ++ [.run .client (.write 1), .run .client (.read 1)]
    ++ calls .client 1 ++ transfer .client ++ polls .client ++ proceeds .client 1

-- `connect_qp` goes on after the failure. The client then takes the byte for the one that says that
-- the buffer is filled again, and reads the message it has already been sent.
example : (session sampleSetup staleSession .client).printed = [sendMsgText, sendMsgText] := by
  decide +kernel

end UioLinuxSample.Rdma.Session
