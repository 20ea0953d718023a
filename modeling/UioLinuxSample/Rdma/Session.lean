import UioLinuxSample.Lib.Run
import UioLinuxSample.Rdma.Connect

set_option autoImplicit false

/-! # The session: `main` on both sides

The two processes of the example run `main` at the same time. They share a TCP connection and two
network adapters, which move bytes between the buffers while the programs go on. A run is any order
of single calls of the two programs and single actions of the adapters, with any results the calls
may have; an event that cannot happen in a state changes nothing.

* The program of a side is the list of its calls from the exchange of the connection records to the
  end of `main`. A `sock_sync_data` is one `write` and then as many `read`s as it takes, and a
  `poll_completion` is one `ibv_poll_cq` after the other until the time is up.
* An adapter copies the bytes of a request one by one, in any order and as often as it likes. It
  reports success only after the last byte, and it may report a failure at any time.

After resources have been created, the server's buffer holds `SEND_MSG` and the client's is empty.
-/

namespace UioLinuxSample.Rdma.Session

open Words

/-! ## Messages -/

def sendMsgText : List Char := "***  SEND operation        ***".toList

def rdmaMsgRText : List Char := "***  RDMA Read operation   ***".toList

def rdmaMsgWText : List Char := "***  RDMA Write operation  ***".toList

/-- `MSG_SIZE`: the message and its terminator. -/
def msgSize : Nat := 31

/-- `res->buf`. -/
abbrev Buffer := Fin msgSize → Char

/-- What `strcpy` leaves in a buffer, the terminator included. -/
def bufferOf (text : List Char) : Buffer := fun i => text.getD i '\x00'

/-- What `%s` prints of a buffer. -/
def Buffer.text (buf : Buffer) : List Char := (List.ofFn buf).takeWhile (· ≠ '\x00')

def sendMsg : Buffer := bufferOf sendMsgText

def rdmaMsgR : Buffer := bufferOf rdmaMsgRText

def rdmaMsgW : Buffer := bufferOf rdmaMsgWText

/-- Every message fills the buffer, so none is cut and no `strcpy` writes behind the end. -/
theorem text_messages :
    (∀ text ∈ [sendMsgText, rdmaMsgRText, rdmaMsgWText], text.length + 1 = msgSize)
      ∧ sendMsg.text = sendMsgText ∧ rdmaMsgR.text = rdmaMsgRText
      ∧ rdmaMsgW.text = rdmaMsgWText := by
  decide +kernel

/-! ## The two programs -/

/-- The client is the side whose `config.server_name` is set. -/
inductive Side where
  | client
  | server
  deriving DecidableEq

def Side.other : Side → Side
  | .client => .server
  | .server => .client

/-- `IBV_WR_SEND`, `IBV_WR_RDMA_READ` and `IBV_WR_RDMA_WRITE`. -/
inductive Opcode where
  | send
  | rdmaRead
  | rdmaWrite
  deriving DecidableEq

/-- The calls of `sock_sync_data`: the one for the records, and those that send a `"Q"`, an `"R"`
and a `"W"`. -/
inductive SyncPoint where
  | exchange
  | q
  | r
  | w
  deriving DecidableEq

def SyncPoint.xferSize : SyncPoint → Nat
  | .exchange => conDataSize
  | _ => 1

/-- Whether the program goes on with this result. `connect_qp` tests the first call for a negative
result, and returns 0 whatever the second one has returned. -/
def SyncPoint.passes (rc : Int) : SyncPoint → Bool
  | .exchange => 0 ≤ rc
  | .q => true
  | .r | .w => rc = 0

inductive Cmd where
  | sync (point : SyncPoint)
  | modifyQp (state : QpState)
  | postReceive
  | postSend (opcode : Opcode)
  | pollCompletion
  | printBuf
  | strcpyBuf (msg : Buffer)
  deriving DecidableEq

/-- `connect_qp` and the rest of `main`. -/
def program : Side → List Cmd
  | .client => [
      /- 0 -/ .sync .exchange, .modifyQp .init, .postReceive, .modifyQp .rtr, .modifyQp .rts,
      /- 5 -/ .sync .q, .pollCompletion, .printBuf, .sync .r,
      /- 9 -/ .postSend .rdmaRead, .pollCompletion, .printBuf,
      /- 12 -/ .strcpyBuf rdmaMsgW, .printBuf, .postSend .rdmaWrite, .pollCompletion,
      /- 16 -/ .sync .w]
  | .server => [
      /- 0 -/ .sync .exchange, .modifyQp .init, .modifyQp .rtr, .modifyQp .rts,
      /- 4 -/ .sync .q, .postSend .send, .pollCompletion, .strcpyBuf rdmaMsgR, .sync .r,
      /- 9 -/ .sync .w, .printBuf]

/-! ## States -/

/-- What the two sides are given: the byte order of the host, the resources, the GID and what is on
the stack where `tmp_con_data` will be. -/
structure Setup where
  endian : Side → Endian
  res : Side → Local
  gid : Side → Vector UInt8 16
  stack : Side → List UInt8

/-- A send request, with the bytes the adapters have copied. -/
structure SendWr where
  opcode : Opcode
  remoteAddr : BitVec 64
  rkey : BitVec 32
  copied : List (Fin msgSize)
  /-- The receive request of the other side has taken the message. -/
  delivered : Bool
  deriving DecidableEq

/-- What the adapters read and write at one side. -/
structure Memory where
  buf : Buffer
  /-- The receive requests that are waiting. -/
  recvs : Nat
  wr : Option SendWr
  /-- The completions that were not polled yet, with whether the status is `IBV_WC_SUCCESS`. -/
  cq : List Bool

structure Party where
  /-- The position in the program. -/
  pc : Nat
  /-- The result of `main`. -/
  exited : Option Int
  /-- `total_read_bytes`, after the `write` of a `sock_sync_data`. -/
  reading : Option Nat
  /-- `start_time_msec` of a `poll_completion`. -/
  polling : Option UInt64
  /-- All the bytes that were written to the connection. -/
  sent : List UInt8
  /-- How many bytes of the other side were read. -/
  received : Nat
  remoteData : List UInt8
  remoteProps : Option CmConData
  qpState : Option QpState
  destQpNum : BitVec 32
  printed : List (List Char)
  mem : Memory

abbrev State := Side → Party

/-- The state after `resources_create`. -/
def initial (cfg : Setup) : State := fun side =>
  { pc := 0
    exited := none
    reading := none
    polling := none
    sent := []
    received := 0
    remoteData := cfg.stack side
    remoteProps := none
    qpState := none
    destQpNum := 0
    printed := []
    mem :=
      { buf := match side with
          | .client => fun _ => '\x00'
          | .server => sendMsg
        recvs := 0
        wr := none
        cq := [] } }

/-! ## Steps of a program -/

/-- What happens next in a program, with what the call returns. -/
inductive PartyEvent where
  | write (written : Int)
  | read (size : Nat)
  /-- A `read` that returns 0 or an error. -/
  | readEnd (rc : Int)
  /-- `ibv_modify_qp`, `ibv_post_recv` or `ibv_post_send`. -/
  | call (rc : Int)
  /-- A look at the clock and, but for the first one, at the completion queue before it. -/
  | poll (now : UInt64)
  | pollError
  /-- A print or a copy. -/
  | proceed

/-- The call that is made next. -/
def Party.current (side : Side) (p : Party) : Option Cmd :=
  if p.exited.isSome then none else (program side)[p.pc]?

/-- Go on. At the end `rc` is 0. -/
def Party.advance (side : Side) (p : Party) : Party :=
  { p with
    pc := p.pc + 1
    exited := if p.pc + 1 = (program side).length then some 0 else none }

/-- `goto main_exit`, with `rc` still 1. -/
def Party.fail (p : Party) : Party := { p with exited := some 1 }

/-- The bytes that a side sends. -/
def syncData (cfg : Setup) (side : Side) : SyncPoint → List UInt8
  | .exchange =>
      let res := cfg.res side
      (localConData (cfg.endian side) res.buf res.rkey res.qpNum res.lid (cfg.gid side)).toBytes
        (cfg.endian side)
  | .q => dummyChar
  | .r => [0x52]
  | .w => [0x57]

/-- `sock_sync_data` has returned `rc`. -/
def Party.synced (cfg : Setup) (side : Side) (point : SyncPoint) (rc : Int) (p : Party) : Party :=
  if point.passes rc then
    let p := { p with reading := none }
    match point with
    | .exchange =>
        let e := cfg.endian side
        Party.advance side
          { p with remoteProps := some (remoteConData e (CmConData.ofBytes e p.remoteData)) }
    | _ => p.advance side
  else p.fail

/-- The `write` of `sock_sync_data`. -/
def Party.write (cfg : Setup) (side : Side) (point : SyncPoint) (written : Int) (p : Party) :
    Party :=
  if p.reading = none ∧ written ≤ point.xferSize then
    let p := { p with sent := p.sent ++ (syncData cfg side point).take written.toNat }
    -- a count of 0 is not seen as a failure
    if written < point.xferSize ∧ written ≠ 0 then p.synced cfg side point written
    else { p with reading := some 0 }
  else p

/-- A `read` of `sock_sync_data` that gets `size` bytes. They go to the start of the buffer. -/
def Party.read (cfg : Setup) (side : Side) (point : SyncPoint) (stream : List UInt8) (size : Nat)
    (p : Party) : Party :=
  match p.reading with
  | none => p
  | some total =>
      let incoming := stream.drop p.received
      if 1 ≤ size ∧ size ≤ point.xferSize ∧ size ≤ incoming.length then
        let p :=
          { p with
            reading := some (total + size)
            received := p.received + size
            remoteData := incoming.take size ++ p.remoteData.drop size }
        if total + size < point.xferSize then p else p.synced cfg side point 0
      else p

/-- A `read` that gets nothing. After a 0 the loop goes on. -/
def Party.readEnd (cfg : Setup) (side : Side) (point : SyncPoint) (rc : Int) (p : Party) : Party :=
  if p.reading.isSome ∧ rc < 0 then p.synced cfg side point rc else p

/-- The three functions `modify_qp_to_…`, where RTR sets the number of the other queue pair. -/
def Party.modifyQp (side : Side) (state : QpState) (rc : Int) (p : Party) : Party :=
  if rc = 0 then
    Party.advance side
      { p with
        qpState := some state
        destQpNum := match state, p.remoteProps with
          | .rtr, some props => props.qpNum
          | _, _ => p.destQpNum }
  else p.fail

/-- `post_receive`. -/
def Party.postReceive (side : Side) (rc : Int) (p : Party) : Party :=
  if rc = 0 then Party.advance side { p with mem := { p.mem with recvs := p.mem.recvs + 1 } }
  else p.fail

/-- The request that `post_send` prepares. -/
def Party.sendWr (p : Party) (opcode : Opcode) : SendWr where
  opcode := opcode
  remoteAddr := if opcode = .send then 0 else (p.remoteProps.map CmConData.addr).getD 0
  rkey := if opcode = .send then 0 else (p.remoteProps.map CmConData.rkey).getD 0
  copied := []
  delivered := false

/-- `post_send`. -/
def Party.postSend (side : Side) (opcode : Opcode) (rc : Int) (p : Party) : Party :=
  if rc = 0 then Party.advance side { p with mem := { p.mem with wr := some (p.sendWr opcode) } }
  else p.fail

/-- `MAX_POLL_CQ_TIMEOUT`. -/
def maxPollCqTimeout : UInt64 := 2000

/-- The first look at the clock, or a turn of the loop of `poll_completion`. -/
def Party.poll (side : Side) (now : UInt64) (p : Party) : Party :=
  match p.polling with
  | none => { p with polling := some now }
  | some start =>
      match p.mem.cq with
      | [] => if now - start < maxPollCqTimeout then p else p.fail
      | success :: rest =>
          let p := { p with polling := none, mem := { p.mem with cq := rest } }
          if success then p.advance side else p.fail

/-- One call of a program, or one part of a call. The other side has written `stream`. -/
def partyStep (cfg : Setup) (side : Side) (stream : List UInt8) (p : Party) (e : PartyEvent) :
    Party :=
  match p.current side, e with
  | some (.sync point), .write written => p.write cfg side point written
  | some (.sync point), .read size => p.read cfg side point stream size
  | some (.sync point), .readEnd rc => p.readEnd cfg side point rc
  | some (.modifyQp state), .call rc => p.modifyQp side state rc
  | some .postReceive, .call rc => p.postReceive side rc
  | some (.postSend opcode), .call rc => p.postSend side opcode rc
  | some .pollCompletion, .poll now => p.poll side now
  | some .pollCompletion, .pollError => if p.polling.isSome then p.fail else p
  | some .printBuf, .proceed =>
      Party.advance side { p with printed := p.printed ++ [p.mem.buf.text] }
  | some (.strcpyBuf msg), .proceed =>
      Party.advance side { p with mem := { p.mem with buf := msg } }
  | _, _ => p

/-! ## Steps of the adapters -/

/-- What the adapters do for the send request of a side. -/
inductive NicEvent where
  /-- One byte is copied. -/
  | copy (i : Fin msgSize)
  /-- The receive request of the other side is completed. -/
  | deliver
  | complete (success : Bool)
  /-- A receive request of this side fails. -/
  | flush

/-- The queue pairs of the two sides are connected to each other, and both processes run. -/
def Linked (cfg : Setup) (s : State) (side : Side) : Prop :=
  (s side).exited = none ∧ (s side.other).exited = none
    ∧ (s side).qpState = some .rts ∧ (s side.other).qpState ∈ [some .rtr, some .rts]
    ∧ (s side).destQpNum = (cfg.res side.other).qpNum
    ∧ (s side.other).destQpNum = (cfg.res side).qpNum

instance (cfg : Setup) (s : State) (side : Side) : Decidable (Linked cfg s side) := by
  unfold Linked
  infer_instance

/-- The request may touch the buffer of the other side: it has the key and the address. -/
def Granted (cfg : Setup) (side : Side) (wr : SendWr) : Prop :=
  wr.opcode = .send
    ∨ wr.rkey = (cfg.res side.other).rkey ∧ wr.remoteAddr = (cfg.res side.other).buf

instance (cfg : Setup) (side : Side) (wr : SendWr) : Decidable (Granted cfg side wr) := by
  unfold Granted
  infer_instance

/-- Byte `i` of `src`, copied. -/
def copyByte (i : Fin msgSize) (src dst : Buffer) : Buffer := Function.update dst i (src i)

/-- The memories of the requesting and of the other side after a byte was copied. A message needs a
receive request, and is taken only once. -/
def copyStep (i : Fin msgSize) (wr : SendWr) (own other : Memory) : Memory × Memory :=
  let wr' := some { wr with copied := i :: wr.copied }
  match wr.opcode with
  | .send =>
      if wr.delivered = false ∧ 0 < other.recvs then
        ({ own with wr := wr' }, { other with buf := copyByte i own.buf other.buf })
      else (own, other)
  | .rdmaRead => ({ own with wr := wr', buf := copyByte i other.buf own.buf }, other)
  | .rdmaWrite => ({ own with wr := wr' }, { other with buf := copyByte i own.buf other.buf })

/-- The last byte has been copied. -/
def SendWr.Whole (wr : SendWr) : Prop := ∀ i, i ∈ wr.copied

instance (wr : SendWr) : Decidable wr.Whole := inferInstanceAs (Decidable (∀ i, i ∈ wr.copied))

/-- The message has arrived. -/
def deliverStep (wr : SendWr) (own other : Memory) : Memory × Memory :=
  if wr.opcode = .send ∧ wr.delivered = false ∧ wr.Whole ∧ 0 < other.recvs then
    ({ own with wr := some { wr with delivered := true } },
      { other with recvs := other.recvs - 1, cq := other.cq ++ [true] })
  else (own, other)

/-- A request may be completed at any time without success, and with success when it is done. -/
def SendWr.MayComplete (wr : SendWr) (success : Bool) : Prop :=
  success = true → if wr.opcode = .send then wr.delivered = true else wr.Whole

instance (wr : SendWr) (success : Bool) : Decidable (wr.MayComplete success) := by
  unfold SendWr.MayComplete
  infer_instance

/-- A send request is taken from the queue. -/
def completeStep (success : Bool) (wr : SendWr) (own : Memory) : Memory :=
  if wr.MayComplete success then { own with wr := none, cq := own.cq ++ [success] } else own

/-- One action for the side that has made the request. -/
def nicStep (cfg : Setup) (s : State) (side : Side) (e : NicEvent) : Memory × Memory :=
  let own := (s side).mem
  let other := (s side.other).mem
  match own.wr, e with
  | some wr, .copy i =>
      if Linked cfg s side ∧ Granted cfg side wr then copyStep i wr own other else (own, other)
  | some wr, .deliver => if Linked cfg s side then deliverStep wr own other else (own, other)
  | some wr, .complete success => (completeStep success wr own, other)
  | _, .flush =>
      if 0 < own.recvs then
        ({ own with recvs := own.recvs - 1, cq := own.cq ++ [false] }, other)
      else (own, other)
  | _, _ => (own, other)

/-! ## The session -/

inductive Event where
  | run (side : Side) (e : PartyEvent)
  | nic (side : Side) (e : NicEvent)

def step (cfg : Setup) (s : State) : Event → State
  | .run side e => Function.update s side (partyStep cfg side (s side.other).sent (s side) e)
  | .nic side e =>
      let mems := nicStep cfg s side e
      fun side' => if side' = side then { s side' with mem := mems.1 }
        else { s side' with mem := mems.2 }

/-- The state after a run. -/
def session (cfg : Setup) (es : List Event) : State := Run.run (step cfg) (initial cfg) es

/-- A side has made this call, with success. -/
def Party.Did (side : Side) (p : Party) (cmd : Cmd) : Prop := cmd ∈ (program side).take p.pc

/-- No exchange in `connect_qp` is taken for complete that is not: the records are not cut by a
short `write`, and the wait for the other side does not end in an error. -/
def Completes (s : State) : Event → Prop
  | .run side (.write written) =>
      ((s side).current side = some (.sync .exchange) → written < conDataSize → written ≤ 0)
        ∧ ((s side).current side = some (.sync .q) → 0 ≤ written)
  | .run side (.readEnd rc) => (s side).current side = some (.sync .q) → 0 ≤ rc
  | _ => True

instance (s : State) (e : Event) : Decidable (Completes s e) := by
  unfold Completes
  split <;> infer_instance

end UioLinuxSample.Rdma.Session
