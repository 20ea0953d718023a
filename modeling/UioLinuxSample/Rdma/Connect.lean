import UioLinuxSample.Rdma.ConData
import UioLinuxSample.Rdma.Socket

set_option autoImplicit false

/-! # `connect_qp`: from two queue pairs to a connection

`connect_qp` exchanges the connection records, moves the queue pair to INIT, RTR and RTS, and waits
for the other side. The results of the calls are arguments, and the state records the calls that
were made, the states of the queue pair and the record that was saved.

A step fails with a result that is not 0, but not every test says so. The first exchange is tested
for a negative result, so one that was cut short passes; and after a failed barrier the function
returns `rc`, which is the 0 of the last step before. These are the only two ways to a false report
(`connect_reports_iff`).
-/

namespace UioLinuxSample.Rdma

open Words

/-! ## The attributes of a queue pair -/

inductive QpState where
  | init
  | rtr
  | rts
  deriving DecidableEq

inductive AccessFlag where
  | remoteRead
  | remoteWrite
  deriving DecidableEq

/-- `attr.ah_attr.grh`. -/
structure Grh where
  dgid : Vector UInt8 16 := Vector.replicate 16 0
  flowLabel : Nat := 0
  hopLimit : Nat := 0
  sgidIndex : Int := 0
  trafficClass : Nat := 0
  deriving DecidableEq

/-- `attr.ah_attr`. -/
structure AhAttr where
  isGlobal : Bool := false
  dlid : BitVec 16 := 0
  sl : Nat := 0
  srcPathBits : Nat := 0
  portNum : Int := 0
  grh : Grh := {}
  deriving DecidableEq

/-- `struct ibv_qp_attr`, with zeros for what is not set, as after `memset`. -/
structure QpAttr where
  qpState : QpState
  portNum : Int := 0
  pkeyIndex : Nat := 0
  qpAccessFlags : List AccessFlag := []
  /-- In bytes. -/
  pathMtu : Nat := 0
  destQpNum : BitVec 32 := 0
  rqPsn : Nat := 0
  maxDestRdAtomic : Nat := 0
  minRnrTimer : Nat := 0
  ahAttr : AhAttr := {}
  timeout : Nat := 0
  retryCnt : Nat := 0
  rnrRetry : Nat := 0
  sqPsn : Nat := 0
  maxRdAtomic : Nat := 0
  deriving DecidableEq

/-- `IBV_QP_…`. -/
inductive AttrFlag where
  | state
  | pkeyIndex
  | port
  | accessFlags
  | av
  | pathMtu
  | destQpn
  | rqPsn
  | maxDestRdAtomic
  | minRnrTimer
  | timeout
  | retryCnt
  | rnrRetry
  | sqPsn
  | maxQpRdAtomic
  deriving DecidableEq

/-- The fields of `config` that `connect_qp` reads. The client has the name of the server. -/
structure Config where
  serverName : Option String
  ibPort : Int
  gidIdx : Int

/-- The attributes in `modify_qp_to_init`. -/
def initAttr (config : Config) : QpAttr where
  qpState := .init
  portNum := config.ibPort
  pkeyIndex := 0
  qpAccessFlags := [.remoteRead, .remoteWrite]

def initFlags : List AttrFlag := [.state, .pkeyIndex, .port, .accessFlags]

/-- The attributes in `modify_qp_to_rtr`. -/
def rtrAttr (config : Config) (remoteQpn : BitVec 32) (dlid : BitVec 16)
    (dgid : Vector UInt8 16) : QpAttr where
  qpState := .rtr
  pathMtu := 256
  destQpNum := remoteQpn
  rqPsn := 0
  maxDestRdAtomic := 1
  minRnrTimer := 0x12
  ahAttr :=
    if config.gidIdx ≥ 0 then
      { isGlobal := true
        dlid := dlid
        portNum := 1
        grh := { dgid := dgid, hopLimit := 1, sgidIndex := config.gidIdx } }
    else { dlid := dlid, portNum := config.ibPort }

def rtrFlags : List AttrFlag :=
  [.state, .av, .pathMtu, .destQpn, .rqPsn, .maxDestRdAtomic, .minRnrTimer]

/-- The attributes in `modify_qp_to_rts`. -/
def rtsAttr : QpAttr where
  qpState := .rts
  timeout := 0x12
  retryCnt := 6
  rnrRetry := 0
  sqPsn := 0
  maxRdAtomic := 1

def rtsFlags : List AttrFlag := [.state, .timeout, .retryCnt, .rnrRetry, .sqPsn, .maxQpRdAtomic]

/-! ## The function -/

/-- The calls that can fail. -/
inductive Call where
  | queryGid (port index : Int)
  | sockSyncData (localData : List UInt8)
  | postReceive
  | modifyQp (attr : QpAttr) (flags : List AttrFlag)
  deriving DecidableEq

/-- The fields of `struct resources` that `connect_qp` reads. -/
structure Local where
  buf : BitVec 64
  rkey : BitVec 32
  qpNum : BitVec 32
  lid : BitVec 16

/-- The results of the calls, as far as they are made, and what two of them store. -/
structure Answers where
  queryGid : Int
  myGid : Vector UInt8 16
  exchange : Int
  tmpConData : List UInt8
  modifyInit : Int
  postReceive : Int
  modifyRtr : Int
  modifyRts : Int
  barrier : Int

structure Connection where
  calls : List (Call × Int)
  /-- The states that the queue pair has been moved to, in order. -/
  qpStates : List QpState
  remoteProps : Option CmConData

/-- A call. `ibv_modify_qp` moves the queue pair if it returns 0. -/
def Connection.perform (c : Connection) (call : Call) (rc : Int) : Connection where
  calls := c.calls ++ [(call, rc)]
  qpStates := match call with
    | .modifyQp attr _ => if rc = 0 then c.qpStates ++ [attr.qpState] else c.qpStates
    | _ => c.qpStates
  remoteProps := c.remoteProps

/-- A call, and the `return` if it has `failed`. -/
def Connection.step (c : Connection) (call : Call) (rc : Int) (failed : Bool) (ret : Int)
    (rest : Connection → Int × Connection) : Int × Connection :=
  if failed then (ret, c.perform call rc) else rest (c.perform call rc)

/-- The bytes of `"Q"`, as many as are sent. -/
def dummyChar : List UInt8 := [0x51]

/-- The end of `connect_qp`: to RTR, to RTS and the barrier. -/
def moveAndSync (config : Config) (a : Answers) (remoteData : CmConData) (c : Connection) :
    Int × Connection :=
  c.step (.modifyQp (rtrAttr config remoteData.qpNum remoteData.lid remoteData.gid) rtrFlags)
    a.modifyRtr (a.modifyRtr ≠ 0) a.modifyRtr fun c =>
  c.step (.modifyQp rtsAttr rtsFlags) a.modifyRts (a.modifyRts ≠ 0) a.modifyRts fun c =>
  -- `return rc`, and `rc` still is the result of the step before
  c.step (.sockSyncData dummyChar) a.barrier (a.barrier ≠ 0) a.modifyRts fun c =>
  (0, c)

/-- The middle: the exchange of the records, to INIT and the receive request of the client. -/
def exchangeAndMove (e : Endian) (config : Config) (res : Local) (a : Answers)
    (myGid : Vector UInt8 16) (c : Connection) : Int × Connection :=
  let localData := localConData e res.buf res.rkey res.qpNum res.lid myGid
  -- a positive result is not seen as a failure
  c.step (.sockSyncData (localData.toBytes e)) a.exchange (a.exchange < 0) 1 fun c =>
  let remoteData := remoteConData e (CmConData.ofBytes e a.tmpConData)
  let c := { c with remoteProps := some remoteData }
  c.step (.modifyQp (initAttr config) initFlags) a.modifyInit (a.modifyInit ≠ 0) a.modifyInit
    fun c =>
  if config.serverName.isSome then
    c.step .postReceive a.postReceive (a.postReceive ≠ 0) a.postReceive
      (moveAndSync config a remoteData)
  else moveAndSync config a remoteData c

/-- `connect_qp`. -/
def connectQp (e : Endian) (config : Config) (res : Local) (a : Answers) : Int × Connection :=
  if config.gidIdx ≥ 0 then
    Connection.step ⟨[], [], none⟩ (.queryGid config.ibPort config.gidIdx) a.queryGid
      (a.queryGid ≠ 0) a.queryGid (exchangeAndMove e config res a a.myGid)
  else exchangeAndMove e config res a (Vector.replicate 16 0) ⟨[], [], none⟩

/-! ## What is reported -/

/-- The queue pair went through its states in order, the record of the peer was received as a whole
and saved, and the barrier was completed. -/
structure Connected (e : Endian) (a : Answers) (c : Connection) : Prop where
  states : c.qpStates = [.init, .rtr, .rts]
  received : a.exchange = 0
  saved : c.remoteProps = some (remoteConData e (CmConData.ofBytes e a.tmpConData))
  barrier : (.sockSyncData dummyChar, 0) ∈ c.calls

/-- The function returns 0 exactly if all the calls it made have returned 0, and then there is a
connection. -/
structure Reports (e : Endian) (a : Answers) (out : Int × Connection) : Prop where
  zero_iff : out.1 = 0 ↔ ∀ call ∈ out.2.calls, call.2 = 0
  connected : out.1 = 0 → Connected e a out.2

/-- No test has failed. -/
structure Passes (config : Config) (a : Answers) : Prop where
  queryGid : config.gidIdx ≥ 0 → a.queryGid = 0
  exchange : 0 ≤ a.exchange
  modifyInit : a.modifyInit = 0
  postReceive : config.serverName.isSome = true → a.postReceive = 0
  modifyRtr : a.modifyRtr = 0
  modifyRts : a.modifyRts = 0

/-- All the calls made so far have returned 0. -/
def Connection.AllZero (c : Connection) : Prop := ∀ call ∈ c.calls, call.2 = 0

section Step

variable {c : Connection} {call : Call} {rc ret : Int} {failed : Bool}
  {rest : Connection → Int × Connection} {e : Endian} {config : Config} {a : Answers}

theorem allZero_perform : (c.perform call rc).AllZero ↔ c.AllZero ∧ rc = 0 := by
  unfold Connection.AllZero Connection.perform
  simp [or_imp, forall_and]

/-- A step whose failure is seen is reported; after any other one the rest has to be right. -/
theorem reports_step_iff (hfailed : failed = true → rc ≠ 0 ∧ ret ≠ 0) :
    Reports e a (c.step call rc failed ret rest)
      ↔ (failed = false → Reports e a (rest (c.perform call rc))) := by
  cases failed with
  | false => simp [Connection.step]
  | true =>
      obtain ⟨hrc, hret⟩ := hfailed rfl
      refine iff_of_true ⟨iff_of_false hret fun hall => ?_, fun hzero => absurd hzero hret⟩ nofun
      exact hrc (allZero_perform.mp hall).2

/-- The same for a step that is tested for 0 and returns its result. -/
theorem reports_step_ne_iff :
    Reports e a (c.step call rc (rc ≠ 0) rc rest)
      ↔ (rc = 0 → Reports e a (rest (c.perform call rc))) := by
  rw [reports_step_iff fun h => ⟨of_decide_eq_true h, of_decide_eq_true h⟩]
  simp

/-- A step that returns 0 either way. -/
theorem step_same : c.step call rc failed 0 (fun c => (0, c)) = (0, c.perform call rc) := by
  cases failed <;> rfl

theorem moveAndSync_reports_iff (remoteData : CmConData) (hstates : c.qpStates = [.init])
    (hsaved : c.remoteProps = some (remoteConData e (CmConData.ofBytes e a.tmpConData)))
    (hcalls : c.AllZero ↔ a.exchange = 0) :
    Reports e a (moveAndSync config a remoteData c)
      ↔ (a.modifyRtr = 0 → a.modifyRts = 0 → a.exchange = 0 ∧ a.barrier = 0) := by
  unfold moveAndSync
  rw [reports_step_ne_iff]
  refine imp_congr_right fun hrtr => ?_
  rw [reports_step_ne_iff]
  refine imp_congr_right fun hrts => ?_
  -- the barrier makes no difference to the result, only to the calls
  rw [hrtr, hrts, step_same]
  have hzero : (((c.perform (.modifyQp (rtrAttr config remoteData.qpNum remoteData.lid
      remoteData.gid) rtrFlags) 0).perform (.modifyQp rtsAttr rtsFlags) 0).perform
        (.sockSyncData dummyChar) a.barrier).AllZero ↔ a.exchange = 0 ∧ a.barrier = 0 := by
    rw [allZero_perform, allZero_perform, allZero_perform, hcalls]
    simp
  constructor
  · intro h
    exact hzero.mp (h.zero_iff.mp rfl)
  · intro h
    refine ⟨iff_of_true rfl (hzero.mpr h), fun _ => ⟨?_, h.1, hsaved, ?_⟩⟩
    · show (c.qpStates ++ [QpState.rtr]) ++ [QpState.rts] = _
      rw [hstates]
      rfl
    · exact List.mem_append_right _ (by rw [h.2]; exact List.mem_singleton_self _)

theorem exchangeAndMove_reports_iff (res : Local) (myGid : Vector UInt8 16)
    (hstates : c.qpStates = []) (hcalls : c.AllZero) :
    Reports e a (exchangeAndMove e config res a myGid c)
      ↔ (0 ≤ a.exchange → a.modifyInit = 0 →
          (config.serverName.isSome = true → a.postReceive = 0) →
          a.modifyRtr = 0 → a.modifyRts = 0 → a.exchange = 0 ∧ a.barrier = 0) := by
  unfold exchangeAndMove
  dsimp only
  rw [reports_step_iff fun h => ⟨(of_decide_eq_true h).ne, one_ne_zero⟩, decide_eq_false_iff_not,
    not_lt]
  refine imp_congr_right fun hexchange => ?_
  rw [reports_step_ne_iff]
  refine imp_congr_right fun hinit => ?_
  rw [hinit]
  -- the state after the step to INIT
  generalize hc₁ : Connection.perform _ (.modifyQp (initAttr config) initFlags) 0 = c₁
  have hstates₁ : c₁.qpStates = [.init] := by
    rw [← hc₁]
    show c.qpStates ++ [QpState.init] = _
    rw [hstates]
    rfl
  have hsaved₁ : c₁.remoteProps = some (remoteConData e (CmConData.ofBytes e a.tmpConData)) := by
    rw [← hc₁]
    rfl
  have hcalls₁ : c₁.AllZero ↔ a.exchange = 0 := by
    rw [← hc₁, allZero_perform]
    show (c.perform _ a.exchange).AllZero ∧ _ ↔ _
    rw [allZero_perform]
    simp [hcalls]
  cases config.serverName.isSome with
  | false =>
      rw [if_neg Bool.false_ne_true, moveAndSync_reports_iff _ hstates₁ hsaved₁ hcalls₁]
      simp
  | true =>
      rw [if_pos rfl, reports_step_ne_iff, forall_prop_of_true rfl]
      refine imp_congr_right fun hpost => ?_
      have hcalls₂ : (c₁.perform .postReceive a.postReceive).AllZero ↔ a.exchange = 0 := by
        rw [allZero_perform, hcalls₁]
        simp [hpost]
      exact moveAndSync_reports_iff _ hstates₁ hsaved₁ hcalls₂

end Step

/-- **When the report is right.** Unless a test has failed, both exchanges must have returned 0. -/
theorem connect_reports_iff (e : Endian) (config : Config) (res : Local) (a : Answers) :
    Reports e a (connectQp e config res a)
      ↔ (Passes config a → a.exchange = 0 ∧ a.barrier = 0) := by
  have hpasses : (Passes config a → a.exchange = 0 ∧ a.barrier = 0)
      ↔ ((config.gidIdx ≥ 0 → a.queryGid = 0) → 0 ≤ a.exchange → a.modifyInit = 0 →
          (config.serverName.isSome = true → a.postReceive = 0) →
          a.modifyRtr = 0 → a.modifyRts = 0 → a.exchange = 0 ∧ a.barrier = 0) :=
    ⟨fun h h₁ h₂ h₃ h₄ h₅ h₆ => h ⟨h₁, h₂, h₃, h₄, h₅, h₆⟩,
      fun h ⟨h₁, h₂, h₃, h₄, h₅, h₆⟩ => h h₁ h₂ h₃ h₄ h₅ h₆⟩
  rw [hpasses]
  unfold connectQp
  by_cases hgid : config.gidIdx ≥ 0
  · rw [if_pos hgid, reports_step_ne_iff, forall_prop_of_true hgid]
    refine imp_congr_right fun hquery => ?_
    apply exchangeAndMove_reports_iff
    · rfl
    · exact allZero_perform.mpr ⟨fun _ h => (nomatch h), hquery⟩
  · have hnone : Connection.AllZero ⟨[], [], none⟩ := fun _ h => nomatch h
    rw [if_neg hgid, exchangeAndMove_reports_iff res _ rfl hnone]
    exact ⟨fun h _ => h, fun h => h fun hge => absurd hge hgid⟩

/-- All steps of a client without a GID succeed but the two exchanges: of the record only ten bytes
are sent, which `sock_sync_data` reports by a 10, and the barrier fails. The function returns 0. -/
theorem connect_reports_false :
    (∃ r, SyncReturns 34 (List.replicate 34 0) [] 10 ⟨[], .silence, fun _ => 0, []⟩ r ∧ r.rc = 10)
      ∧ (connectQp .little ⟨some "server", 1, -1⟩ ⟨0, 0, 0, 0⟩
          ⟨0, Vector.replicate 16 0, 10, [], 0, 0, 0, 0, -1⟩).1 = 0
      ∧ (.sockSyncData dummyChar, -1) ∈ (connectQp .little ⟨some "server", 1, -1⟩ ⟨0, 0, 0, 0⟩
          ⟨0, Vector.replicate 16 0, 10, [], 0, 0, 0, 0, -1⟩).2.calls := by
  refine ⟨⟨_, ⟨1, rfl⟩, rfl⟩, rfl, ?_⟩
  exact List.mem_append_right _ (List.mem_singleton_self _)

end UioLinuxSample.Rdma
