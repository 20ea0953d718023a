import UioLinuxSample.Rdma.Session

set_option autoImplicit false

/-! # The barriers of a session

A side has read as many bytes as its passed calls of `sock_sync_data` ask for, and the other side has
written no more than its own calls offer. So the four calls are four barriers, even where a `read`
has taken bytes of the next call (`Counted.meets`). -/

namespace UioLinuxSample.Rdma.Session

open Run

/-! ## Positions -/

theorem Side.other_ne (side : Side) : side.other ≠ side := by
  cases side <;> decide

theorem Side.eq_other_of_ne {side side' : Side} (h : side' ≠ side) : side = side'.other := by
  cases side <;> cases side' <;> first | rfl | exact absurd rfl h

def Cmd.xferSize : Cmd → Nat
  | .sync point => point.xferSize
  | _ => 0

/-- How many bytes the calls of `sock_sync_data` before a position exchange. -/
def syncBytes (side : Side) (pc : Nat) : Nat :=
  (((program side).take pc).map Cmd.xferSize).sum

section Positions

variable {side : Side} {pc pc' : Nat} {cmd : Cmd}

theorem syncBytes_succ (h : (program side)[pc]? = some cmd) :
    syncBytes side (pc + 1) = syncBytes side pc + cmd.xferSize := by
  unfold syncBytes
  rw [List.take_add_one, h]
  simp

theorem syncBytes_mono (h : pc ≤ pc') : syncBytes side pc ≤ syncBytes side pc' := by
  apply List.Sublist.sum_le_sum ((List.take_sublist_take_left h).map _)
  simp

/-- The position from which on so many bytes have been asked for. -/
theorem le_syncBytes_iff {bytes first : Nat} (hlt : syncBytes side first < bytes)
    (hle : bytes ≤ syncBytes side (first + 1)) : bytes ≤ syncBytes side pc ↔ first < pc := by
  constructor
  · intro h
    by_contra hnot
    exact absurd (h.trans (syncBytes_mono (not_lt.mp hnot))) (not_le.mpr hlt)
  · intro h
    exact hle.trans (syncBytes_mono h)

end Positions

/-! ## What a call can do -/

/-- The part of the state of a side that the messages depend on. -/
structure View where
  pc : Nat
  reading : Option Nat
  sent : List UInt8
  received : Nat
  printed : List (List Char)
  mem : Memory

def Party.view (p : Party) : View := ⟨p.pc, p.reading, p.sent, p.received, p.printed, p.mem⟩

/-- What a call that succeeds does to the memory. -/
inductive Effect (mem : Memory) : Cmd → Memory → Prop where
  | modifyQp (state : QpState) : Effect mem (.modifyQp state) mem
  | postReceive : Effect mem .postReceive { mem with recvs := mem.recvs + 1 }
  | postSend {opcode : Opcode} {wr : SendWr} (hopcode : wr.opcode = opcode)
      (hcopied : wr.copied = []) (hdelivered : wr.delivered = false) :
      Effect mem (.postSend opcode) { mem with wr := some wr }
  | polled {rest : List Bool} (hcq : mem.cq = true :: rest) :
      Effect mem .pollCompletion { mem with cq := rest }
  | printBuf : Effect mem .printBuf mem
  | strcpyBuf (msg : Buffer) : Effect mem (.strcpyBuf msg) { mem with buf := msg }

def Cmd.prints (buf : Buffer) : Cmd → List (List Char)
  | .printBuf => [buf.text]
  | _ => []

/-- One step of a program, while the other side has written `stream`. -/
inductive Move (side : Side) (stream : List UInt8) (v : View) : View → Prop where
  | stay : Move side stream v v
  | write {point : SyncPoint} {data : List UInt8}
      (hat : (program side)[v.pc]? = some (.sync point)) (hreading : v.reading = none)
      (hdata : data.length ≤ point.xferSize) :
      Move side stream v { v with sent := v.sent ++ data, reading := some 0 }
  | read {point : SyncPoint} {total size : Nat}
      (hat : (program side)[v.pc]? = some (.sync point)) (hreading : v.reading = some total)
      (hsize : size ≤ stream.length - v.received) :
      Move side stream v
        { v with reading := some (total + size), received := v.received + size }
  | synced {point : SyncPoint} {total size : Nat}
      (hat : (program side)[v.pc]? = some (.sync point)) (hreading : v.reading = some total)
      (hsize : size ≤ stream.length - v.received) (hdone : point.xferSize ≤ total + size) :
      Move side stream v
        { v with pc := v.pc + 1, reading := none, received := v.received + size }
  /-- Any other call. -/
  | call {cmd : Cmd} {mem : Memory} (hat : (program side)[v.pc]? = some cmd)
      (heffect : Effect v.mem cmd mem) :
      Move side stream v
        { v with pc := v.pc + 1, mem := mem, printed := v.printed ++ cmd.prints v.mem.buf }
  /-- The completion of a failed request. -/
  | dropped {rest : List Bool} (hcq : v.mem.cq = false :: rest) :
      Move side stream v { v with mem := { v.mem with cq := rest } }

section Move

variable {cfg : Setup} {side : Side} {stream : List UInt8} {p : Party} {point : SyncPoint}
  {s : State}

@[simp] theorem view_fail : p.fail.view = p.view := rfl

@[simp] theorem view_advance :
    (p.advance side).view = { p.view with pc := p.pc + 1 } := rfl

/-- A call that prints nothing. -/
theorem Move.quiet {v : View} {cmd : Cmd} {mem : Memory} (hat : (program side)[v.pc]? = some cmd)
    (heffect : Effect v.mem cmd mem) (hprints : cmd.prints v.mem.buf = []) :
    Move side stream v { v with pc := v.pc + 1, mem := mem } := by
  have hcall : Move side stream v _ := .call hat heffect
  rwa [hprints, List.append_nil] at hcall

theorem view_synced {rc : Int} : (p.synced cfg side point rc).view
    = if point.passes rc then { p.view with pc := p.pc + 1, reading := none } else p.view := by
  unfold Party.synced
  split
  · cases point <;> rfl
  · rfl

theorem at_of_current {cmd : Cmd} (h : p.current side = some cmd) :
    (program side)[p.pc]? = some cmd := by
  unfold Party.current at h
  split at h
  · cases h
  · exact h

/-- A result of `sock_sync_data` that the program does not take for a success. -/
theorem not_passes {rc : Int} (hrc : rc ≠ 0) (hexchange : point = .exchange → rc ≤ 0)
    (hq : point ≠ .q) : point.passes rc = false := by
  cases point with
  | exchange =>
      have hle := hexchange rfl
      exact decide_eq_false (by omega)
  | q => exact absurd rfl hq
  | r => exact decide_eq_false hrc
  | w => exact decide_eq_false hrc

theorem move_write {written : Int} (hcurrent : (s side).current side = some (.sync point))
    (hok : Completes s (.run side (.write written))) :
    Move side stream (s side).view ((s side).write cfg side point written).view := by
  have hat := at_of_current hcurrent
  unfold Party.write
  split
  next hcan =>
    obtain ⟨hreading, hle⟩ := hcan
    dsimp only
    split
    next hshort =>
      -- the program ends, and nothing has been sent
      have hq : point ≠ .q := by
        rintro rfl
        have hnonneg := hok.2 hcurrent
        have hone : written < 1 := hshort.1
        omega
      have hexchange : point = .exchange → written ≤ 0 := by
        rintro rfl
        exact hok.1 hcurrent hshort.1
      have hnone : written.toNat = 0 := by
        by_cases hpoint : point = .exchange
        · have hneg := hexchange hpoint
          omega
        · have hsize : point.xferSize = 1 := by
            cases point <;> first | rfl | exact absurd rfl hpoint
          have hlt := hshort.1
          rw [hsize] at hlt
          omega
      rw [view_synced, not_passes hshort.2 hexchange hq, hnone]
      simp only [Bool.false_eq_true, if_false, List.take_zero, List.append_nil]
      exact .stay
    next hshort =>
      refine .write hat hreading ?_
      have hlen := List.length_take_le written.toNat (syncData cfg side point)
      omega
  next => exact .stay

theorem move_read {size : Nat} (hat : (program side)[p.pc]? = some (.sync point)) :
    Move side stream p.view (p.read cfg side point stream size).view := by
  unfold Party.read
  split
  next => exact .stay
  next total hreading =>
    dsimp only
    split
    next hcan =>
      have hsize : size ≤ stream.length - p.received := by
        have hle := hcan.2.2
        rwa [List.length_drop] at hle
      split
      next => exact .read hat hreading hsize
      next hdone =>
        rw [view_synced, if_pos (by cases point <;> rfl)]
        exact .synced hat hreading hsize (not_lt.mp hdone)
    next => exact .stay

theorem move_readEnd {rc : Int} (hcurrent : (s side).current side = some (.sync point))
    (hok : Completes s (.run side (.readEnd rc))) :
    Move side stream (s side).view ((s side).readEnd cfg side point rc).view := by
  unfold Party.readEnd
  split
  next hend =>
    have hq : point ≠ .q := by
      rintro rfl
      exact absurd (hok hcurrent) (not_le.mpr hend.2)
    rw [view_synced, not_passes hend.2.ne (fun _ => hend.2.le) hq]
    exact .stay
  next => exact .stay

theorem move_poll {now : UInt64} (hat : (program side)[p.pc]? = some .pollCompletion) :
    Move side stream p.view (p.poll side now).view := by
  unfold Party.poll
  split
  next => exact .stay
  next start _ =>
    split
    next => split <;> exact .stay
    next success rest hcq =>
      cases success with
      | true => exact .quiet hat (.polled hcq) rfl
      | false => exact .dropped hcq

/-- **What a step of a program does.** -/
theorem partyStep_move {e : PartyEvent} (hok : Completes s (.run side e)) :
    Move side stream (s side).view (partyStep cfg side stream (s side) e).view := by
  unfold partyStep
  split
  next hcurrent => exact move_write hcurrent hok
  next hcurrent => exact move_read (at_of_current hcurrent)
  next hcurrent => exact move_readEnd hcurrent hok
  next hcurrent =>
    unfold Party.modifyQp
    split
    · exact .quiet (at_of_current hcurrent) (.modifyQp _) rfl
    · exact .stay
  next hcurrent =>
    unfold Party.postReceive
    split
    · exact .quiet (at_of_current hcurrent) .postReceive rfl
    · exact .stay
  next hcurrent =>
    unfold Party.postSend
    split
    · exact .quiet (at_of_current hcurrent) (.postSend rfl rfl rfl) rfl
    · exact .stay
  next hcurrent => exact move_poll (at_of_current hcurrent)
  next => split <;> exact .stay
  next hcurrent => exact .call (at_of_current hcurrent) .printBuf
  next hcurrent => exact .quiet (at_of_current hcurrent) (.strcpyBuf _) rfl
  next => exact .stay

end Move

/-! ## Barriers -/

/-- The position up to which a side may have written its part: the one behind a call of
`sock_sync_data` whose `write` is done. -/
def View.offered (v : View) : Nat := if v.reading.isSome then v.pc + 1 else v.pc

/-- A side has read what its passed calls ask for, and written at most what they offer. -/
structure CountedAt (side : Side) (v : View) : Prop where
  reading : v.reading.isSome = true → ∃ point, (program side)[v.pc]? = some (.sync point)
  received : syncBytes side v.pc + v.reading.getD 0 ≤ v.received
  sent : v.sent.length ≤ syncBytes side v.offered

structure Counted (w : Side → View) : Prop where
  each : ∀ side, CountedAt side (w side)
  wire : ∀ side, (w side).received ≤ (w side.other).sent.length

section Barriers

variable {w : Side → View}

theorem View.offered_le (v : View) : v.offered ≤ v.pc + 1 := by
  unfold View.offered
  split <;> omega

/-- What one side has passed, the other one has offered. -/
theorem Counted.barrier (h : Counted w) (side : Side) :
    syncBytes side (w side).pc ≤ syncBytes side.other (w side.other).offered := by
  have hreceived := (h.each side).received
  have hwire := h.wire side
  have hsent := (h.each side.other).sent
  omega

/-- A side that has passed a call finds the other one at that call, or behind it. -/
theorem Counted.meets (h : Counted w) (side : Side) (bytes first first' : Nat)
    (hle : bytes ≤ syncBytes side (first + 1)) (hlt' : syncBytes side.other first' < bytes)
    (hle' : bytes ≤ syncBytes side.other (first' + 1)) (hpassed : first < (w side).pc) :
    first' ≤ (w side.other).pc := by
  have hbytes : bytes ≤ syncBytes side.other (w side.other).offered :=
    (hle.trans (syncBytes_mono hpassed)).trans (h.barrier side)
  have hoffered := (le_syncBytes_iff hlt' hle').mp hbytes
  have hone := (w side.other).offered_le
  omega

/-- The server sends only after the client is ready to receive. -/
theorem Counted.ready (h : Counted w) (hpc : 5 ≤ (w .server).pc) : 5 ≤ (w .client).pc :=
  h.meets .server 35 4 5 (by decide) (by decide) (by decide) hpc

/-- The client reads the server's buffer only after the server has filled it again. -/
theorem Counted.filled (h : Counted w) (hpc : 9 ≤ (w .client).pc) : 8 ≤ (w .server).pc :=
  h.meets .client 36 8 8 (by decide) (by decide) (by decide) hpc

/-- The server looks at its buffer only after the client has written it. -/
theorem Counted.written (h : Counted w) (hpc : 10 ≤ (w .server).pc) : 16 ≤ (w .client).pc :=
  h.meets .server 37 9 16 (by decide) (by decide) (by decide) hpc

end Barriers

section Counts

variable {side : Side} {stream : List UInt8} {v v' : View}

theorem Effect.ne_sync {mem mem' : Memory} {cmd : Cmd} (h : Effect mem cmd mem')
    (point : SyncPoint) : cmd ≠ .sync point := by
  cases h <;> nofun

theorem Move.sent_le (h : Move side stream v v') : v.sent.length ≤ v'.sent.length := by
  cases h with
  | write => simp
  | _ => exact Nat.le_refl _

theorem Move.received_le (h : Move side stream v v') (hle : v.received ≤ stream.length) :
    v'.received ≤ stream.length := by
  cases h with
  | read _ _ hsize =>
      show v.received + _ ≤ _
      omega
  | synced _ _ hsize _ =>
      show v.received + _ ≤ _
      omega
  | _ => exact hle

/-- A call that is not a `sock_sync_data` has no bytes to count. -/
theorem CountedAt.pass (h : CountedAt side v) {cmd : Cmd} (hat : (program side)[v.pc]? = some cmd)
    (hcmd : ∀ point, cmd ≠ .sync point) (hpc : v'.pc = v.pc + 1) (hreading : v'.reading = v.reading)
    (hsent : v'.sent = v.sent) (hreceived : v'.received = v.received) : CountedAt side v' := by
  have hnone : v.reading = none := by
    by_contra hne
    obtain ⟨point, hsync⟩ := h.reading (Option.isSome_iff_ne_none.mpr hne)
    exact hcmd point (Option.some.inj (hat.symm.trans hsync))
  have hbytes : syncBytes side (v.pc + 1) = syncBytes side v.pc := by
    rw [syncBytes_succ hat]
    cases cmd with
    | sync point => exact absurd rfl (hcmd point)
    | _ => rfl
  have hsent₀ := h.sent
  have hreceived₀ := h.received
  simp only [View.offered, hnone, Option.isSome_none, Bool.false_eq_true, if_false] at hsent₀
  rw [hnone] at hreading hreceived₀
  refine ⟨?_, ?_, ?_⟩
  · rw [hreading]
    nofun
  · rw [hpc, hreading, hreceived, hbytes]
    exact hreceived₀
  · simp only [View.offered, hreading, hpc, hsent, Option.isSome_none, Bool.false_eq_true, if_false,
      hbytes]
    exact hsent₀

theorem CountedAt.move (h : CountedAt side v) (hmove : Move side stream v v') :
    CountedAt side v' := by
  cases hmove with
  | stay => exact h
  | @write point data hat hreading hdata =>
      refine ⟨fun _ => ⟨point, hat⟩, ?_, ?_⟩
      · have hreceived := h.received
        rw [hreading] at hreceived
        exact hreceived
      · have hsent := h.sent
        simp only [View.offered, hreading, Option.isSome_none, Bool.false_eq_true, if_false] at hsent
        show (v.sent ++ data).length ≤ syncBytes side (v.pc + 1)
        rw [List.length_append, syncBytes_succ hat]
        exact Nat.add_le_add hsent hdata
  | @read point total size hat hreading hsize =>
      refine ⟨fun _ => ⟨point, hat⟩, ?_, ?_⟩
      · have hreceived := h.received
        rw [hreading] at hreceived
        show syncBytes side v.pc + (total + size) ≤ v.received + size
        simp only [Option.getD_some] at hreceived
        omega
      · have hsent := h.sent
        simp only [View.offered, hreading, Option.isSome_some, if_true] at hsent
        exact hsent
  | @synced point total size hat hreading hsize hdone =>
      refine ⟨nofun, ?_, ?_⟩
      · have hreceived := h.received
        rw [hreading] at hreceived
        show syncBytes side (v.pc + 1) + 0 ≤ v.received + size
        rw [syncBytes_succ hat]
        simp only [Option.getD_some, Cmd.xferSize] at hreceived ⊢
        omega
      · have hsent := h.sent
        simp only [View.offered, hreading, Option.isSome_some, if_true] at hsent
        exact hsent
  | call hat heffect => exact h.pass hat heffect.ne_sync rfl rfl rfl rfl
  | dropped => exact ⟨h.reading, h.received, h.sent⟩

/-- **A step of one program keeps the counts of both.** -/
theorem Counted.move {w : Side → View} (h : Counted w)
    (hmove : Move side (w side.other).sent (w side) v') :
    Counted (Function.update w side v') := by
  constructor
  · intro side'
    rcases eq_or_ne side' side with rfl | hne
    · rw [Function.update_self]
      exact (h.each side').move hmove
    · rw [Function.update_of_ne hne]
      exact h.each side'
  · intro side'
    rcases eq_or_ne side' side with rfl | hne
    · rw [Function.update_self, Function.update_of_ne side'.other_ne]
      exact hmove.received_le (h.wire side')
    · obtain rfl := Side.eq_other_of_ne hne
      rw [Function.update_of_ne hne, Function.update_self]
      exact (h.wire side').trans hmove.sent_le

end Counts

end UioLinuxSample.Rdma.Session
