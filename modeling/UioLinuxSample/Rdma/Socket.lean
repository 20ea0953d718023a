import UioLinuxSample.Lib.Loop

set_option autoImplicit false

/-! # `sock_sync_data`: one message in each direction

The two sides of the RDMA example agree on their connection over a TCP socket. `sock_sync_data`
writes its message and then reads until it has as many bytes.

A socket has the bytes that will arrive, what comes after them, and the sizes the kernel chooses
for the successive reads, each within what the call allows. A read with no byte left returns 0 at
the end of the stream and -1 at an error, and does not return as long as neither comes.

Every read is told to put up to `xfer_size` bytes at the start of `remote_data`, however many are
there already. So a message that arrives in two parts is overwritten, and one that ends early is
waited for forever: the 0 of the end of the stream is also the value of `rc` for which the loop
goes on. On the side of the write, a count that is too small becomes the result, and 0 is taken for
success. `sync_exchanges_iff` says for which sizes and splits the exchange is right whatever the bytes
are.
-/

namespace UioLinuxSample.Rdma

open Loop

/-! ## The socket -/

/-- What follows the bytes that arrive. -/
inductive Ending where
  | eof
  | error
  /-- The peer neither sends more nor closes the connection. -/
  | silence
  deriving DecidableEq

structure Socket where
  incoming : List UInt8
  ending : Ending
  /-- The sizes for the reads to come. -/
  sizes : Nat → Nat
  sent : List UInt8

/-- The size of the next read: at least one byte, and no more than asked for or there. -/
def Socket.nextSize (s : Socket) (count : Nat) : Nat :=
  min (max 1 (s.sizes 0)) (min count s.incoming.length)

/-- `read`: its result and the bytes it has put at the start of the buffer, or `none` if it does
not return. -/
def Socket.read (s : Socket) (count : Nat) : Option (Int × List UInt8 × Socket) :=
  match s.incoming, s.ending with
  | [], .eof => some (0, [], s)
  | [], .error => some (-1, [], s)
  | [], .silence => none
  | _ :: _, _ =>
      let size := s.nextSize count
      some (size, s.incoming.take size,
        { s with incoming := s.incoming.drop size, sizes := fun i => s.sizes (i + 1) })

/-- `write` with the result `written`. -/
def Socket.write (s : Socket) (data : List UInt8) (written : Int) : Socket :=
  { s with sent := s.sent ++ data.take written.toNat }

/-! ## The function -/

/-- The variables of the loop. -/
structure Sync where
  rc : Int
  /-- It stays below twice `xfer_size`, and is not cut to an `int` here. -/
  totalReadBytes : Int
  remoteData : List UInt8
  sock : Socket

/-- What the function leaves. -/
structure Synced where
  rc : Int
  remoteData : List UInt8
  sock : Socket

/-- One turn of the loop. -/
def syncTurn (xferSize : Nat) (s : Sync) : Turn Sync Synced :=
  if s.rc = 0 ∧ s.totalReadBytes < xferSize then
    match s.sock.read xferSize with
    | none => .blocked
    | some (readBytes, data, sock) =>
        let remoteData := data ++ s.remoteData.drop data.length
        if readBytes > 0 then
          .next { s with totalReadBytes := s.totalReadBytes + readBytes, remoteData, sock }
        else .next { s with rc := readBytes, remoteData, sock }
  else .done ⟨s.rc, s.remoteData, s.sock⟩

/-- The state before the loop, for a `write` that returned `written`. -/
def syncStart (xferSize : Nat) (localData remoteData : List UInt8) (written : Int)
    (sock : Socket) : Sync where
  rc := if written < xferSize then written else 0
  totalReadBytes := 0
  remoteData := remoteData
  sock := sock.write localData written

/-- `sock_sync_data`, with a bound on the turns of the loop. -/
def sockSyncData (fuel xferSize : Nat) (localData remoteData : List UInt8) (written : Int)
    (sock : Socket) : Option Synced :=
  run (syncTurn xferSize) fuel (syncStart xferSize localData remoteData written sock)

/-- The call returns with the outcome `r`. -/
def SyncReturns (xferSize : Nat) (localData remoteData : List UInt8) (written : Int)
    (sock : Socket) (r : Synced) : Prop :=
  ∃ fuel, sockSyncData fuel xferSize localData remoteData written sock = some r

/-! ## One turn -/

section Turn

variable {xferSize : Nat} {s : Sync}

theorem Socket.nextSize_pos {s : Socket} {count : Nat} (hcount : 0 < count)
    (hne : s.incoming ≠ []) : 1 ≤ s.nextSize count := by
  have hlen := List.length_pos_iff.mpr hne
  unfold Socket.nextSize
  omega

theorem Socket.nextSize_le_length (s : Socket) (count : Nat) :
    s.nextSize count ≤ s.incoming.length :=
  (Nat.min_le_right _ _).trans (Nat.min_le_right _ _)

/-- The state after a read that has got something. -/
def Sync.afterRead (xferSize : Nat) (s : Sync) : Sync :=
  let size := s.sock.nextSize xferSize
  { s with
    totalReadBytes := s.totalReadBytes + size
    remoteData := s.sock.incoming.take size ++ s.remoteData.drop size
    sock := { s.sock with
      incoming := s.sock.incoming.drop size
      sizes := fun i => s.sock.sizes (i + 1) } }

theorem syncTurn_done (h : ¬ (s.rc = 0 ∧ s.totalReadBytes < xferSize)) :
    syncTurn xferSize s = .done ⟨s.rc, s.remoteData, s.sock⟩ := by
  unfold syncTurn
  rw [if_neg h]

theorem syncTurn_read (hxfer : 0 < xferSize) (h : s.rc = 0 ∧ s.totalReadBytes < xferSize)
    (hne : s.sock.incoming ≠ []) : syncTurn xferSize s = .next (s.afterRead xferSize) := by
  have hread : s.sock.read xferSize = some ((s.sock.nextSize xferSize : Int),
      s.sock.incoming.take (s.sock.nextSize xferSize), (s.afterRead xferSize).sock) := by
    unfold Socket.read
    split
    · rename_i hnil _; exact absurd hnil hne
    · rename_i hnil _; exact absurd hnil hne
    · rename_i hnil _; exact absurd hnil hne
    · rfl
  have hpos : (s.sock.nextSize xferSize : Int) > 0 := by
    exact_mod_cast Socket.nextSize_pos hxfer hne
  have hlen : (s.sock.incoming.take (s.sock.nextSize xferSize)).length
      = s.sock.nextSize xferSize :=
    List.length_take_of_le (s.sock.nextSize_le_length xferSize)
  unfold syncTurn
  rw [if_pos h, hread]
  dsimp only
  rw [if_pos hpos, hlen]
  rfl

/-- A turn after the last byte. -/
def Sync.atEnd (s : Sync) : Ending → Turn Sync Synced
  | .eof => .next s
  | .error => .next { s with rc := -1 }
  | .silence => .blocked

theorem syncTurn_end (h : s.rc = 0 ∧ s.totalReadBytes < xferSize) (hnil : s.sock.incoming = []) :
    syncTurn xferSize s = s.atEnd s.sock.ending := by
  unfold syncTurn Socket.read Sync.atEnd
  rw [if_pos h, hnil]
  cases hending : s.sock.ending with
  | eof =>
      obtain ⟨rc, total, remoteData, sock⟩ := s
      obtain rfl : rc = 0 := h.1
      rfl
  | error => rfl
  | silence => rfl

end Turn

/-! ## Whole runs -/

section Run

variable {xferSize : Nat} {s : Sync} {r : Synced}

/-- Enough bytes are read or on their way. -/
structure Enough (xferSize : Nat) (s : Sync) : Prop where
  rc : s.rc = 0
  bytes : (xferSize : Int) ≤ s.totalReadBytes + s.sock.incoming.length

theorem Enough.turn (hxfer : 0 < xferSize) (h : Enough xferSize s) :
    (¬ s.totalReadBytes < xferSize ∧ syncTurn xferSize s = .done ⟨0, s.remoteData, s.sock⟩)
      ∨ (s.totalReadBytes < xferSize ∧ s.sock.incoming ≠ []
        ∧ syncTurn xferSize s = .next (s.afterRead xferSize)
        ∧ Enough xferSize (s.afterRead xferSize)) := by
  by_cases hlt : s.totalReadBytes < xferSize
  · have hne : s.sock.incoming ≠ [] := by
      intro hnil
      have hbytes := h.bytes
      rw [hnil] at hbytes
      simp only [List.length_nil, Nat.cast_zero, add_zero] at hbytes
      omega
    refine .inr ⟨hlt, hne, syncTurn_read hxfer ⟨h.rc, hlt⟩ hne, h.rc, ?_⟩
    have hbytes := h.bytes
    have hle := s.sock.nextSize_le_length xferSize
    simp only [Sync.afterRead, List.length_drop]
    omega
  · refine .inl ⟨hlt, ?_⟩
    rw [syncTurn_done fun hgo => hlt hgo.2, h.rc]

/-- With enough bytes the loop ends, and with 0. -/
theorem Enough.returns (hxfer : 0 < xferSize) (h : Enough xferSize s) :
    ∃ r, Returns (syncTurn xferSize) s r ∧ r.rc = 0 := by
  refine exists_returns_of (fun s => (xferSize - s.totalReadBytes).toNat) h fun s hs => ?_
  rcases hs.turn hxfer with ⟨-, hdone⟩ | ⟨hlt, hne, hnext, henough⟩
  · exact .inl ⟨_, hdone, rfl⟩
  · refine .inr ⟨_, hnext, henough, ?_⟩
    have hpos := Socket.nextSize_pos hxfer hne
    simp only [Sync.afterRead]
    omega

/-- Too few bytes will come, and then `ending`. -/
structure Short (xferSize : Nat) (ending : Ending) (s : Sync) : Prop where
  rc : s.rc = 0
  bytes : s.totalReadBytes + s.sock.incoming.length < xferSize
  ending : s.sock.ending = ending

theorem Short.turn {ending : Ending} (hxfer : 0 < xferSize) (h : Short xferSize ending s) :
    (s.sock.incoming ≠ [] ∧ syncTurn xferSize s = .next (s.afterRead xferSize)
        ∧ Short xferSize ending (s.afterRead xferSize))
      ∨ (s.sock.incoming = [] ∧ syncTurn xferSize s = s.atEnd ending) := by
  have hbytes := h.bytes
  have hlt : s.totalReadBytes < xferSize := by omega
  by_cases hnil : s.sock.incoming = []
  · refine .inr ⟨hnil, ?_⟩
    rw [syncTurn_end ⟨h.rc, hlt⟩ hnil, h.ending]
  · refine .inl ⟨hnil, syncTurn_read hxfer ⟨h.rc, hlt⟩ hnil, h.rc, ?_, h.ending⟩
    have hle := s.sock.nextSize_le_length xferSize
    simp only [Sync.afterRead, List.length_drop]
    omega

/-- The end of the stream is waited for again and again. -/
theorem Short.not_returns {ending : Ending} (hxfer : 0 < xferSize) (h : Short xferSize ending s)
    (hending : ending ≠ .error) : ¬ Returns (syncTurn xferSize) s r := by
  refine Loop.not_returns h fun s hs => ?_
  rcases hs.turn hxfer with ⟨-, hnext, hshort⟩ | ⟨-, hend⟩
  · exact .inr ⟨_, hnext, hshort⟩
  -- a read of 0 bytes leaves the state as it is
  · cases ending with
    | eof => exact .inr ⟨s, hend, hs⟩
    | error => exact absurd rfl hending
    | silence => exact .inl hend

/-- An error is returned. -/
theorem Short.returns (hxfer : 0 < xferSize) (h : Short xferSize .error s) :
    ∃ r, Returns (syncTurn xferSize) s r ∧ r.rc = -1 := by
  induction hlen : s.sock.incoming.length using Nat.strongRecOn generalizing s with
  | _ n ih =>
      rcases h.turn hxfer with ⟨hne, hnext, hshort⟩ | ⟨hnil, hend⟩
      · have hpos := Socket.nextSize_pos hxfer hne
        have hle := s.sock.nextSize_le_length xferSize
        have hless : (s.afterRead xferSize).sock.incoming.length < n := by
          simp only [Sync.afterRead, List.length_drop]
          omega
        obtain ⟨r, hret, hrc⟩ := ih _ hless hshort rfl
        exact ⟨r, (returns_next hnext).mpr hret, hrc⟩
      · have hdone : syncTurn xferSize { s with rc := -1 } = .done ⟨-1, s.remoteData, s.sock⟩ :=
          syncTurn_done fun hgo => by cases hgo.1
        exact ⟨_, (returns_next hend).mpr ((returns_done hdone).mpr rfl), rfl⟩

end Run

/-! ## Overwritten bytes -/

section Overwritten

variable {xferSize : Nat} {s : Sync} {r : Synced}

/-- The buffer starts with a 0, and only zeros are still to come. -/
structure Zeroed (s : Sync) : Prop where
  first : s.remoteData.head? = some 0
  rest : ∀ b ∈ s.sock.incoming, b = 0

theorem head?_afterRead (hxfer : 0 < xferSize) (hne : s.sock.incoming ≠ []) :
    (s.afterRead xferSize).remoteData.head? = s.sock.incoming.head? := by
  have hpos := Socket.nextSize_pos hxfer hne
  obtain ⟨b, bs, hcons⟩ := List.exists_cons_of_ne_nil hne
  obtain ⟨k, hk⟩ := Nat.exists_eq_add_of_le' hpos
  simp [Sync.afterRead, hcons, hk]

theorem zeroed_afterRead (hxfer : 0 < xferSize) (hne : s.sock.incoming ≠ [])
    (h : ∀ b ∈ s.sock.incoming, b = 0) : Zeroed (s.afterRead xferSize) := by
  refine ⟨?_, fun b hb => h b (List.mem_of_mem_drop hb)⟩
  obtain ⟨b, bs, hcons⟩ := List.exists_cons_of_ne_nil hne
  rw [head?_afterRead hxfer hne, hcons, h b (by rw [hcons]; exact List.mem_cons_self)]
  rfl

theorem Zeroed.result (hxfer : 0 < xferSize) (h : Zeroed s) (henough : Enough xferSize s)
    (hret : Returns (syncTurn xferSize) s r) : r.remoteData.head? = some 0 := by
  refine hret.inv (P := fun s => Zeroed s ∧ Enough xferSize s)
    (Q := fun r => r.remoteData.head? = some 0) ⟨h, henough⟩ ?_ ?_
  · rintro s s' ⟨hz, he⟩ hturn
    rcases he.turn hxfer with ⟨-, hdone⟩ | ⟨-, hne, hnext, he'⟩
    · cases hturn.symm.trans hdone
    · cases hturn.symm.trans hnext
      exact ⟨zeroed_afterRead hxfer hne hz.rest, he'⟩
  · rintro s r ⟨hz, he⟩ hturn
    rcases he.turn hxfer with ⟨-, hdone⟩ | ⟨-, -, hnext, -⟩
    · cases hturn.symm.trans hdone
      exact hz.first
    · cases hturn.symm.trans hnext

/-- If the first read leaves some of the message, a second one overwrites the first byte. -/
theorem overwritten (hxfer : 0 < xferSize) (henough : Enough xferSize s)
    (htotal : s.totalReadBytes = 0) {zeros : List UInt8} (hin : s.sock.incoming = 1 :: zeros)
    (hzeros : ∀ b ∈ zeros, b = 0) (hsize : s.sock.nextSize xferSize < xferSize)
    (hret : Returns (syncTurn xferSize) s r) : r.remoteData.head? = some 0 := by
  rcases henough.turn hxfer with ⟨hnot, -⟩ | ⟨-, hne, hnext, henough₁⟩
  · rw [htotal] at hnot
    exact absurd (by exact_mod_cast hxfer) hnot
  · rw [returns_next hnext] at hret
    have hpos := Socket.nextSize_pos hxfer hne
    have hrest : ∀ b ∈ (s.afterRead xferSize).sock.incoming, b = 0 := by
      intro b hb
      obtain ⟨k, hk⟩ := Nat.exists_eq_add_of_le' hpos
      simp only [Sync.afterRead, hin, hk, List.drop_succ_cons] at hb
      exact hzeros b (List.mem_of_mem_drop hb)
    -- the second read starts at the first byte of the buffer again
    rcases henough₁.turn hxfer with ⟨hnot, -⟩ | ⟨-, hne₁, hnext₁, henough₂⟩
    · refine absurd ?_ hnot
      simp only [Sync.afterRead]
      omega
    · rw [returns_next hnext₁] at hret
      exact (zeroed_afterRead hxfer hne₁ hrest).result hxfer henough₂ hret

end Overwritten

/-! ## The exchange -/

/-- The call exchanges one message: it returns if the stream ends or the message arrives, with 0
exactly if the message was written and has arrived, and then with the first bytes of the stream and
no others; and with a negative value otherwise. -/
structure Exchanges (xferSize : Nat) (localData remoteData : List UInt8) (written : Int)
    (sock : Socket) : Prop where
  returns : sock.ending ≠ .silence ∨ xferSize ≤ sock.incoming.length →
    ∃ r, SyncReturns xferSize localData remoteData written sock r
  zero_iff : ∀ r, SyncReturns xferSize localData remoteData written sock r →
    (r.rc = 0 ↔ (xferSize : Int) ≤ written ∧ xferSize ≤ sock.incoming.length)
  message : ∀ r, SyncReturns xferSize localData remoteData written sock r → r.rc = 0 →
    r.remoteData.take xferSize = sock.incoming.take xferSize
      ∧ r.sock.incoming = sock.incoming.drop xferSize
      ∧ r.sock.sent = sock.sent ++ localData
  negative : ∀ r, SyncReturns xferSize localData remoteData written sock r → r.rc ≠ 0 → r.rc < 0

section Exchange

variable {xferSize : Nat} {localData remoteData : List UInt8} {written : Int} {sock : Socket}

/-- A `write` that fails or is cut short. -/
theorem exchanges_of_write (hlt : written < xferSize) (hne : written ≠ 0) :
    Exchanges xferSize localData remoteData written sock ↔ written < 0 := by
  have hdone : syncTurn xferSize (syncStart xferSize localData remoteData written sock)
      = .done ⟨written, remoteData, sock.write localData written⟩ := by
    have hrc : (syncStart xferSize localData remoteData written sock).rc = written := if_pos hlt
    rw [syncTurn_done (by rw [hrc]; exact fun hgo => hne hgo.1), hrc]
    rfl
  have hret : ∀ r, SyncReturns xferSize localData remoteData written sock r
      ↔ r = ⟨written, remoteData, sock.write localData written⟩ := fun r => returns_done hdone
  constructor
  · intro h
    exact h.negative _ ((hret _).mpr rfl) hne
  · intro hneg
    refine ⟨fun _ => ⟨_, (hret _).mpr rfl⟩, ?_, ?_, ?_⟩
    · intro r hr
      obtain rfl := (hret r).mp hr
      exact iff_of_false hne fun h => absurd hlt (not_lt.mpr h.1)
    · intro r hr hrc
      obtain rfl := (hret r).mp hr
      exact absurd hrc hne
    · intro r hr _
      obtain rfl := (hret r).mp hr
      exact hneg

/-- A stream that is too short: the end of the stream is the one thing that is not handled. -/
theorem exchanges_of_short (hxfer : 0 < xferSize)
    (hrc : (syncStart xferSize localData remoteData written sock).rc = 0)
    (hlen : sock.incoming.length < xferSize) :
    Exchanges xferSize localData remoteData written sock ↔ sock.ending ≠ .eof := by
  have hshort : Short xferSize sock.ending
      (syncStart xferSize localData remoteData written sock) := by
    refine ⟨hrc, ?_, rfl⟩
    show (0 : Int) + sock.incoming.length < xferSize
    omega
  constructor
  · intro h heof
    obtain ⟨r, hr⟩ := h.returns (.inl (by rw [heof]; decide))
    exact hshort.not_returns hxfer (by rw [heof]; decide) hr
  · intro heof
    cases hending : sock.ending with
    | eof => exact absurd hending heof
    | silence =>
        have hnever : ∀ r, ¬ SyncReturns xferSize localData remoteData written sock r :=
          fun r => hshort.not_returns hxfer (by rw [hending]; decide)
        refine ⟨?_, fun r hr => absurd hr (hnever r), fun r hr => absurd hr (hnever r),
          fun r hr => absurd hr (hnever r)⟩
        rintro (hends | harrives)
        · exact absurd hending hends
        · exact absurd hlen (not_lt.mpr harrives)
    | error =>
        rw [hending] at hshort
        obtain ⟨r₀, hr₀, hrc₀⟩ := hshort.returns hxfer
        have hminus : ∀ r, SyncReturns xferSize localData remoteData written sock r → r.rc = -1 := by
          intro r hr
          rw [Returns.unique hr hr₀]
          exact hrc₀
        refine ⟨fun _ => ⟨r₀, hr₀⟩, ?_, ?_, ?_⟩
        · intro r hr
          rw [hminus r hr]
          exact iff_of_false (by decide) fun h => absurd hlen (not_lt.mpr h.2)
        · intro r hr hzero
          rw [hminus r hr] at hzero
          cases hzero
        · intro r hr _
          rw [hminus r hr]
          decide

theorem enough_start (hrc : (syncStart xferSize localData remoteData written sock).rc = 0)
    (hlen : xferSize ≤ sock.incoming.length) :
    Enough xferSize (syncStart xferSize localData remoteData written sock) := by
  refine ⟨hrc, ?_⟩
  show (xferSize : Int) ≤ 0 + sock.incoming.length
  omega

/-- Nothing is written, and the call reports success. -/
theorem not_exchanges_of_unwritten (hxfer : 0 < xferSize) (hlen : xferSize ≤ sock.incoming.length) :
    ¬ Exchanges xferSize localData remoteData 0 sock := by
  intro h
  have hrc : (syncStart xferSize localData remoteData 0 sock).rc = 0 := by
    simp [syncStart]
  have henough := enough_start hrc hlen
  obtain ⟨r, hr, hrc⟩ := henough.returns hxfer
  have hwritten := ((h.zero_iff r hr).mp hrc).1
  omega

theorem syncStart_rc_of_le (hwritten : (xferSize : Int) ≤ written) :
    (syncStart xferSize localData remoteData written sock).rc = 0 :=
  if_neg (not_lt.mpr hwritten)

/-- The message comes with the first read. -/
theorem exchanges_of_whole (hxfer : 0 < xferSize) (hwritten : (xferSize : Int) ≤ written)
    (hlocal : localData.length = xferSize) (hlen : xferSize ≤ sock.incoming.length)
    (hsize : sock.nextSize xferSize = xferSize) :
    Exchanges xferSize localData remoteData written sock := by
  have henough := @enough_start _ localData remoteData _ _ (syncStart_rc_of_le hwritten) hlen
  have hne : sock.incoming ≠ [] := by
    rintro hnil
    rw [hnil] at hlen
    exact absurd hxfer (not_lt.mpr hlen)
  have hnext := syncTurn_read hxfer
    ⟨henough.rc, show (0 : Int) < xferSize by exact_mod_cast hxfer⟩ hne
  have hsize' : (syncStart xferSize localData remoteData written sock).sock.nextSize xferSize
      = xferSize := hsize
  have hdone := @syncTurn_done xferSize
    ((syncStart xferSize localData remoteData written sock).afterRead xferSize) (by
      rintro ⟨-, hlt⟩
      dsimp only [Sync.afterRead] at hlt
      rw [hsize', show (syncStart _ _ _ _ _).totalReadBytes = 0 from rfl, zero_add] at hlt
      exact lt_irrefl _ hlt)
  have hret := fun r => ((returns_next hnext).trans (returns_done hdone) :
    SyncReturns xferSize localData remoteData written sock r ↔ _)
  refine ⟨fun _ => ⟨_, (hret _).mpr rfl⟩, ?_, ?_, ?_⟩
  · intro r hr
    obtain rfl := (hret r).mp hr
    exact iff_of_true henough.rc ⟨hwritten, hlen⟩
  · intro r hr _
    obtain rfl := (hret r).mp hr
    dsimp only [Sync.afterRead]
    rw [hsize']
    refine ⟨List.take_left' (List.length_take_of_le hlen), rfl, ?_⟩
    show sock.sent ++ localData.take written.toNat = sock.sent ++ localData
    rw [List.take_of_length_le (by omega)]
  · intro r hr hrc
    obtain rfl := (hret r).mp hr
    exact absurd henough.rc hrc

/-- The message comes in parts. -/
theorem not_exchanges_of_split (hxfer : 0 < xferSize) (hwritten : (xferSize : Int) ≤ written)
    (hlen : xferSize ≤ sock.incoming.length) {zeros : List UInt8}
    (hin : sock.incoming = 1 :: zeros) (hzeros : ∀ b ∈ zeros, b = 0)
    (hsize : sock.nextSize xferSize < xferSize) :
    ¬ Exchanges xferSize localData remoteData written sock := by
  intro h
  have henough := @enough_start _ localData remoteData _ _ (syncStart_rc_of_le hwritten) hlen
  obtain ⟨r, hr, hrc⟩ := henough.returns hxfer
  have hfirst := overwritten hxfer henough rfl hin hzeros hsize hr
  have hdata := (h.message r hr hrc).1
  obtain ⟨k, rfl⟩ := Nat.exists_eq_add_of_le' hxfer
  have hhead := congrArg List.head? hdata
  rw [List.head?_take, List.head?_take, hfirst, hin] at hhead
  simp at hhead

end Exchange

/-- A stream of the given length whose first byte is unlike the others. -/
def markedStream (len : Nat) : List UInt8 := (1 :: List.replicate len 0).take len

theorem length_markedStream (len : Nat) : (markedStream len).length = len :=
  List.length_take_of_le (by simp)

section Shape

variable {xferSize : Nat} {written : Int} {len : Nat} {ending : Ending} {sizes : Nat → Nat}

/-- The first read gets everything. -/
theorem Socket.nextSize_eq_iff {stream sent : List UInt8} (hlen : xferSize ≤ stream.length) :
    Socket.nextSize ⟨stream, ending, sizes, sent⟩ xferSize = xferSize
      ↔ xferSize ≤ max 1 (sizes 0) := by
  show min (max 1 (sizes 0)) (min xferSize stream.length) = xferSize ↔ _
  rw [min_eq_left hlen, min_eq_right_iff]

/-- With a marked stream that is long enough, only the message as a whole is exchanged. -/
theorem whole_of_exchanges_marked (hxfer : 0 < xferSize) (hlen : xferSize ≤ len)
    (hwritten : (xferSize : Int) ≤ written) {localData remoteData : List UInt8}
    (h : Exchanges xferSize localData remoteData written ⟨markedStream len, ending, sizes, []⟩) :
    xferSize ≤ max 1 (sizes 0) := by
  have hlen' : xferSize ≤ (markedStream len).length := by rwa [length_markedStream]
  by_contra hsplit
  have hne : Socket.nextSize ⟨markedStream len, ending, sizes, []⟩ xferSize ≠ xferSize :=
    fun heq => hsplit ((Socket.nextSize_eq_iff hlen').mp heq)
  have hle : Socket.nextSize ⟨markedStream len, ending, sizes, []⟩ xferSize ≤ xferSize :=
    (Nat.min_le_right _ _).trans (Nat.min_le_left _ _)
  obtain ⟨k, rfl⟩ := Nat.exists_eq_add_of_le' (hxfer.trans_le hlen)
  exact not_exchanges_of_split hxfer hwritten hlen' List.take_succ_cons
    (fun b hb => List.eq_of_mem_replicate (List.mem_of_mem_take hb)) (lt_of_le_of_ne hle hne) h

end Shape

/-- **When a message is exchanged, whatever its bytes are.** The `write` fails; or it writes nothing
and the stream is cut off by an error; or it writes everything, a message that arrives comes with
the first read, and a stream that is too short does not just end. -/
theorem sync_exchanges_iff {xferSize : Nat} (hxfer : 0 < xferSize) (written : Int) (len : Nat)
    (ending : Ending) (sizes : Nat → Nat) :
    (∀ localData remoteData stream sent, localData.length = xferSize → stream.length = len →
        Exchanges xferSize localData remoteData written ⟨stream, ending, sizes, sent⟩)
      ↔ written < 0
        ∨ (written = 0 ∧ len < xferSize ∧ ending ≠ .eof)
        ∨ ((xferSize : Int) ≤ written ∧ (xferSize ≤ len → xferSize ≤ max 1 (sizes 0))
          ∧ (len < xferSize → ending ≠ .eof)) := by
  constructor
  · intro h
    -- a stream whose first byte is not repeated shows whether it is overwritten
    replace h := h (List.replicate xferSize 0) [] (markedStream len) [] List.length_replicate
      (length_markedStream len)
    by_cases hneg : written < 0
    · exact .inl hneg
    by_cases hlt : written < xferSize ∧ written ≠ 0
    · exact .inl ((exchanges_of_write hlt.1 hlt.2).mp h)
    by_cases hlen : len < xferSize
    · have hrc : (syncStart xferSize (List.replicate xferSize 0) [] written
          ⟨markedStream len, ending, sizes, []⟩).rc = 0 := by
        simp only [syncStart]
        split <;> omega
      have heof := (exchanges_of_short hxfer hrc (by rwa [length_markedStream])).mp h
      by_cases hzero : written = 0
      · exact .inr (.inl ⟨hzero, hlen, heof⟩)
      · exact .inr (.inr ⟨by omega, fun hle => absurd hlen (not_lt.mpr hle), fun _ => heof⟩)
    · replace hlen := not_lt.mp hlen
      have hwritten : (xferSize : Int) ≤ written := by
        by_contra hnot
        obtain rfl : written = 0 := by omega
        exact not_exchanges_of_unwritten hxfer (by rwa [length_markedStream]) h
      exact .inr (.inr ⟨hwritten, fun _ => whole_of_exchanges_marked hxfer hlen hwritten h,
        fun hshort => absurd hlen (not_le.mpr hshort)⟩)
  · rintro (hneg | ⟨rfl, hlen, heof⟩ | ⟨hwritten, hwhole, heof⟩) localData remoteData stream sent
      hlocal rfl
    · exact (exchanges_of_write (by omega) hneg.ne).mpr hneg
    · exact (exchanges_of_short hxfer (by simp [syncStart]) hlen).mpr heof
    · by_cases hlen : stream.length < xferSize
      · exact (exchanges_of_short hxfer (syncStart_rc_of_le hwritten) hlen).mpr (heof hlen)
      · have hle := not_lt.mp hlen
        exact exchanges_of_whole hxfer hwritten hlocal hle
          ((Socket.nextSize_eq_iff hle).mpr (hwhole hle))

/-- Five bytes of which the first four come at once. -/
theorem sync_exchanges_four :
    ∃ r, SyncReturns 4 [1, 2, 3, 4] [0, 0, 0, 0] 4
        ⟨[5, 6, 7, 8, 9], .silence, fun _ => 4, []⟩ r
      ∧ r.rc = 0 ∧ r.remoteData.take 4 = [5, 6, 7, 8] ∧ r.sock.incoming = [9] := by
  have hexchanges := (sync_exchanges_iff (show 0 < 4 by decide) 4 5 .silence fun _ => 4).mpr
    (.inr (.inr ⟨by decide, by decide, by decide⟩)) [1, 2, 3, 4] [0, 0, 0, 0] [5, 6, 7, 8, 9] []
    rfl rfl
  obtain ⟨r, hr⟩ := hexchanges.returns (.inr (by decide))
  have hrc := (hexchanges.zero_iff r hr).mpr (by decide)
  obtain ⟨hdata, hrest, -⟩ := hexchanges.message r hr hrc
  exact ⟨r, hr, hrc, hdata, hrest⟩

/-- The same message in two reads of two bytes: the call returns 0 with the second half in place of
the first. And a peer that closes the connection at once is waited for forever. -/
theorem sync_not_exchanges :
    (∃ r, SyncReturns 4 [1, 2, 3, 4] [0, 0, 0, 0] 4
        ⟨[5, 6, 7, 8, 9], .silence, fun _ => 2, []⟩ r
      ∧ r.rc = 0 ∧ r.remoteData = [7, 8, 0, 0])
    ∧ ∀ r, ¬ SyncReturns 4 [1, 2, 3, 4] [0, 0, 0, 0] 4 ⟨[], .eof, fun _ => 4, []⟩ r := by
  refine ⟨⟨_, ⟨3, rfl⟩, rfl, rfl⟩, fun r => ?_⟩
  have hshort : Short 4 .eof (syncStart 4 [1, 2, 3, 4] [0, 0, 0, 0] 4
      ⟨[], .eof, fun _ => 4, []⟩) := ⟨rfl, by decide, rfl⟩
  exact hshort.not_returns (by decide) (by decide)

end UioLinuxSample.Rdma
