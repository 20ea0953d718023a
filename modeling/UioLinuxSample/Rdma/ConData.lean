import UioLinuxSample.Lib.Words

set_option autoImplicit false

/-! # The connection record

The two sides send each other a packed `struct cm_con_data_t`: the address and the key of the
buffer, the number of the queue pair and the LID of the port, in network byte order, and the GID as
it is. The record that arrives is the one that was sent, for hosts of any byte order
(`con_data_round_trip`).
-/

namespace UioLinuxSample.Rdma

open Words

/-! ## Words in host and network order -/

/-- `bswap_64`, and the swaps that `htonl` and `htons` use on little-endian hosts. -/
def bswap (w : Nat) (x : BitVec (8 * w)) : BitVec (8 * w) :=
  BitVec.ofNat (8 * w) (swapBytes w x.toNat)

/-- A word of `w` bytes to or from network order. -/
def swapIfLittle (e : Endian) (w : Nat) (x : BitVec (8 * w)) : BitVec (8 * w) :=
  match e with
  | .little => bswap w x
  | .big => x

def htonll (e : Endian) (x : BitVec 64) : BitVec 64 := swapIfLittle e 8 x

def ntohll (e : Endian) (x : BitVec 64) : BitVec 64 := swapIfLittle e 8 x

def htonl (e : Endian) (x : BitVec 32) : BitVec 32 := swapIfLittle e 4 x

def ntohl (e : Endian) (x : BitVec 32) : BitVec 32 := swapIfLittle e 4 x

def htons (e : Endian) (x : BitVec 16) : BitVec 16 := swapIfLittle e 2 x

def ntohs (e : Endian) (x : BitVec 16) : BitVec 16 := swapIfLittle e 2 x

/-- A word in memory. -/
def wordBytes (e : Endian) (w : Nat) (x : BitVec (8 * w)) : List UInt8 := e.bytes w x.toNat

/-- The word of `w` bytes at an offset. -/
def wordAt (e : Endian) (w offset : Nat) (bs : List UInt8) : BitVec (8 * w) :=
  BitVec.ofNat (8 * w) (e.value ((bs.drop offset).take w))

section Words

variable (e : Endian) (w : Nat) (x : BitVec (8 * w))

theorem toNat_lt_256 : x.toNat < 256 ^ w := by
  have hlt := x.isLt
  rwa [pow_mul] at hlt

theorem toNat_swapIfLittle : (swapIfLittle e w x).toNat = e.network w x.toNat := by
  cases e with
  | big => rfl
  | little =>
      have hlt := Endian.big.value_lt (Endian.little.bytes w x.toNat)
      rw [Endian.length_bytes] at hlt
      show swapBytes w x.toNat % 2 ^ (8 * w) = swapBytes w x.toNat
      rw [pow_mul]
      exact Nat.mod_eq_of_lt hlt

theorem length_wordBytes : (wordBytes e w x).length = w := e.length_bytes w x.toNat

/-- A converted word has its most significant byte first in memory. -/
theorem wordBytes_swapIfLittle :
    wordBytes e w (swapIfLittle e w x) = wordBytes .big w x := by
  unfold wordBytes
  rw [toNat_swapIfLittle]
  exact e.bytes_network w x.toNat

theorem wordAt_append {e : Endian} {w offset : Nat} {before word after : List UInt8}
    (hbefore : before.length = offset) (hword : word.length = w) :
    wordAt e w offset (before ++ (word ++ after)) = BitVec.ofNat (8 * w) (e.value word) := by
  unfold wordAt
  rw [List.drop_left' hbefore, List.take_left' hword]

/-- **A word over the wire.** -/
theorem swapIfLittle_wordAt {offset : Nat} {before after : List UInt8}
    (hbefore : before.length = offset) :
    swapIfLittle e w (wordAt e w offset (before ++ (wordBytes .big w x ++ after))) = x := by
  rw [wordAt_append hbefore (length_wordBytes .big w x)]
  apply BitVec.eq_of_toNat_eq
  have hlt := e.value_lt (wordBytes .big w x)
  rw [length_wordBytes] at hlt
  have hvalue : (BitVec.ofNat (8 * w) (e.value (wordBytes .big w x))).toNat
      = e.value (wordBytes .big w x) := by
    rw [BitVec.toNat_ofNat, pow_mul]
    exact Nat.mod_eq_of_lt hlt
  rw [toNat_swapIfLittle, hvalue]
  have hnetwork := e.network_value (wordBytes .big w x)
  rw [length_wordBytes] at hnetwork
  rw [hnetwork]
  exact Endian.big.value_bytes (toNat_lt_256 w x)

end Words

/-! ## The record -/

/-- `struct cm_con_data_t`. -/
@[ext]
structure CmConData where
  addr : BitVec 64
  rkey : BitVec 32
  qpNum : BitVec 32
  lid : BitVec 16
  gid : Vector UInt8 16
  deriving DecidableEq

/-- `sizeof(struct cm_con_data_t)`: the structure is packed. -/
def conDataSize : Nat := 8 + 4 + 4 + 2 + 16

/-- The record in the memory of a host. -/
def CmConData.toBytes (e : Endian) (c : CmConData) : List UInt8 :=
  wordBytes e 8 c.addr ++ wordBytes e 4 c.rkey ++ wordBytes e 4 c.qpNum ++ wordBytes e 2 c.lid
    ++ c.gid.toList

/-- The record that a host has in memory. -/
def CmConData.ofBytes (e : Endian) (bs : List UInt8) : CmConData where
  addr := wordAt e 8 0 bs
  rkey := wordAt e 4 8 bs
  qpNum := wordAt e 4 12 bs
  lid := wordAt e 2 16 bs
  gid := Vector.ofFn fun i => bs.getD (18 + i) 0

/-- `local_con_data` of `connect_qp`. -/
def localConData (e : Endian) (buf : BitVec 64) (rkey qpNum : BitVec 32) (lid : BitVec 16)
    (myGid : Vector UInt8 16) : CmConData where
  addr := htonll e buf
  rkey := htonl e rkey
  qpNum := htonl e qpNum
  lid := htons e lid
  gid := myGid

/-- `remote_con_data` of `connect_qp`. -/
def remoteConData (e : Endian) (tmpConData : CmConData) : CmConData where
  addr := ntohll e tmpConData.addr
  rkey := ntohl e tmpConData.rkey
  qpNum := ntohl e tmpConData.qpNum
  lid := ntohs e tmpConData.lid
  gid := tmpConData.gid

/-- The bytes of a record in network order. -/
theorem toBytes_localConData (e : Endian) (buf : BitVec 64) (rkey qpNum : BitVec 32)
    (lid : BitVec 16) (gid : Vector UInt8 16) :
    (localConData e buf rkey qpNum lid gid).toBytes e
      = CmConData.toBytes .big ⟨buf, rkey, qpNum, lid, gid⟩ := by
  unfold CmConData.toBytes localConData htonll htonl htons
  dsimp only
  rw [wordBytes_swapIfLittle e 8, wordBytes_swapIfLittle e 4, wordBytes_swapIfLittle e 4,
    wordBytes_swapIfLittle e 2]

theorem length_toBytes (e : Endian) (c : CmConData) : (c.toBytes e).length = conDataSize := by
  unfold CmConData.toBytes conDataSize
  simp only [List.length_append, length_wordBytes, Vector.length_toList]

/-- A receiver of any byte order finds the fields. -/
theorem remoteConData_ofBytes (e : Endian) (c : CmConData) :
    remoteConData e (CmConData.ofBytes e (c.toBytes .big)) = c := by
  -- the bytes around each field
  have haddr : c.toBytes .big = [] ++ (wordBytes .big 8 c.addr ++ (wordBytes .big 4 c.rkey
      ++ wordBytes .big 4 c.qpNum ++ wordBytes .big 2 c.lid ++ c.gid.toList)) := by
    simp [CmConData.toBytes]
  have hrkey : c.toBytes .big = wordBytes .big 8 c.addr ++ (wordBytes .big 4 c.rkey
      ++ (wordBytes .big 4 c.qpNum ++ wordBytes .big 2 c.lid ++ c.gid.toList)) := by
    simp [CmConData.toBytes]
  have hqpNum : c.toBytes .big = (wordBytes .big 8 c.addr ++ wordBytes .big 4 c.rkey)
      ++ (wordBytes .big 4 c.qpNum ++ (wordBytes .big 2 c.lid ++ c.gid.toList)) := by
    simp [CmConData.toBytes]
  have hlid : c.toBytes .big = (wordBytes .big 8 c.addr ++ wordBytes .big 4 c.rkey
      ++ wordBytes .big 4 c.qpNum) ++ (wordBytes .big 2 c.lid ++ c.gid.toList) := by
    simp [CmConData.toBytes]
  have hgid : ∀ i : Fin 16, (c.toBytes .big).getD (18 + i) 0 = c.gid[i] := by
    intro i
    have hlen : (wordBytes .big 8 c.addr ++ wordBytes .big 4 c.rkey ++ wordBytes .big 4 c.qpNum
        ++ wordBytes .big 2 c.lid).length = 18 := by
      simp only [List.length_append, length_wordBytes]
    unfold CmConData.toBytes
    rw [List.getD_append_right _ _ _ _ (by omega), hlen, Nat.add_sub_cancel_left]
    simp
  apply CmConData.ext
  · show swapIfLittle e 8 (wordAt e 8 0 (c.toBytes .big)) = c.addr
    rw [haddr]
    exact swapIfLittle_wordAt e 8 c.addr rfl
  · show swapIfLittle e 4 (wordAt e 4 8 (c.toBytes .big)) = c.rkey
    rw [hrkey]
    exact swapIfLittle_wordAt e 4 c.rkey (length_wordBytes .big 8 c.addr)
  · show swapIfLittle e 4 (wordAt e 4 12 (c.toBytes .big)) = c.qpNum
    rw [hqpNum]
    exact swapIfLittle_wordAt e 4 c.qpNum (by simp only [List.length_append, length_wordBytes])
  · show swapIfLittle e 2 (wordAt e 2 16 (c.toBytes .big)) = c.lid
    rw [hlid]
    exact swapIfLittle_wordAt e 2 c.lid (by simp only [List.length_append, length_wordBytes])
  · apply Vector.ext
    intro i hi
    show (Vector.ofFn fun i : Fin 16 => (c.toBytes .big).getD (18 + i) 0)[i] = c.gid[i]
    rw [Vector.getElem_ofFn]
    exact hgid ⟨i, hi⟩

/-- **The round trip of the connection record.** -/
theorem con_data_round_trip (sender receiver : Endian) (buf : BitVec 64) (rkey qpNum : BitVec 32)
    (lid : BitVec 16) (gid : Vector UInt8 16) :
    remoteConData receiver (CmConData.ofBytes receiver
        ((localConData sender buf rkey qpNum lid gid).toBytes sender))
      = ⟨buf, rkey, qpNum, lid, gid⟩
    ∧ ((localConData sender buf rkey qpNum lid gid).toBytes sender).length = 34
    ∧ (localConData sender buf rkey qpNum lid gid).toBytes sender
      = (localConData receiver buf rkey qpNum lid gid).toBytes receiver := by
  rw [toBytes_localConData, toBytes_localConData]
  exact ⟨remoteConData_ofBytes receiver _, length_toBytes .big _, rfl⟩

end UioLinuxSample.Rdma
