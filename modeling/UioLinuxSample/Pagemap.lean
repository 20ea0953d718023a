import UioLinuxSample.Lib.Words

set_option autoImplicit false

/-! # Two readers of `/proc/<pid>/pagemap`

The pagemap file has an 8-byte entry for each virtual page: bit 63 says whether the page is
present, and the low 55 bits are the number of its physical frame. `read_pagemap` (`v2p.c`, and
the same text in `mem/read_pagemap.c`) finds the entry by division, reads it byte by byte into a
buffer that it reverses on little-endian hosts, and adds the offset in the page by a remainder.
`gva_to_gpa` (`vtop.c`) shifts and masks, and reads the entry as a native word. They compute the
same (`translators_agree`).

The host is its byte order and its page size. What is in memory before a read, and what the
library calls return, are arguments.
-/

namespace UioLinuxSample.Pagemap

open Words

/-- The file: its contents, and the offsets that `fseek` and `lseek` accept. -/
structure PagemapFile where
  bytes : List UInt8
  seekable : UInt64 → Bool

/-! ## `read_pagemap` -/

/-- `PAGEMAP_ENTRY`. -/
def pagemapEntry : Nat := 8

/-- `is_bigendian()`: the first byte of an `int` that is 1. -/
def isBigendian (e : Endian) : Bool := (e.bytes 4 1).head? == some 0

/-- `GET_BIT`. -/
def getBit (x y : UInt64) : UInt64 := (x &&& (1 <<< y)) >>> y

/-- `GET_PFN`. -/
def getPfn (x : UInt64) : UInt64 := x &&& 0x7FFFFFFFFFFFFF

/-- What `read_pagemap` prints. -/
inductive Line where
  | bigEndian (big : Bool)
  | cannotOpen (path : String)
  | vaddr (virtAddr pageSize : UInt64) (entrySize : Nat)
  | reading (path : String) (fileOffset : UInt64)
  | failedToSeek
  | byte (i : Nat) (c : UInt8)
  | reachedEnd
  | newline
  | result (readVal : UInt64)
  | pfn (pfn addr : UInt64)
  | notPresent
  | swapped
  deriving DecidableEq

/-- The global variables that `read_pagemap` writes. -/
structure Globals where
  fileOffset : UInt64
  readVal : UInt64

structure Report where
  ret : Int
  globals : Globals
  lines : List Line

/-- The loop that fills `c_buf` with the bytes from `pos` on: `n` turns from `i` on. At the end of
the file only the lines printed so far are left. -/
def fillBuf (e : Endian) (file : PagemapFile) (pos : Nat) :
    Nat → Nat → (Nat → UInt8) → List Line → Except (List Line) ((Nat → UInt8) × List Line)
  | 0, _, cBuf, out => .ok (cBuf, out)
  | n + 1, i, cBuf, out =>
      match file.bytes[pos + i]? with
      | none => .error (out ++ [.reachedEnd])
      | some c =>
          let slot := if isBigendian e then i else pagemapEntry - i - 1
          fillBuf e file pos n (i + 1) (Function.update cBuf slot c) (out ++ [.byte i c])

/-- The loop that puts the entry together from `c_buf`. -/
def assemble (cBuf : Nat → UInt8) : UInt64 :=
  (List.range pagemapEntry).foldl (fun readVal i => (readVal <<< 8) + (cBuf i).toUInt64) 0

/-- The lines about an entry that was read. -/
def describe (pageSize virtAddr readVal : UInt64) : List Line :=
  let present :=
    if getBit readVal 63 ≠ 0 then
      let pfn := getPfn readVal
      [Line.pfn pfn (pfn * pageSize + virtAddr % pageSize)]
    else [.notPresent]
  let swapped := if getBit readVal 62 ≠ 0 then [Line.swapped] else []
  present ++ swapped

/-- `read_pagemap`; `file` is what `fopen` returns for the path, and `cBuf` the uninitialised
buffer. -/
def readPagemap (e : Endian) (pageSize : UInt64) (g : Globals) (cBuf : Nat → UInt8)
    (path : String) (file : Option PagemapFile) (virtAddr : UInt64) : Report :=
  let out := [Line.bigEndian (isBigendian e)]
  match file with
  | none => ⟨-1, g, out ++ [.cannotOpen path]⟩
  | some file =>
      let fileOffset := virtAddr / pageSize * UInt64.ofNat pagemapEntry
      let g := { g with fileOffset := fileOffset }
      let out := out ++ [.vaddr virtAddr pageSize pagemapEntry, .reading path fileOffset]
      if !file.seekable fileOffset then ⟨-1, g, out ++ [.failedToSeek]⟩
      else
        match fillBuf e file fileOffset.toNat pagemapEntry 0 cBuf out with
        | .error out => ⟨0, { g with readVal := 0 }, out⟩
        | .ok (cBuf, out) =>
            let readVal := assemble cBuf
            ⟨0, { g with readVal := readVal },
              out ++ [.newline, .result readVal] ++ describe pageSize virtAddr readVal⟩

/-! ## `gva_to_gpa` -/

/-- `PAGE_SHIFT`. -/
def pageShift : Nat := 12

/-- `PFN_PRESENT`. -/
def pfnPresent : UInt64 := (1 : UInt64) <<< 63

/-- `PFN_PFN`. -/
def pfnPfn : UInt64 := ((1 : UInt64) <<< 55) - 1

/-- `page_offset`, of a 32-bit argument. -/
def pageOffset (addr : UInt32) : UInt32 := addr &&& ((1 <<< UInt32.ofNat pageShift) - 1)

/-- An open file and the position in it. -/
structure Fd where
  file : PagemapFile
  pos : Nat

/-- `lseek(fd, offset, SEEK_SET)`; the caller does not look at the result. -/
def Fd.lseek (fd : Fd) (offset : UInt64) : Fd :=
  if fd.file.seekable offset then { fd with pos := offset.toNat } else fd

/-- The bytes that `read(fd, buf, n)` gets. -/
def Fd.read (fd : Fd) (n : Nat) : List UInt8 := (fd.file.bytes.drop fd.pos).take n

/-- The offset in `gva_to_gfn`. The mask `~7` is an `int`, extended with its sign. -/
def gvaOffset (addr : UInt64) : UInt64 := (addr >>> 9) &&& (~~~(7 : Int32)).toInt64.toUInt64

/-- The value of `pme` after the read. The variable is not initialised, and a short read leaves
the rest of its bytes as they are. -/
def gvaPme (e : Endian) (fd : Fd) (pme : Vector UInt8 8) (addr : UInt64) : UInt64 :=
  let got := (fd.lseek (gvaOffset addr)).read 8
  UInt64.ofNat (e.value (got ++ pme.toList.drop got.length))

/-- `gva_to_gfn`. -/
def gvaToGfn (e : Endian) (fd : Fd) (pme : Vector UInt8 8) (addr : UInt64) : UInt64 :=
  let pme := gvaPme e fd pme addr
  if pme &&& pfnPresent = 0 then -1 else pme &&& pfnPfn

/-- `gva_to_gpa`; `none` is a failed assertion. -/
def gvaToGpa (e : Endian) (fd : Fd) (pme : Vector UInt8 8) (addr : UInt64) : Option UInt64 :=
  let gfn := gvaToGfn e fd pme addr
  if gfn = -1 then none
  else some ((gfn <<< UInt64.ofNat pageShift) ||| (pageOffset addr.toUInt32).toUInt64)

/-! ## Where the entry is -/

/-- The page size that `PAGE_SHIFT` stands for. -/
def pageSize : UInt64 := 4096

/-- **One offset.** -/
theorem offset_eq (addr : UInt64) :
    addr / pageSize * UInt64.ofNat pagemapEntry = gvaOffset addr := by
  have haddr := UInt64.toNat_lt addr
  have hmask : (~~~(7 : Int32)).toInt64.toUInt64.toNat = 2 ^ 3 * (2 ^ 61 - 1) := by decide
  apply UInt64.toNat_inj.mp
  calc (addr / pageSize * UInt64.ofNat pagemapEntry).toNat
      = addr.toNat / 4096 * 8 := by
        rw [UInt64.toNat_mul, UInt64.toNat_div, show pageSize.toNat = 4096 from rfl,
          show (UInt64.ofNat pagemapEntry).toNat = 8 from rfl]
        exact Nat.mod_eq_of_lt (by omega)
    _ = addr.toNat / 2 ^ 9 / 2 ^ 3 * 2 ^ 3 := by omega
    _ = addr.toNat / 2 ^ 9 &&& 2 ^ 3 * (2 ^ 61 - 1) := (and_high _ 3 61 (by omega)).symm
    _ = (gvaOffset addr).toNat := by
        unfold gvaOffset
        rw [UInt64.toNat_and, hmask, UInt64.toNat_shiftRight,
          show (9 : UInt64).toNat % 64 = 9 from rfl, Nat.shiftRight_eq_div_pow]

/-- There is an entry at the offset of the address. -/
structure HasEntry (file : PagemapFile) (addr : UInt64) : Prop where
  seekable : file.seekable (gvaOffset addr) = true
  length : (gvaOffset addr).toNat + 8 ≤ file.bytes.length

instance (file : PagemapFile) (addr : UInt64) : Decidable (HasEntry file addr) :=
  decidable_of_iff (file.seekable (gvaOffset addr) = true
    ∧ (gvaOffset addr).toNat + 8 ≤ file.bytes.length) ⟨fun h => ⟨h.1, h.2⟩, fun h => ⟨h.1, h.2⟩⟩

/-- The bytes of the entry. -/
def entryBytes (file : PagemapFile) (addr : UInt64) : List UInt8 :=
  (file.bytes.drop (gvaOffset addr).toNat).take 8

theorem length_entryBytes {file : PagemapFile} {addr : UInt64} (h : HasEntry file addr) :
    (entryBytes file addr).length = 8 := by
  unfold entryBytes
  rw [List.length_take, List.length_drop]
  have hlen := h.length
  omega

/-! ## Reading the entry -/

/-- The place in `c_buf` that the `i`-th byte goes to. -/
def slot (e : Endian) (i : Nat) : Nat := if isBigendian e then i else pagemapEntry - i - 1

theorem slot_ne {e : Endian} {i j : Nat} (hi : i < 8) (hj : j < 8) (hne : i ≠ j) :
    slot e i ≠ slot e j := by
  unfold slot pagemapEntry
  split <;> omega

/-- What the loop leaves in the buffer. The induction is on the turns that are left; the places
filled before are not written again. -/
theorem fillBuf_ok (e : Endian) {file : PagemapFile} {pos : Nat}
    (hlen : pos + 8 ≤ file.bytes.length) (n i : Nat) (cBuf : Nat → UInt8) (out : List Line)
    (hn : i + n = 8) :
    ∃ cBuf' bytes, fillBuf e file pos n i cBuf out = .ok (cBuf', out ++ bytes)
      ∧ (∀ l ∈ bytes, ∃ j c, l = Line.byte j c)
      ∧ (∀ j < i, cBuf' (slot e j) = cBuf (slot e j))
      ∧ ∀ j, i ≤ j → j < 8 → file.bytes[pos + j]? = some (cBuf' (slot e j)) := by
  induction n generalizing i cBuf out with
  | zero =>
      refine ⟨cBuf, [], by rw [List.append_nil]; rfl, by simp, fun _ _ => rfl, ?_⟩
      intro j hij hj
      omega
  | succ n ih =>
      have hi : pos + i < file.bytes.length := by omega
      obtain ⟨c, hc⟩ : ∃ c, file.bytes[pos + i]? = some c :=
        ⟨_, List.getElem?_eq_getElem hi⟩
      obtain ⟨cBuf', bytes, hfill, hbytes, hold, hnew⟩ :=
        ih (i + 1) (Function.update cBuf (slot e i) c) (out ++ [.byte i c]) (by omega)
      refine ⟨cBuf', .byte i c :: bytes, ?_, ?_, ?_, ?_⟩
      · unfold fillBuf
        rw [hc]
        dsimp only
        rw [show (if isBigendian e then i else pagemapEntry - i - 1) = slot e i from rfl, hfill,
          List.append_assoc, List.singleton_append]
      · intro l hl
        rcases List.mem_cons.mp hl with rfl | hl
        · exact ⟨i, c, rfl⟩
        · exact hbytes l hl
      · intro j hj
        rw [hold j (by omega), Function.update_of_ne (slot_ne (by omega) (by omega) (by omega))]
      · intro j hij hj
        rcases Nat.eq_or_lt_of_le hij with rfl | hlt
        · rw [hold i (by omega), Function.update_self, hc]
        · exact hnew j hlt hj

theorem isBigendian_little : isBigendian .little = false := by decide

theorem isBigendian_big : isBigendian .big = true := by decide

/-- The buffer, read from its start, is the entry with its most significant byte first. -/
theorem map_slots {e : Endian} {file : PagemapFile} {addr : UInt64} (h : HasEntry file addr)
    {cBuf : Nat → UInt8}
    (hbuf : ∀ j < 8, file.bytes[(gvaOffset addr).toNat + j]? = some (cBuf (slot e j))) :
    e.value (entryBytes file addr) = Endian.big.value ((List.range 8).map cBuf) := by
  have hentry : ∀ j < 8, (entryBytes file addr)[j]? = some (cBuf (slot e j)) := by
    intro j hj
    unfold entryBytes
    rw [List.getElem?_take_of_lt hj, List.getElem?_drop, hbuf j hj]
  have hlen := length_entryBytes h
  cases e with
  | big =>
      congr 1
      apply List.ext_getElem?
      intro j
      by_cases hj : j < 8
      · rw [hentry j hj, List.getElem?_map, List.getElem?_range hj]
        simp [slot, isBigendian_big]
      · rw [List.getElem?_eq_none (by omega), List.getElem?_eq_none (by simp; omega)]
  | little =>
      rw [Endian.value_little]
      congr 1
      apply List.ext_getElem?
      intro j
      by_cases hj : j < 8
      · rw [List.getElem?_reverse (by omega), hlen, hentry _ (by omega), List.getElem?_map,
          List.getElem?_range hj]
        have hslot : slot .little (8 - 1 - j) = j := by
          simp only [slot, isBigendian_little, pagemapEntry]
          simp only [Bool.false_eq_true, if_false]
          omega
        rw [hslot, Option.map_some]
      · rw [List.getElem?_eq_none (by simp; omega), List.getElem?_eq_none (by simp; omega)]

theorem assemble_eq (cBuf : Nat → UInt8) :
    assemble cBuf = UInt64.ofNat (Endian.big.value ((List.range 8).map cBuf)) := by
  have hloop : assemble cBuf = shiftIn 0 ((List.range 8).map cBuf) := List.foldl_map.symm
  rw [hloop, shiftIn_eq, UInt64.toNat_zero, Nat.zero_mul, Nat.zero_add]

/-- The read of `gva_to_gfn` is not short. -/
theorem gvaPme_eq (e : Endian) {file : PagemapFile} {addr : UInt64} (h : HasEntry file addr)
    (pos : Nat) (pme : Vector UInt8 8) :
    gvaPme e ⟨file, pos⟩ pme addr = UInt64.ofNat (e.value (entryBytes file addr)) := by
  have hgot : (Fd.lseek ⟨file, pos⟩ (gvaOffset addr)).read 8 = entryBytes file addr := by
    unfold Fd.lseek Fd.read
    rw [if_pos h.seekable]
    rfl
  have hrest : pme.toList.drop (entryBytes file addr).length = [] := by
    rw [length_entryBytes h]
    apply List.drop_of_length_le
    simp
  unfold gvaPme
  rw [hgot]
  dsimp only
  rw [hrest, List.append_nil]

/-- **One entry.** The whole run of `read_pagemap`, when there is an entry: it ends in the lines
about the entry that `gva_to_gfn` reads. -/
theorem readPagemap_eq (e : Endian) (g : Globals) (cBuf : Nat → UInt8) (path : String)
    {file : PagemapFile} {addr : UInt64} (h : HasEntry file addr) (pos : Nat)
    (pme : Vector UInt8 8) :
    ∃ bytes : List Line, (∀ l ∈ bytes, ∃ j c, l = Line.byte j c) ∧
      readPagemap e pageSize g cBuf path (some file) addr
        = { ret := 0
            globals := ⟨gvaOffset addr, gvaPme e ⟨file, pos⟩ pme addr⟩
            lines := [.bigEndian (isBigendian e), .vaddr addr pageSize pagemapEntry,
                .reading path (gvaOffset addr)] ++ bytes
              ++ [.newline, .result (gvaPme e ⟨file, pos⟩ pme addr)]
              ++ describe pageSize addr (gvaPme e ⟨file, pos⟩ pme addr) } := by
  obtain ⟨cBuf', bytes, hfill, hbytes, -, hbuf⟩ := fillBuf_ok e h.length 8 0 cBuf
    [.bigEndian (isBigendian e), .vaddr addr pageSize pagemapEntry,
      .reading path (gvaOffset addr)] rfl
  have hpme : assemble cBuf' = gvaPme e ⟨file, pos⟩ pme addr := by
    rw [assemble_eq, gvaPme_eq e h, map_slots h fun j hj => hbuf j (Nat.zero_le j) hj]
  refine ⟨bytes, hbytes, ?_⟩
  unfold readPagemap
  dsimp only
  rw [offset_eq, h.seekable, Bool.not_true, if_neg Bool.false_ne_true]
  rw [show pagemapEntry = 8 from rfl] at hfill ⊢
  rw [List.singleton_append, hfill]
  dsimp only
  rw [hpme]

/-! ## What the entry says -/

/-- **One presence bit.** -/
theorem getBit_present (entry : UInt64) : getBit entry 63 = 0 ↔ entry &&& pfnPresent = 0 := by
  have hbit : (1 : UInt64) <<< 63 = pfnPresent := rfl
  have hpow : pfnPresent.toNat = 2 ^ 63 := by decide
  unfold getBit
  rw [hbit, ← UInt64.toNat_inj, ← UInt64.toNat_inj, UInt64.toNat_shiftRight, UInt64.toNat_and,
    hpow, show (63 : UInt64).toNat % 64 = 63 from rfl, UInt64.toNat_zero,
    Nat.shiftRight_eq_div_pow, Nat.and_two_pow]
  cases entry.toNat.testBit 63 <;> decide

theorem getPfn_eq (entry : UInt64) : getPfn entry = entry &&& pfnPfn := rfl

/-- A frame number has 55 bits, so that `-1` is none. -/
theorem and_pfnPfn_ne (entry : UInt64) : entry &&& pfnPfn ≠ -1 := by
  intro heq
  have hmask : pfnPfn = UInt64.ofNat (2 ^ 55 - 1) := by decide
  have hlow := toNat_and_low entry 55 (by decide)
  rw [← hmask, heq, show (-1 : UInt64).toNat = 2 ^ 64 - 1 by decide] at hlow
  omega

theorem gvaToGfn_eq_iff (e : Endian) (fd : Fd) (pme : Vector UInt8 8) (addr : UInt64) :
    gvaToGfn e fd pme addr = -1 ↔ getBit (gvaPme e fd pme addr) 63 = 0 := by
  unfold gvaToGfn
  dsimp only
  rw [getBit_present]
  split
  · next habsent => exact iff_of_true rfl habsent
  · next hpresent => exact iff_of_false (and_pfnPfn_ne _) hpresent

theorem gvaToGfn_of_present {e : Endian} {fd : Fd} {pme : Vector UInt8 8} {addr : UInt64}
    (h : getBit (gvaPme e fd pme addr) 63 ≠ 0) :
    gvaToGfn e fd pme addr = getPfn (gvaPme e fd pme addr) := by
  rw [Ne, getBit_present] at h
  unfold gvaToGfn
  dsimp only
  rw [if_neg h, getPfn_eq]

/-- The offset in the page is below the 32 bits that `page_offset` is given. -/
theorem toNat_pageOffset (addr : UInt64) :
    (pageOffset addr.toUInt32).toUInt64 = addr % pageSize := by
  apply UInt64.toNat_inj.mp
  unfold pageOffset
  rw [UInt32.toNat_toUInt64, UInt32.toNat_and, UInt64.toNat_toUInt32, UInt64.toNat_mod,
    show ((1 <<< UInt32.ofNat pageShift) - 1 : UInt32).toNat = 2 ^ 12 - 1 by decide,
    show pageSize.toNat = 2 ^ 12 by decide, Nat.and_two_pow_sub_one_eq_mod]
  omega

/-- **One physical address**, modulo `2 ^ 64`. -/
theorem physical_eq (gfn addr : UInt64) :
    gfn * pageSize + addr % pageSize
      = (gfn <<< UInt64.ofNat pageShift) ||| (pageOffset addr.toUInt32).toUInt64 := by
  have hlow : (addr % pageSize).toNat < 2 ^ 12 := by
    rw [UInt64.toNat_mod, show pageSize.toNat = 2 ^ 12 by decide]
    exact Nat.mod_lt _ (by decide)
  rw [toNat_pageOffset, shiftLeft_or gfn _ (k := pageShift) (by decide) hlow]
  rfl

theorem gvaToGpa_of_present {e : Endian} {fd : Fd} {pme : Vector UInt8 8} {addr : UInt64}
    (h : getBit (gvaPme e fd pme addr) 63 ≠ 0) :
    gvaToGpa e fd pme addr
      = some (getPfn (gvaPme e fd pme addr) * pageSize + addr % pageSize) := by
  have hne : gvaToGfn e fd pme addr ≠ -1 := (gvaToGfn_eq_iff e fd pme addr).not.mpr h
  unfold gvaToGpa
  dsimp only
  rw [if_neg hne, gvaToGfn_of_present h, physical_eq]

theorem notPresent_mem_describe (pageSize addr entry : UInt64) :
    Line.notPresent ∈ describe pageSize addr entry ↔ getBit entry 63 = 0 := by
  unfold describe
  dsimp only
  by_cases hpresent : getBit entry 63 = 0
  · simp [hpresent]
  · by_cases hswapped : getBit entry 62 = 0 <;> simp [hpresent, hswapped]

theorem pfn_mem_describe (pageSize addr entry pfn phys : UInt64) :
    Line.pfn pfn phys ∈ describe pageSize addr entry
      ↔ getBit entry 63 ≠ 0 ∧ pfn = getPfn entry
        ∧ phys = getPfn entry * pageSize + addr % pageSize := by
  unfold describe
  dsimp only
  by_cases hpresent : getBit entry 63 = 0
  · by_cases hswapped : getBit entry 62 = 0 <;> simp [hpresent, hswapped]
  · by_cases hswapped : getBit entry 62 = 0 <;> simp [hpresent, hswapped]

/-! ## The two translators -/

/-- The two kinds of lines that are about the page. -/
def Line.IsVerdict (l : Line) : Prop := l = .notPresent ∨ ∃ pfn phys, l = .pfn pfn phys

/-- What `read_pagemap` prints before the entry is not about the page. -/
theorem verdict_mem_readPagemap (e : Endian) (g : Globals) (cBuf : Nat → UInt8) (path : String)
    {file : PagemapFile} {addr : UInt64} (h : HasEntry file addr) (pos : Nat)
    (pme : Vector UInt8 8) {l : Line} (hl : l.IsVerdict) :
    l ∈ (readPagemap e pageSize g cBuf path (some file) addr).lines
      ↔ l ∈ describe pageSize addr (gvaPme e ⟨file, pos⟩ pme addr) := by
  obtain ⟨bytes, hbytes, hr⟩ := readPagemap_eq e g cBuf path h pos pme
  rw [hr]
  constructor
  · intro hmem
    simp only [List.mem_append, List.mem_cons, List.not_mem_nil, or_false] at hmem
    rcases hmem with (((rfl | rfl | rfl) | hmem) | (rfl | rfl)) | hmem
    case mp.inl.inl.inr =>
      obtain ⟨j, c, rfl⟩ := hbytes l hmem
      simp [Line.IsVerdict] at hl
    case mp.inr => exact hmem
    all_goals simp [Line.IsVerdict] at hl
  · exact List.mem_append_right _

/-- **The two translators agree.** On hosts of either byte order with pages of 4096 bytes, for
every address whose entry is in the file: they go to the same offset and get the same entry, one
says that the page is not present when the other does, and otherwise they find the same frame and
the same physical address. -/
theorem translators_agree (e : Endian) (g : Globals) (cBuf : Nat → UInt8) (path : String)
    (file : PagemapFile) (pos : Nat) (pme : Vector UInt8 8) (addr : UInt64)
    (h : HasEntry file addr) :
    let r := readPagemap e pageSize g cBuf path (some file) addr
    r.globals.fileOffset = gvaOffset addr
      ∧ r.globals.readVal = gvaPme e ⟨file, pos⟩ pme addr
      ∧ (Line.notPresent ∈ r.lines ↔ gvaToGfn e ⟨file, pos⟩ pme addr = -1)
      ∧ ((∃ pfn phys, Line.pfn pfn phys ∈ r.lines) ↔ gvaToGfn e ⟨file, pos⟩ pme addr ≠ -1)
      ∧ ∀ pfn phys, Line.pfn pfn phys ∈ r.lines →
          gvaToGfn e ⟨file, pos⟩ pme addr = pfn ∧ gvaToGpa e ⟨file, pos⟩ pme addr = some phys := by
  intro r
  obtain ⟨bytes, -, hr⟩ := readPagemap_eq e g cBuf path h pos pme
  have habsent : Line.notPresent ∈ r.lines ↔ getBit (gvaPme e ⟨file, pos⟩ pme addr) 63 = 0 :=
    (verdict_mem_readPagemap e g cBuf path h pos pme (.inl rfl)).trans (notPresent_mem_describe _ _ _)
  have hpresent : ∀ pfn phys, Line.pfn pfn phys ∈ r.lines
      ↔ getBit (gvaPme e ⟨file, pos⟩ pme addr) 63 ≠ 0
        ∧ pfn = getPfn (gvaPme e ⟨file, pos⟩ pme addr)
        ∧ phys = getPfn (gvaPme e ⟨file, pos⟩ pme addr) * pageSize + addr % pageSize :=
    fun pfn phys => (verdict_mem_readPagemap e g cBuf path h pos pme (.inr ⟨pfn, phys, rfl⟩)).trans
      (pfn_mem_describe _ _ _ _ _)
  refine ⟨by rw [show r = _ from hr], by rw [show r = _ from hr], ?_, ?_, ?_⟩
  · rw [habsent, gvaToGfn_eq_iff]
  · rw [Ne, gvaToGfn_eq_iff]
    constructor
    · rintro ⟨pfn, phys, hl⟩
      exact ((hpresent pfn phys).mp hl).1
    · intro hbit
      exact ⟨_, _, (hpresent _ _).mpr ⟨hbit, rfl, rfl⟩⟩
  · intro pfn phys hl
    obtain ⟨hbit, rfl, rfl⟩ := (hpresent pfn phys).mp hl
    exact ⟨gvaToGfn_of_present hbit, gvaToGpa_of_present hbit⟩

/-- Page 1 is in frame 0x55; page 0 is not present. -/
def twoPages : PagemapFile where
  bytes := [0, 0, 0, 0, 0, 0, 0, 0, 0x55, 0, 0, 0, 0, 0, 0, 0x80]
  seekable := fun _ => true

theorem translators_agree_twoPages :
    HasEntry twoPages 0x1234 ∧
      (readPagemap .little pageSize ⟨0, 0⟩ (fun _ => 0) "/proc/self/pagemap" (some twoPages)
          0x1234).globals.readVal
        = gvaPme .little ⟨twoPages, 0⟩ (Vector.replicate 8 0) 0x1234 :=
  ⟨by decide, (translators_agree .little _ _ _ twoPages 0 _ 0x1234 (by decide)).2.1⟩

example : gvaToGpa .little ⟨twoPages, 0⟩ (Vector.replicate 8 0) 0x1234 = some 0x55234 := by
  decide

end UioLinuxSample.Pagemap
