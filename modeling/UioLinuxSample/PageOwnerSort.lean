import Mathlib.Data.BitVec
import Mathlib.Data.List.TakeWhile
import UioLinuxSample.Lib.Runs

set_option autoImplicit false

/-! # Counting the page owners (`page_owner_sort.c`)

The kernel prints a record for every page: some lines, one of which starts with `PFN`, and an empty line.
The program drops the `PFN` lines, counts how many times each of the remaining texts occurs, and prints
the texts with the most frequent first. To do so it sorts the blocks by their text, merges equal
neighbours and sorts again by the counts.

`qsort` may leave elements that compare equal in any order, so its result is any list that `IsQsort`
admits. The counters of the program are `int`s; `main_counts` has the bounds under which they do not
overflow.
-/

namespace UioLinuxSample.PageOwnerSort

open Runs

abbrev Text := List UInt8

def newline : UInt8 := 10

def nul : UInt8 := 0

/-- The bytes of a string of the source. -/
def bytes (s : String) : Text := s.toList.map fun c => c.toNat.toUInt8

/-- An element of `list`: its `txt` is the key, its `len` is the length of that, and `num` is an `int`. -/
abbrev Block := Counted Text (BitVec 32)

def bufSize : ℕ := 128 * 1024

/-! ## Reading -/

/-- The bytes up to and including the next newline, but not more than `n`, and what is left. -/
def takeLine : ℕ → Text → Text × Text
  | 0, fin => ([], fin)
  | _ + 1, [] => ([], [])
  | n + 1, c :: fin =>
      if c = newline then ([c], fin)
      else
        let (line, rest) := takeLine n fin
        (c :: line, rest)

theorem takeLine_length (n : ℕ) (fin : Text) :
    (takeLine n fin).1.length + (takeLine n fin).2.length = fin.length := by
  induction n generalizing fin with
  | zero => simp [takeLine]
  | succ n ih =>
      cases fin with
      | nil => rfl
      | cons c fin =>
          rw [takeLine]
          split
          · simp [Nat.add_comm]
          · have := ih fin
            simp only [List.length_cons]
            omega

theorem length_rest_lt {n : ℕ} {fin line rest : Text} {c : UInt8}
    (h : takeLine n fin = (c :: line, rest)) : rest.length < fin.length := by
  have hlen := takeLine_length n fin
  simp only [h, List.length_cons] at hlen
  omega

/-- What a C string has of these bytes: `strlen` ends at the first NUL. -/
def cString (s : Text) : Text := s.takeWhile (· ≠ nul)

/-- The block that is read, if there is one, and what is left of the file. `curr` is the text already in
the buffer of `size` bytes; `fgets` needs space for a byte and the terminator. The next line is read to
where `strlen` ends, so the rest of a line with a NUL is overwritten. -/
def readBlock (size : ℕ) (curr fin : Text) : Option Text × Text :=
  if size - curr.length > 1 then
    match _h : takeLine (size - curr.length - 1) fin with
    | ([], rest) => (none, rest)
    | (c :: line, rest) =>
        if c = newline then (some curr, rest)
        else if (bytes "PFN").isPrefixOf (c :: line) then readBlock size curr rest
        else readBlock size (curr ++ cString (c :: line)) rest
  else (none, fin)
termination_by fin.length
decreasing_by all_goals exact length_rest_lt _h

theorem length_readBlock_lt {size : ℕ} {curr fin txt rest : Text}
    (h : readBlock size curr fin = (some txt, rest)) : rest.length < fin.length := by
  fun_induction readBlock size curr fin with
  | case1 => cases h
  | case2 curr fin hspace line rest' hline =>
      cases h
      exact length_rest_lt hline
  | case3 curr fin hspace c line rest' hline hc hpfn ih => exact (ih h).trans (length_rest_lt hline)
  | case4 curr fin hspace c line rest' hline hc hpfn ih => exact (ih h).trans (length_rest_lt hline)
  | case5 => cases h

theorem readBlock_of_takeLine {size : ℕ} {curr fin line rest : Text} {c : UInt8}
    (hspace : size - curr.length > 1)
    (h : takeLine (size - curr.length - 1) fin = (c :: line, rest)) :
    readBlock size curr fin =
      if c = newline then (some curr, rest)
      else if (bytes "PFN").isPrefixOf (c :: line) then readBlock size curr rest
      else readBlock size (curr ++ cString (c :: line)) rest := by
  rw [readBlock, if_pos hspace]
  split
  · next heq => cases h.symm.trans heq
  · next heq =>
      cases h.symm.trans heq
      rfl

/-- The blocks `main` reads, until `read_block` fails. -/
def readBlocks (size : ℕ) (fin : Text) : List Text :=
  match _h : readBlock size [] fin with
  | (some txt, rest) => txt :: readBlocks size rest
  | (none, _) => []
termination_by fin.length
decreasing_by exact length_readBlock_lt _h

/-! ## Counting -/

/-- The program ends with an error when the list is full. -/
def newBlock (maxSize : BitVec 32) (list : List Block) (buf : Text) : Option (List Block) :=
  if (list.length : BitVec 32) = maxSize then none else some (list ++ [⟨buf, 1⟩])

def addList (maxSize : BitVec 32) (list : List Block) (buf : Text) : Option (List Block) :=
  match list.getLast? with
  | some last =>
      if buf = last.key then some (list.dropLast ++ [{ last with num := last.num + 1 }])
      else newBlock maxSize list buf
  | none => newBlock maxSize list buf

/-- `max_size`, which is an `int`; the length of the file is its `st_size`. -/
def maxSize (fin : Text) : BitVec 32 := (fin.length / 100 : ℕ)

def load (fin : Text) : Option (List Block) :=
  (readBlocks bufSize fin).foldlM (addList (maxSize fin)) []

/-- Bytes are compared as `unsigned char`, and the terminator is below every one of a block. -/
def strcmp : Text → Text → ℤ
  | [], [] => 0
  | [], _ :: _ => -1
  | _ :: _, [] => 1
  | c :: cs, d :: ds => if c = d then strcmp cs ds else (c.toNat : ℤ) - d.toNat

def compareTxt (l1 l2 : Block) : ℤ := strcmp l1.key l2.key

def compareNum (l1 l2 : Block) : ℤ := (l2.num - l1.num).toInt

/-- `sorted` is a possible result of `qsort` on `list`. -/
def IsQsort (compare : Block → Block → ℤ) (list sorted : List Block) : Prop :=
  sorted.Perm list ∧ sorted.Pairwise fun a b => compare a b ≤ 0

/-- One turn of the loop that culls. -/
def cullStep (list2 : List Block) (b : Block) : List Block :=
  match list2.getLast? with
  | some last =>
      if strcmp last.key b.key ≠ 0 then list2 ++ [b]
      else list2.dropLast ++ [{ last with num := last.num + b.num }]
  | none => list2 ++ [b]

def cull (list : List Block) : List Block := list.foldl cullStep []

/-- What is printed for an element of `list2`. -/
def report (b : Block) : Text :=
  bytes (toString b.num.toInt) ++ bytes " times:\n" ++ b.key ++ bytes "\n"

/-- `list2` is a possible result for the file `fin`, in the order in which it is printed. -/
def Counts (fin : Text) (list2 : List Block) : Prop :=
  ∃ list sorted, load fin = some list ∧ IsQsort compareTxt list sorted
    ∧ IsQsort compareNum (cull sorted) list2

/-- The program may print `fout` for the file `fin`. -/
def Main (fin fout : Text) : Prop := ∃ list2, Counts fin list2 ∧ fout = list2.flatMap report

/-! ## The loops merge neighbours -/

theorem strcmp_self (s : Text) : strcmp s s = 0 := by
  induction s with
  | nil => rfl
  | cons c s ih => rw [strcmp, if_pos rfl, ih]

theorem strcmp_cons_le_iff {c d : UInt8} {s t : Text} :
    strcmp (c :: s) (d :: t) ≤ 0 ↔ c.toNat < d.toNat ∨ c = d ∧ strcmp s t ≤ 0 := by
  rw [strcmp]
  split_ifs with h
  · simp [h]
  · have hne : c.toNat ≠ d.toNat := fun heq => h (UInt8.toNat_inj.1 heq)
    simp only [h, false_and, or_false]
    omega

theorem eq_of_strcmp {s t : Text} (h : strcmp s t ≤ 0) (h' : strcmp t s ≤ 0) : s = t := by
  induction s generalizing t with
  | nil =>
      cases t with
      | nil => rfl
      | cons d t => exact absurd h' (by simp [strcmp])
  | cons c s ih =>
      cases t with
      | nil => exact absurd h (by simp [strcmp])
      | cons d t =>
          rw [strcmp_cons_le_iff] at h h'
          rcases h with hlt | ⟨rfl, hle⟩ <;> rcases h' with hlt' | ⟨heq, hle'⟩
          · omega
          · exact absurd hlt (heq ▸ lt_irrefl _)
          · omega
          · rw [ih hle hle']

theorem strcmp_total (s t : Text) : strcmp s t ≤ 0 ∨ strcmp t s ≤ 0 := by
  induction s generalizing t with
  | nil => cases t <;> simp [strcmp]
  | cons c s ih =>
      cases t with
      | nil => simp [strcmp]
      | cons d t =>
          rw [strcmp_cons_le_iff, strcmp_cons_le_iff]
          rcases Nat.lt_trichotomy c.toNat d.toNat with hlt | heq | hgt
          · exact .inl (.inl hlt)
          · obtain rfl := UInt8.toNat_inj.1 heq
            exact (ih t).imp (fun h => .inr ⟨rfl, h⟩) (fun h => .inr ⟨rfl, h⟩)
          · exact .inr (.inl hgt)

theorem strcmp_trans {s t u : Text} (h : strcmp s t ≤ 0) (h' : strcmp t u ≤ 0) : strcmp s u ≤ 0 := by
  induction s generalizing t u with
  | nil => cases u <;> simp [strcmp]
  | cons c s ih =>
      cases t with
      | nil => exact absurd h (by simp [strcmp])
      | cons d t =>
          cases u with
          | nil => exact absurd h' (by simp [strcmp])
          | cons e u =>
              rw [strcmp_cons_le_iff] at h h' ⊢
              rcases h with hlt | ⟨rfl, hle⟩ <;> rcases h' with hlt' | ⟨rfl, hle'⟩
              · exact .inl (hlt.trans hlt')
              · exact .inl hlt
              · exact .inl hlt'
              · exact .inr ⟨rfl, ih hle hle'⟩

theorem strcmp_eq_zero_iff {s t : Text} : strcmp s t = 0 ↔ s = t := by
  refine ⟨fun h => ?_, fun h => h ▸ strcmp_self s⟩
  induction s generalizing t with
  | nil =>
      cases t with
      | nil => rfl
      | cons d t => simp [strcmp] at h
  | cons c s ih =>
      cases t with
      | nil => simp [strcmp] at h
      | cons d t =>
          rw [strcmp] at h
          split_ifs at h with hc
          · rw [hc, ih h]
          · exact absurd (UInt8.toNat_inj.1 (by omega)) hc

theorem cullStep_eq_addLast (list2 : List Block) (b : Block) : cullStep list2 b = addLast list2 b := by
  unfold cullStep addLast
  cases list2.getLast? with
  | none => rfl
  | some last =>
      dsimp only
      by_cases h : b.key = last.key
      · rw [if_pos h, if_neg (by simp [h, strcmp_self])]
      · rw [if_neg h, if_pos (fun hzero => h (strcmp_eq_zero_iff.1 hzero).symm)]

theorem cull_eq_collapse (list : List Block) : cull list = collapse list := by
  have hstep : cullStep = addLast := funext₂ cullStep_eq_addLast
  rw [cull, collapse, hstep]

theorem addList_eq_some {maxSize : BitVec 32} {list list' : List Block} {buf : Text}
    (h : addList maxSize list buf = some list') : list' = addLast list ⟨buf, 1⟩ := by
  unfold addList newBlock at h
  unfold addLast
  cases hlast : list.getLast? with
  | none =>
      rw [hlast] at h
      dsimp only at h ⊢
      split_ifs at h
      exact (Option.some.inj h).symm
  | some last =>
      rw [hlast] at h
      dsimp only at h ⊢
      split_ifs at h ⊢
      · exact (Option.some.inj h).symm
      · exact (Option.some.inj h).symm

theorem addList_of_ne {maxSize : BitVec 32} {list : List Block} (h : (list.length : BitVec 32) ≠ maxSize)
    (buf : Text) : addList maxSize list buf = some (addLast list ⟨buf, 1⟩) := by
  have hnew : newBlock maxSize list buf = some (list ++ [⟨buf, 1⟩]) := if_neg h
  unfold addList addLast
  rw [hnew]
  cases list.getLast? with
  | none => rfl
  | some last =>
      dsimp only
      split_ifs <;> rfl

/-- The list `main` loads: each run of equal blocks is one element. -/
theorem foldlM_addList {maxSize : BitVec 32} {list list' : List Block} {bufs : List Text}
    (h : bufs.foldlM (addList maxSize) list = some list') :
    list' = (bufs.map (⟨·, 1⟩)).foldl addLast list := by
  induction bufs generalizing list with
  | nil => exact (Option.some.inj h).symm
  | cons buf bufs ih =>
      rw [List.foldlM_cons, Option.bind_eq_bind, Option.bind_eq_some_iff] at h
      obtain ⟨next, hnext, hrest⟩ := h
      rw [ih hrest, addList_eq_some hnext]
      rfl

theorem natCast_ne {m n : ℕ} (h : m < n) (hn : n < 2 ^ 31) : (m : BitVec 32) ≠ (n : BitVec 32) := by
  intro heq
  have hnat := congrArg BitVec.toNat heq
  simp only [BitVec.natCast_eq_ofNat, BitVec.toNat_ofNat] at hnat
  omega

theorem exists_foldlM_addList {size : ℕ} (hsize : size < 2 ^ 31) {list : List Block} {bufs : List Text}
    (h : list.length + bufs.length ≤ size) : ∃ list', bufs.foldlM (addList size) list = some list' := by
  induction bufs generalizing list with
  | nil => exact ⟨list, rfl⟩
  | cons buf bufs ih =>
      rw [List.length_cons] at h
      have hlen := length_addLast_le list ⟨buf, 1⟩
      have hfits : (addLast list ⟨buf, 1⟩).length + bufs.length ≤ size := by omega
      obtain ⟨list', hlist'⟩ := ih hfits
      exact ⟨list', by rw [List.foldlM_cons, addList_of_ne (natCast_ne (by omega) hsize)]; exact hlist'⟩

theorem load_eq_some {fin : Text} {list : List Block} (h : load fin = some list) :
    list = collapse ((readBlocks bufSize fin).map (⟨·, 1⟩)) :=
  foldlM_addList h

/-! ## Sorting -/

/-- There is a result of `qsort` when, on the list, the comparison is that of a total order. -/
theorem exists_isQsort {compare : Block → Block → ℤ} {list : List Block} (le : Block → Block → Bool)
    (htrans : ∀ a b c, le a b → le b c → le a c) (htotal : ∀ a b, le a b || le b a)
    (hle : ∀ a ∈ list, ∀ b ∈ list, le a b → compare a b ≤ 0) : ∃ sorted, IsQsort compare list sorted := by
  have hperm := List.mergeSort_perm list le
  refine ⟨list.mergeSort le, hperm, ?_⟩
  refine (List.pairwise_mergeSort htrans htotal list).imp_of_mem fun ha hb hab => ?_
  exact hle _ (hperm.mem_iff.1 ha) _ (hperm.mem_iff.1 hb) hab

theorem exists_isQsort_txt (list : List Block) : ∃ sorted, IsQsort compareTxt list sorted := by
  refine exists_isQsort (fun a b => compareTxt a b ≤ 0) ?_ ?_ ?_
  · intro a b c hab hbc
    rw [decide_eq_true_iff] at hab hbc ⊢
    exact strcmp_trans hab hbc
  · intro a b
    rw [Bool.or_eq_true, decide_eq_true_iff, decide_eq_true_iff]
    exact strcmp_total a.key b.key
  · intro a _ b _ hab
    simpa using hab

/-- The difference of two counters that are not negative does not overflow. -/
theorem compareNum_le_iff {a b : Block} (ha : a.num.toNat < 2 ^ 31) (hb : b.num.toNat < 2 ^ 31) :
    compareNum a b ≤ 0 ↔ b.num.toNat ≤ a.num.toNat := by
  have hdiff : compareNum a b = (b.num.toNat : ℤ) - a.num.toNat := by
    rw [compareNum, BitVec.toInt_sub, BitVec.toInt_eq_toNat_of_lt (by omega),
      BitVec.toInt_eq_toNat_of_lt (by omega)]
    exact Int.bmod_eq_of_le (by omega) (by omega)
  rw [hdiff]
  omega

theorem exists_isQsort_num {list : List Block} (h : ∀ b ∈ list, b.num.toNat < 2 ^ 31) :
    ∃ sorted, IsQsort compareNum list sorted := by
  refine exists_isQsort (fun a b => b.num.toNat ≤ a.num.toNat) ?_ ?_ ?_
  · intro a b c hab hbc
    rw [decide_eq_true_iff] at hab hbc ⊢
    exact hbc.trans hab
  · intro a b
    simpa using Nat.le_total b.num.toNat a.num.toNat
  · intro a ha b hb hab
    exact (compareNum_le_iff (h a ha) (h b hb)).2 (by simpa using hab)

/-- Each text that was read is listed once, with the number of times it was read. -/
structure Tallies (blocks : List Text) (list2 : List Block) : Prop where
  nodup : (keys list2).Nodup
  mem_iff : ∀ t, t ∈ keys list2 ↔ t ∈ blocks
  num : ∀ b ∈ list2, b.num = (blocks.count b.key : BitVec 32)

theorem Tallies.perm {blocks : List Text} {list2 list2' : List Block} (h : Tallies blocks list2)
    (hperm : list2'.Perm list2) : Tallies blocks list2' := by
  have hkeys : (keys list2').Perm (keys list2) := hperm.map _
  refine ⟨hkeys.nodup_iff.2 h.nodup, fun t => ?_, fun b hb => h.num b (hperm.mem_iff.1 hb)⟩
  rw [hkeys.mem_iff, h.mem_iff]

theorem tallies_cull {blocks : List Text} {sorted : List Block}
    (h : IsQsort compareTxt (collapse (blocks.map (⟨·, 1⟩))) sorted) : Tallies blocks (cull sorted) := by
  obtain ⟨hperm, hsorted⟩ := h
  have hkeys : (keys sorted).Perm (keys (collapse _)) := hperm.map _
  have hnodup : (keys (collapse sorted)).Nodup :=
    nodup_collapse (fun _ _ => eq_of_strcmp) (List.pairwise_map.2 hsorted)
  rw [cull_eq_collapse]
  refine ⟨hnodup, fun t => ?_, fun b hb => ?_⟩
  · rw [mem_keys_collapse, hkeys.mem_iff, mem_keys_collapse]
    simp [keys]
  · calc b.num = weight b.key (collapse sorted) := num_eq_weight hnodup hb
      _ = weight b.key (blocks.map (⟨·, 1⟩)) := by
          rw [weight_collapse, weight_perm b.key hperm, weight_collapse]
      _ = blocks.count b.key := weight_map_one b.key blocks

/-- The counters do not overflow, as there are less than `2 ^ 31` blocks. -/
theorem Tallies.toNat {blocks : List Text} {list2 : List Block} (h : Tallies blocks list2)
    (hblocks : blocks.length < 2 ^ 31) {b : Block} (hb : b ∈ list2) :
    b.num.toNat = blocks.count b.key := by
  have hcount := blocks.count_le_length (a := b.key)
  rw [h.num b hb, BitVec.natCast_eq_ofNat, BitVec.toNat_ofNat, Nat.mod_eq_of_lt (by omega)]

theorem Tallies.lt {blocks : List Text} {list2 : List Block} (h : Tallies blocks list2)
    (hblocks : blocks.length < 2 ^ 31) {b : Block} (hb : b ∈ list2) : b.num.toNat < 2 ^ 31 := by
  rw [h.toNat hblocks hb]
  exact (blocks.count_le_length (a := b.key)).trans_lt hblocks

theorem exists_counts {fin : Text} (hblocks : (readBlocks bufSize fin).length < 2 ^ 31) {list : List Block}
    (h : load fin = some list) : ∃ list2, Counts fin list2 := by
  obtain ⟨sorted, hsorted⟩ := exists_isQsort_txt list
  have htallies : Tallies (readBlocks bufSize fin) (cull sorted) := tallies_cull (load_eq_some h ▸ hsorted)
  obtain ⟨list2, hlist2⟩ := exists_isQsort_num fun b hb => htallies.lt hblocks hb
  exact ⟨list2, list, sorted, h, hsorted, hlist2⟩

/-- `order` has each of the texts once, the more frequent ones first. -/
structure Ranking (texts order : List Text) : Prop where
  nodup : order.Nodup
  mem_iff : ∀ t, t ∈ order ↔ t ∈ texts
  sorted : order.Pairwise fun s t => texts.count t ≤ texts.count s

theorem Counts.ranking {fin : Text} (hblocks : (readBlocks bufSize fin).length < 2 ^ 31)
    {list2 : List Block} (h : Counts fin list2) :
    Tallies (readBlocks bufSize fin) list2 ∧ Ranking (readBlocks bufSize fin) (keys list2) := by
  obtain ⟨list, sorted, hload, hsorted, hperm, hnum⟩ := h
  have htallies := (tallies_cull (load_eq_some hload ▸ hsorted)).perm hperm
  refine ⟨htallies, htallies.nodup, htallies.mem_iff, List.pairwise_map.2 ?_⟩
  refine hnum.imp_of_mem fun ha hb hab => ?_
  rw [compareNum_le_iff (htallies.lt hblocks ha) (htallies.lt hblocks hb)] at hab
  rwa [htallies.toNat hblocks ha, htallies.toNat hblocks hb] at hab

/-- An entry is printed with the number of times its text was read. -/
theorem Tallies.report_eq {blocks : List Text} {list2 : List Block} (h : Tallies blocks list2)
    (hblocks : blocks.length < 2 ^ 31) {b : Block} (hb : b ∈ list2) :
    report b = bytes (toString (blocks.count b.key)) ++ bytes " times:\n" ++ b.key ++ bytes "\n" := by
  have hlt := h.lt hblocks hb
  rw [report, BitVec.toInt_eq_toNat_of_lt (by omega), h.toNat hblocks hb]
  rfl

/-! ## The format -/

/-- The text of a record: its lines, and an empty one. -/
def rendered (lines : List Text) : Text := lines.flatMap (· ++ [newline]) ++ [newline]

abbrev IsLine (l : Text) : Prop := l ≠ [] ∧ newline ∉ l ∧ nul ∉ l

/-- A record of the file that fits into the buffer. -/
structure Record where
  lines : List Text
  line : ∀ l ∈ lines, IsLine l
  fits : (rendered lines).length < bufSize

def isPfn (l : Text) : Bool := (bytes "PFN").isPrefixOf l

/-- What is counted of a record. -/
def Record.txt (r : Record) : Text := (r.lines.filter (!isPfn ·)).flatMap (· ++ [newline])

def file (rs : List Record) : Text := rs.flatMap fun r => rendered r.lines

theorem takeLine_line {n : ℕ} {l : Text} (hl : newline ∉ l) (hn : l.length < n) (rest : Text) :
    takeLine n (l ++ newline :: rest) = (l ++ [newline], rest) := by
  induction l generalizing n with
  | nil =>
      obtain ⟨n, rfl⟩ := Nat.exists_eq_succ_of_ne_zero hn.ne_bot
      simp [takeLine]
  | cons c l ih =>
      rw [List.mem_cons, not_or] at hl
      obtain ⟨n, rfl⟩ := Nat.exists_eq_succ_of_ne_zero (Nat.ne_zero_of_lt hn)
      rw [List.cons_append, takeLine, if_neg (Ne.symm hl.1), ih hl.2 (by simpa using hn)]
      rfl

theorem isPfn_append_newline (l : Text) : isPfn (l ++ [newline]) = isPfn l := by
  rw [Bool.eq_iff_iff, isPfn, isPfn, List.isPrefixOf_iff_prefix, List.isPrefixOf_iff_prefix,
    List.prefix_concat_iff]
  refine or_iff_right fun h => ?_
  have hlast := congrArg List.getLast? h
  rw [List.getLast?_concat] at hlast
  exact absurd hlast (by decide)

theorem cString_line {l : Text} (h : nul ∉ l) : cString (l ++ [newline]) = l ++ [newline] := by
  have hne : newline ≠ nul := by decide
  rw [cString, List.takeWhile_eq_self_iff]
  intro c hc
  rcases List.mem_append.1 hc with hl | hlast
  · exact decide_eq_true fun hnul => h (hnul ▸ hl)
  · exact decide_eq_true (List.mem_singleton.1 hlast ▸ hne)

theorem readBlock_line {size : ℕ} {curr l : Text} (hl : IsLine l)
    (hfits : curr.length + l.length + 1 < size) (rest : Text) :
    readBlock size curr (l ++ newline :: rest) =
      readBlock size (if isPfn l then curr else curr ++ (l ++ [newline])) rest := by
  obtain ⟨hne, hnewline, hnul⟩ := hl
  obtain ⟨c, l, rfl⟩ := List.exists_cons_of_ne_nil hne
  have hc : c ≠ newline := fun h => hnewline (h ▸ List.mem_cons_self)
  have htake : takeLine (size - curr.length - 1) ((c :: l) ++ newline :: rest)
      = (c :: (l ++ [newline]), rest) := takeLine_line hnewline (by omega) rest
  have hpfn : (bytes "PFN").isPrefixOf (c :: (l ++ [newline])) = isPfn (c :: l) :=
    isPfn_append_newline (c :: l)
  have hwhole : cString (c :: (l ++ [newline])) = (c :: l) ++ [newline] := cString_line hnul
  rw [readBlock_of_takeLine (by omega) htake, if_neg hc, hpfn, hwhole]
  split <;> rfl

theorem readBlock_lines {size : ℕ} {lines : List Text} (hlines : ∀ l ∈ lines, IsLine l)
    {curr : Text} (hfits : curr.length + (rendered lines).length < size) (rest : Text) :
    readBlock size curr (rendered lines ++ rest) =
      (some (curr ++ (lines.filter (!isPfn ·)).flatMap (· ++ [newline])), rest) := by
  induction lines generalizing curr with
  | nil =>
      have hfits' : curr.length + 1 < size := hfits
      have htake : takeLine (size - curr.length - 1) (rendered [] ++ rest) = ([newline], rest) :=
        takeLine_line List.not_mem_nil (by simp; omega) rest
      rw [readBlock_of_takeLine (by omega) htake, if_pos rfl]
      simp
  | cons l lines ih =>
      have hsplit : rendered (l :: lines) ++ rest = l ++ newline :: (rendered lines ++ rest) := by
        simp [rendered]
      have hlen : (rendered (l :: lines)).length = l.length + 1 + (rendered lines).length := by
        simp [rendered]
        omega
      have hpos : 0 < (rendered lines).length := by simp [rendered]
      obtain ⟨hl, hrest⟩ := List.forall_mem_cons.1 hlines
      rw [hsplit, readBlock_line hl (by omega)]
      cases hpfn : isPfn l with
      | true =>
          have hfits' : curr.length + (rendered lines).length < size := by omega
          simpa [hpfn] using ih hrest hfits'
      | false =>
          have hfits' : (curr ++ (l ++ [newline])).length + (rendered lines).length < size := by
            simp only [List.length_append, List.length_singleton]
            omega
          simpa [hpfn] using ih hrest hfits'

theorem readBlocks_file (rs : List Record) : readBlocks bufSize (file rs) = rs.map Record.txt := by
  induction rs with
  | nil =>
      rw [readBlocks]
      split
      · next h => exact absurd (length_readBlock_lt h) (by simp [file])
      · rfl
  | cons r rs ih =>
      have hread : readBlock bufSize [] (file (r :: rs)) = (some r.txt, file rs) :=
        readBlock_lines r.line (by simpa using r.fits) (file rs)
      rw [readBlocks]
      split
      · next h =>
          cases hread.symm.trans h
          rw [ih]
          rfl
      · next h => cases hread.symm.trans h

theorem length_file (rs : List Record) (h : ∀ r ∈ rs, 100 ≤ (rendered r.lines).length) :
    100 * rs.length ≤ (file rs).length := by
  induction rs with
  | nil => exact Nat.zero_le _
  | cons r rs ih =>
      have hlen : (file (r :: rs)).length = (rendered r.lines).length + (file rs).length := by
        simp [file]
      have hr := h r List.mem_cons_self
      have hrs := ih fun r' hr' => h r' (List.mem_cons_of_mem r hr')
      rw [hlen, List.length_cons]
      omega

/-- **The program counts the records.** For a file of records that fit into the buffer, and less than
`2 ^ 31` of them, whatever order `qsort` chooses, each text is printed once with the number of records that
have it, the most frequent first. The list is large enough, and there is something printed, if the records
have at least 100 bytes and `max_size` is an `int`. -/
theorem main_counts (rs : List Record) (hrs : rs.length < 2 ^ 31) :
    (∀ fout, Main (file rs) fout → ∃ order, Ranking (rs.map Record.txt) order
        ∧ fout = order.flatMap fun t =>
            bytes (toString ((rs.map Record.txt).count t)) ++ bytes " times:\n" ++ t ++ bytes "\n")
      ∧ ((∀ r ∈ rs, 100 ≤ (rendered r.lines).length) → (file rs).length / 100 < 2 ^ 31 →
          ∃ fout, Main (file rs) fout) := by
  have hblocks : (readBlocks bufSize (file rs)).length < 2 ^ 31 := by
    rwa [readBlocks_file, List.length_map]
  constructor
  · rintro fout ⟨list2, hcounts, rfl⟩
    obtain ⟨htallies, hranking⟩ := hcounts.ranking hblocks
    rw [← readBlocks_file]
    refine ⟨keys list2, hranking, ?_⟩
    rw [keys, List.flatMap_map]
    exact List.flatMap_congr fun b hb => htallies.report_eq hblocks hb
  · intro hlong hsize
    have hlen := length_file rs hlong
    have hload : ∃ list, load (file rs) = some list := by
      apply exists_foldlM_addList hsize
      rw [readBlocks_file, List.length_nil, List.length_map, Nat.zero_add]
      omega
    obtain ⟨list, hlist⟩ := hload
    obtain ⟨list2, hlist2⟩ := exists_counts hblocks hlist
    exact ⟨_, list2, hlist2, rfl⟩

/-- Two pages with one owner, and between them a page with another. -/
def samplePages : List Record :=
  [⟨[List.replicate 100 97, bytes "PFN 1"], by decide +kernel, by decide +kernel⟩,
    ⟨[List.replicate 100 98, bytes "PFN 2"], by decide +kernel, by decide +kernel⟩,
    ⟨[List.replicate 100 97, bytes "PFN 3"], by decide +kernel, by decide +kernel⟩]

theorem main_counts_sample :
    ∃ fout, Main (file samplePages) fout ∧ ∃ order, Ranking (samplePages.map Record.txt) order
      ∧ fout = order.flatMap (fun t =>
          bytes (toString ((samplePages.map Record.txt).count t)) ++ bytes " times:\n" ++ t ++ bytes "\n")
      ∧ (samplePages.map Record.txt).map (samplePages.map Record.txt).count = [2, 1, 2] := by
  obtain ⟨hall, hexists⟩ := main_counts samplePages (by decide +kernel)
  obtain ⟨fout, hfout⟩ := hexists (by decide +kernel) (by decide +kernel)
  obtain ⟨order, hranking, hprinted⟩ := hall fout hfout
  exact ⟨fout, hfout, order, hranking, hprinted, by decide +kernel⟩

/-- A line that has a NUL ends there: two records that differ only behind it are one text. -/
example : readBlocks bufSize [97, 0, 98, 10, 10, 97, 0, 99, 10, 10] = [[97], [97]] := by decide +kernel

end UioLinuxSample.PageOwnerSort
