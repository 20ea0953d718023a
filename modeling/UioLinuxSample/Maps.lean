import UioLinuxSample.Lib.Pattern
import UioLinuxSample.Lib.Hex
import UioLinuxSample.Lib.Tiling
import Mathlib.Data.List.TakeWhile

set_option autoImplicit false

/-! # `mem/maps.py`: the memory map of a process as a table

The script reads lines of `/proc/<pid>/maps` and makes a row for every mapping, a row for every gap
between two mappings, and a last row up to `0x80000000`. Lines that do not match are passed over. A
row has its bounds as texts: those of a mapping are copied from the line, and the start of a gap is
written by `"{:0>8x}".format(pre_end)`.

The script is one for Python 2, where a line read from a binary file is a string and `/` rounds
down. What it does with the table afterwards is not modelled.
-/

namespace UioLinuxSample.Maps

open Pattern Tiling

abbrev Text : Type := List Char

/-! ## The script -/

inductive PyError where
  | valueError
  | nameError
  deriving DecidableEq

/-- `n` times `.`. -/
def anyChars (n group : Nat) : List (Item Char) := List.replicate n (one (fun c => c ≠ '\n') group)

/-- `maps_line_fmt`: the groups are `start`, `end`, `permission`, `size`, `major`, `minor`, `handle`
and `filename`, from 1 to 8. -/
def mapsLineFmt : List (Item Char) :=
  anyChars 8 1 ++ literal ['-'] ++ anyChars 8 2 ++ literal [' '] ++ anyChars 4 3 ++ literal [' ']
    ++ anyChars 8 4 ++ literal [' '] ++ anyChars 2 5 ++ literal [':'] ++ anyChars 2 6 ++ literal [' ']
    ++ [Pattern.star (fun c => '0' ≤ c ∧ c ≤ '9') 7, Pattern.star (fun c => c = ' ') 0,
      Pattern.star (fun c => c ≠ '\n') 8]

/-- The groups that are used. -/
structure MapsLine where
  start : Text
  stop : Text
  permission : Text
  filename : Text
  deriving DecidableEq

/-- `re.match(maps_line_fmt, line)`. -/
def matchLine (line : Text) : Option MapsLine :=
  (matchAt mapsLineFmt line).map fun pieces =>
    { start := groupText mapsLineFmt pieces 1
      stop := groupText mapsLineFmt pieces 2
      permission := groupText mapsLineFmt pieces 3
      filename := groupText mapsLineFmt pieces 8 }

/-- White space of the C library. -/
def isSpace (c : Char) : Bool := c = ' ' || (9 ≤ c.toNat && c.toNat ≤ 13)

/-- `0x` in front of a digit is passed over. -/
def skip0x : Text → Text
  | '0' :: x :: d :: s => if (x = 'x' || x = 'X') && Hex.isDigit d then d :: s else '0' :: x :: d :: s
  | s => s

/-- What follows the sign. -/
def unsigned16 (s : Text) : Except PyError Nat :=
  let s := skip0x (s.dropWhile isSpace)
  let digits := s.takeWhile Hex.isDigit
  if digits = [] ∨ (s.dropWhile Hex.isDigit).any (fun c => !isSpace c) then .error .valueError
  else .ok (Hex.value digits)

/-- `int(s, 16)`. Blanks are allowed around the number, and after the sign. -/
def int16 (s : Text) : Except PyError Int :=
  match s.dropWhile isSpace with
  | '-' :: s => (unsigned16 s).map fun n => -n
  | '+' :: s => (unsigned16 s).map fun n => n
  | s => (unsigned16 s).map fun n => n

/-- `"{:0>8x}".format(n)`. -/
def format8x (n : Int) : Text :=
  if n < 0 then ('-' :: Hex.written n.natAbs).leftpad 8 '0' else Hex.padded 8 n.toNat

structure Row where
  start : Text
  stop : Text
  /-- `size(KB)`. -/
  size : Int
  filename : Text
  permission : Text
  deriving DecidableEq

structure State where
  preEnd : Int
  /-- `end` and `end_int`, once they are set. -/
  last : Option (Text × Int)
  mapsList : List Row

def State.init : State := ⟨0, none, []⟩

def notUsed : Text := "NOT USED".toList

def unknown : Text := "unknown".toList

def permissionText (permission : Text) : Text :=
  if permission = "---p".toList then "guard/thread stack".toList
  else if permission = "r--p".toList then "readonly var".toList
  else if permission = "rw-p".toList then "read/write var".toList
  else if permission = "r-xp".toList then "code".toList
  else if permission = "rwxp".toList then "heap/stack".toList
  else if permission = "rw-s".toList then "sharememory".toList
  else "unkown".toList

/-- The row for the gap before a mapping. -/
def gapRow (preEnd : Int) (m : MapsLine) (startInt : Int) : Row :=
  ⟨format8x preEnd, m.start, (startInt - preEnd) / 1024, notUsed, unknown⟩

def mappingRow (m : MapsLine) (startInt endInt : Int) : Row :=
  ⟨m.start, m.stop, (endInt - startInt) / 1024, m.filename, permissionText m.permission⟩

/-- A turn of the loop. -/
def State.readLine (s : State) (line : Text) : Except PyError State :=
  match matchLine line with
  | none => .ok s
  | some m => do
      let startInt ← int16 m.start
      let endInt ← int16 m.stop
      let rows := if s.preEnd ≠ startInt then s.mapsList ++ [gapRow s.preEnd m startInt] else s.mapsList
      .ok ⟨endInt, some (m.stop, endInt), rows ++ [mappingRow m startInt endInt]⟩

def mapsProcessEnd : Text := "80000000".toList

/-- `maps_list` for the lines of the file. -/
def mapsList (lines : List Text) : Except PyError (List Row) := do
  let s ← lines.foldlM State.readLine State.init
  match s.last with
  | none => .error .nameError
  | some (stop, endInt) =>
      let processEnd ← int16 mapsProcessEnd
      .ok (s.mapsList ++ [⟨stop, mapsProcessEnd, (processEnd - endInt) / 1024, notUsed, unknown⟩])

/-! ## Numbers -/

theorem not_isSpace_of_isDigit {c : Char} (h : Hex.isDigit c = true) : isSpace c = false := by
  have hlow := Hex.le_toNat_of_isDigit h
  have hne : c ≠ ' ' := by
    rintro rfl
    exact absurd hlow (by decide)
  simp only [isSpace, hne, decide_false, Bool.false_or, Bool.and_eq_false_iff, decide_eq_false_iff_not]
  omega

theorem dropWhile_isSpace {s : Text} (hs : ∀ c ∈ s, Hex.isDigit c = true) :
    s.dropWhile isSpace = s := by
  cases s with
  | nil => rfl
  | cons c s =>
      have hc := not_isSpace_of_isDigit (hs c List.mem_cons_self)
      rw [List.dropWhile_cons_of_neg (by simp [hc])]

theorem skip0x_eq_self {s : Text} (hs : ∀ c ∈ s, Hex.isDigit c = true) : skip0x s = s := by
  unfold skip0x
  split
  · next x d t =>
      have hx : ¬ (x = 'x' ∨ x = 'X') := by
        have hdigit := hs x (by simp)
        rintro (rfl | rfl)
        · exact absurd hdigit (by decide)
        · exact absurd hdigit (by decide)
      rw [if_neg (by simp [hx])]
  · rfl

theorem unsigned16_of_isDigit {s : Text} (hs : ∀ c ∈ s, Hex.isDigit c = true) (hne : s ≠ []) :
    unsigned16 s = .ok (Hex.value s) := by
  have htake : s.takeWhile Hex.isDigit = s := List.takeWhile_eq_self_iff.mpr hs
  have hdrop : s.dropWhile Hex.isDigit = [] := List.dropWhile_eq_nil_iff.mpr hs
  rw [unsigned16, dropWhile_isSpace hs, skip0x_eq_self hs]
  simp only [htake, hdrop, hne]
  rfl

/-- Digits are read as what they are. -/
theorem int16_of_isDigit {s : Text} (hs : ∀ c ∈ s, Hex.isDigit c = true) (hne : s ≠ []) :
    int16 s = .ok (Hex.value s : Int) := by
  rw [int16, dropWhile_isSpace hs]
  -- a sign is no digit
  split
  · exact absurd (hs '-' List.mem_cons_self) (by decide)
  · exact absurd (hs '+' List.mem_cons_self) (by decide)
  · rw [unsigned16_of_isDigit hs hne]
    rfl

theorem int16_format8x {n : Int} (h : 0 ≤ n) : int16 (format8x n) = .ok n := by
  have hne : Hex.padded 8 n.toNat ≠ [] := by
    rw [← List.length_pos_iff, Hex.padded, List.length_leftpad]
    omega
  rw [format8x, if_neg (by omega), int16_of_isDigit (fun c hc => Hex.isDigit_of_mem_padded hc) hne,
    Hex.value_padded, Int.toNat_of_nonneg h]

theorem int16_mapsProcessEnd : int16 mapsProcessEnd = .ok 0x80000000 := by
  decide +kernel

/-! ## Mappings -/

/-- A line that is parsed to page-aligned bounds. -/
structure Mapping where
  line : MapsLine
  startInt : Int
  endInt : Int
  start_eq : int16 line.start = .ok startInt
  stop_eq : int16 line.stop = .ok endInt
  nonneg : 0 ≤ startInt
  lt : startInt < endInt
  start_aligned : 4096 ∣ startInt
  end_aligned : 4096 ∣ endInt

def Mapping.row (m : Mapping) : Row := mappingRow m.line m.startInt m.endInt

/-- The bounds are written as the script writes them, as the kernel does. -/
def Mapping.Written (m : Mapping) : Prop :=
  m.line.start = format8x m.startInt ∧ m.line.stop = format8x m.endInt

/-- The row is for this interval, and its size is that of the interval. -/
structure Row.Spans (r : Row) (p : Int × Int) : Prop where
  start_eq : int16 r.start = .ok p.1
  stop_eq : int16 r.stop = .ok p.2
  size_eq : r.size * 1024 = p.2 - p.1

/-- A row for a gap, which no row of a mapping looks like: the permission of a mapping is never
`unknown`. -/
def Row.isNotUsed (r : Row) : Bool := r.filename = notUsed && r.permission = unknown

theorem permissionText_ne_unknown (permission : Text) : permissionText permission ≠ unknown := by
  unfold permissionText unknown
  split_ifs <;> decide

theorem Mapping.not_isNotUsed (m : Mapping) : m.row.isNotUsed = false := by
  have hpermission : m.row.permission ≠ unknown := permissionText_ne_unknown _
  simp [Row.isNotUsed, hpermission]

theorem isNotUsed_gapRow (pre : Int) (m : MapsLine) (startInt : Int) :
    (gapRow pre m startInt).isNotUsed = true := by
  simp [Row.isNotUsed, gapRow]

theorem Mapping.spans_row (m : Mapping) : m.row.Spans (m.startInt, m.endInt) where
  start_eq := m.start_eq
  stop_eq := m.stop_eq
  size_eq := by
    have hstart := m.start_aligned
    have hend := m.end_aligned
    show (m.endInt - m.startInt) / 1024 * 1024 = m.endInt - m.startInt
    omega

theorem Mapping.spans_gapRow (m : Mapping) {pre : Int} (hpre : 0 ≤ pre) (haligned : 4096 ∣ pre) :
    (gapRow pre m.line m.startInt).Spans (pre, m.startInt) where
  start_eq := int16_format8x hpre
  stop_eq := m.start_eq
  size_eq := by
    have hstart := m.start_aligned
    show (m.startInt - pre) / 1024 * 1024 = m.startInt - pre
    omega

/-! ## The loop -/

/-- The rows for a list of mappings, after one that ended at `pre`. -/
def rowsFrom (pre : Int) : List Mapping → List Row
  | [] => []
  | m :: ms =>
      (if pre ≠ m.startInt then [gapRow pre m.line m.startInt] else [])
        ++ m.row :: rowsFrom m.endInt ms

theorem readLine_of_match (s : State) {line : Text} {m : Mapping} (h : matchLine line = some m.line) :
    s.readLine line = .ok ⟨m.endInt, some (m.line.stop, m.endInt),
      s.mapsList ++ rowsFrom s.preEnd [m]⟩ := by
  rw [State.readLine, h]
  simp only [m.start_eq, m.stop_eq]
  show Except.ok _ = Except.ok _
  by_cases hgap : s.preEnd = m.startInt
  · simp [rowsFrom, hgap, Mapping.row]
  · simp [rowsFrom, hgap, Mapping.row]

theorem rowsFrom_cons (pre : Int) (m : Mapping) (ms : List Mapping) :
    rowsFrom pre (m :: ms) = rowsFrom pre [m] ++ rowsFrom m.endInt ms := by
  simp [rowsFrom]

/-- Lines that do not match change nothing, and the others add their rows. -/
theorem foldlM_readLine {lines : List Text} {ms : List Mapping}
    (hparsed : lines.filterMap matchLine = ms.map Mapping.line) (s : State) :
    ∃ s', lines.foldlM State.readLine s = .ok s' ∧ s'.mapsList = s.mapsList ++ rowsFrom s.preEnd ms
      ∧ s'.last = (ms.getLast?.map fun m => (m.line.stop, m.endInt)).or s.last := by
  induction lines generalizing ms s with
  | nil =>
      obtain rfl : ms = [] := List.map_eq_nil_iff.mp hparsed.symm
      exact ⟨s, rfl, by simp [rowsFrom], by simp⟩
  | cons line lines ih =>
      rw [List.foldlM_cons]
      cases hmatch : matchLine line with
      | none =>
          rw [List.filterMap_cons_none hmatch] at hparsed
          have hskip : s.readLine line = .ok s := by rw [State.readLine, hmatch]
          rw [hskip]
          exact ih hparsed s
      | some l =>
          rw [List.filterMap_cons_some hmatch] at hparsed
          cases ms with
          | nil => cases hparsed
          | cons m ms =>
              obtain ⟨rfl, hrest⟩ := List.cons.inj hparsed
              rw [readLine_of_match s hmatch]
              obtain ⟨s', hrun, hrows, hlast⟩ := ih hrest _
              refine ⟨s', hrun, ?_, ?_⟩
              · dsimp only at hrows
                rw [hrows, rowsFrom_cons s.preEnd m ms, List.append_assoc]
              · rw [hlast, List.getLast?_cons]
                cases ms.getLast? <;> rfl

/-- The table: the rows of the mappings and their gaps, and the final one. -/
theorem mapsList_eq {lines : List Text} {ms : List Mapping} (hne : ms ≠ [])
    (hparsed : lines.filterMap matchLine = ms.map Mapping.line) :
    mapsList lines = .ok (rowsFrom 0 ms ++ [⟨(ms.getLast hne).line.stop, mapsProcessEnd,
      (0x80000000 - (ms.getLast hne).endInt) / 1024, notUsed, unknown⟩]) := by
  obtain ⟨s, hrun, hrows, hlast⟩ := foldlM_readLine hparsed State.init
  rw [List.getLast?_eq_some_getLast hne, Option.map_some, Option.some_or] at hlast
  rw [mapsList, hrun]
  show (match s.last with
    | none => Except.error PyError.nameError
    | some (stop, endInt) => _) = _
  rw [hlast, int16_mapsProcessEnd, hrows]
  rfl

/-! ## Tiling -/

section Rows

variable {ms : List Mapping} {pre : Int}

/-- Nothing but the rows of the mappings and those of the gaps that are not empty. -/
theorem filter_rowsFrom (ms : List Mapping) (pre : Int) :
    (rowsFrom pre ms).filter (fun r => !r.isNotUsed) = ms.map Mapping.row := by
  induction ms generalizing pre with
  | nil => rfl
  | cons m ms ih =>
      by_cases hgap : pre = m.startInt
      · simp [rowsFrom, hgap, m.not_isNotUsed, ih]
      · simp [rowsFrom, hgap, m.not_isNotUsed, isNotUsed_gapRow, ih]

theorem spans_gaps (hpre : 0 ≤ pre) (haligned : 4096 ∣ pre) :
    List.Forall₂ Row.Spans ((rowsFrom pre ms).filter Row.isNotUsed)
      (((pre :: ms.map Mapping.endInt).zip (ms.map Mapping.startInt)).filter fun p => p.1 ≠ p.2) := by
  induction ms generalizing pre with
  | nil => exact .nil
  | cons m ms ih =>
      have hrest := ih (m.nonneg.trans m.lt.le) m.end_aligned
      rw [List.map_cons, List.map_cons, List.zip_cons_cons]
      by_cases hgap : pre = m.startInt
      · have hrows : (rowsFrom pre (m :: ms)).filter Row.isNotUsed
            = (rowsFrom m.endInt ms).filter Row.isNotUsed := by
          simp [rowsFrom, hgap, m.not_isNotUsed]
        rw [hrows, List.filter_cons_of_neg (by simp [hgap])]
        exact hrest
      · have hrows : (rowsFrom pre (m :: ms)).filter Row.isNotUsed
            = gapRow pre m.line m.startInt :: (rowsFrom m.endInt ms).filter Row.isNotUsed := by
          simp [rowsFrom, hgap, m.not_isNotUsed, isNotUsed_gapRow]
        rw [hrows, List.filter_cons_of_pos (by simp [hgap])]
        exact .cons (m.spans_gapRow hpre haligned) hrest

/-- The rows of one mapping tile from the end of the one before to its own end. -/
theorem tiles_rowsFrom_singleton (m : Mapping) (hpre : 0 ≤ pre) (haligned : 4096 ∣ pre)
    (hle : pre ≤ m.startInt) :
    ∃ bounds, List.Forall₂ Row.Spans (rowsFrom pre [m]) bounds ∧ Tiles pre bounds m.endInt := by
  by_cases hgap : pre = m.startInt
  · have hrows : rowsFrom pre [m] = [m.row] := by simp [rowsFrom, hgap]
    rw [hrows]
    exact ⟨[(m.startInt, m.endInt)], .cons m.spans_row .nil, hgap.symm, m.lt.le, rfl⟩
  · have hrows : rowsFrom pre [m] = [gapRow pre m.line m.startInt, m.row] := by
      simp [rowsFrom, hgap]
    rw [hrows]
    exact ⟨[(pre, m.startInt), (m.startInt, m.endInt)],
      .cons (m.spans_gapRow hpre haligned) (.cons m.spans_row .nil), rfl, hle, tiles_singleton m.lt.le⟩

/-- **The rows tile**, from the end of the mapping before to the end of the last one. -/
theorem tiles_rowsFrom (hpre : 0 ≤ pre) (haligned : 4096 ∣ pre)
    (hordered : ms.IsChain fun m m' => m.endInt ≤ m'.startInt)
    (hfirst : ∀ m ∈ ms.head?, pre ≤ m.startInt) :
    ∃ bounds, List.Forall₂ Row.Spans (rowsFrom pre ms) bounds
      ∧ Tiles pre bounds ((ms.getLast?.map Mapping.endInt).getD pre) := by
  induction ms generalizing pre with
  | nil => exact ⟨[], .nil, rfl⟩
  | cons m ms ih =>
      rw [List.isChain_cons] at hordered
      obtain ⟨here, hspans, htiles⟩ := tiles_rowsFrom_singleton m hpre haligned (hfirst m rfl)
      obtain ⟨after, hspans', htiles'⟩ :=
        ih (m.nonneg.trans m.lt.le) m.end_aligned hordered.2 hordered.1
      refine ⟨here ++ after, ?_, ?_⟩
      · rw [rowsFrom_cons]
        exact List.rel_append hspans hspans'
      · rw [List.getLast?_cons, Option.map_some, Option.getD_some]
        refine tiles_append.mpr ⟨m.endInt, htiles, ?_⟩
        cases hlast : ms.getLast? with
        | none => simpa [hlast] using htiles'
        | some last => simpa [hlast] using htiles'

theorem sum_size {rows : List Row} {bounds : List (Int × Int)}
    (h : List.Forall₂ Row.Spans rows bounds) :
    (rows.map Row.size).sum * 1024 = (bounds.map fun p => p.2 - p.1).sum := by
  induction h with
  | nil => rfl
  | cons hr _ ih =>
      rw [List.map_cons, List.map_cons, List.sum_cons, List.sum_cons, Int.add_mul, ih, hr.size_eq]

/-- If the bounds in the file are written in the usual way, the texts of the rows meet too. -/
theorem isChain_rowsFrom (hwritten : ∀ m ∈ ms, m.Written) (final : Row)
    (hfinal : final.start = format8x ((ms.getLast?.map Mapping.endInt).getD pre)) :
    (∀ r ∈ (rowsFrom pre ms ++ [final]).head?, r.start = format8x pre)
      ∧ (rowsFrom pre ms ++ [final]).IsChain fun r r' => r.stop = r'.start := by
  induction ms generalizing pre with
  | nil => exact ⟨by simpa [rowsFrom] using hfinal, by simp [rowsFrom]⟩
  | cons m ms ih =>
      obtain ⟨⟨hstart, hstop⟩, hrest⟩ := List.forall_mem_cons.mp hwritten
      have hfinal' : final.start = format8x ((ms.getLast?.map Mapping.endInt).getD m.endInt) := by
        rw [hfinal, List.getLast?_cons]
        cases ms.getLast? <;> rfl
      obtain ⟨hhead, hchain⟩ := ih hrest hfinal'
      have hrow : (m.row :: (rowsFrom m.endInt ms ++ [final])).IsChain fun r r' => r.stop = r'.start := by
        refine List.isChain_cons.mpr ⟨fun r hr => ?_, hchain⟩
        rw [hhead r hr]
        exact hstop
      by_cases hgap : pre = m.startInt
      · have hrows : rowsFrom pre (m :: ms) = m.row :: rowsFrom m.endInt ms := by
          simp [rowsFrom, hgap]
        rw [hrows, List.cons_append]
        refine ⟨?_, hrow⟩
        rintro r ⟨⟩
        rw [hgap]
        exact hstart
      · have hrows : rowsFrom pre (m :: ms)
            = gapRow pre m.line m.startInt :: m.row :: rowsFrom m.endInt ms := by
          simp [rowsFrom, hgap]
        rw [hrows, List.cons_append, List.cons_append]
        refine ⟨?_, List.isChain_cons.mpr ⟨?_, hrow⟩⟩
        · rintro r ⟨⟩
          rfl
        · rintro r ⟨⟩
          rfl

end Rows

/-- **The table tiles the address space.** For mappings in increasing order, whatever lines that do
not match stand between them, the rows before the final one are consecutive intervals from 0 to the
end of the last mapping. They are the rows of the mappings, in their order, and one row for each gap
that is not empty. If the last mapping ends at `0x80000000` or before, all rows tile the addresses up
to there, and the sizes add up to 2097152 KB. -/
theorem maps_list_tiles (lines : List Text) (ms : List Mapping) (hne : ms ≠ [])
    (hparsed : lines.filterMap matchLine = ms.map Mapping.line)
    (hordered : ms.IsChain fun m m' => m.endInt ≤ m'.startInt) :
    ∃ rows final bounds, mapsList lines = .ok (rows ++ [final])
      ∧ List.Forall₂ Row.Spans rows bounds ∧ Tiles 0 bounds (ms.getLast hne).endInt
      ∧ rows.filter (fun r => !r.isNotUsed) = ms.map Mapping.row
      ∧ List.Forall₂ Row.Spans (rows.filter Row.isNotUsed)
        (((0 :: ms.map Mapping.endInt).zip (ms.map Mapping.startInt)).filter fun p => p.1 ≠ p.2)
      ∧ ((∀ m ∈ ms, m.Written) → (rows ++ [final]).IsChain fun r r' => r.stop = r'.start)
      ∧ ((ms.getLast hne).endInt ≤ 0x80000000 →
        final.Spans ((ms.getLast hne).endInt, 0x80000000)
          ∧ Tiles 0 (bounds ++ [((ms.getLast hne).endInt, 0x80000000)]) 0x80000000
          ∧ (∀ x, (∃ p ∈ bounds ++ [((ms.getLast hne).endInt, 0x80000000)], p.1 ≤ x ∧ x < p.2)
            ↔ 0 ≤ x ∧ x < 0x80000000)
          ∧ ((rows ++ [final]).map Row.size).sum = 2097152) := by
  have hlast : ms.getLast? = some (ms.getLast hne) := List.getLast?_eq_some_getLast hne
  have hnonneg : ∀ m ∈ ms.head?, 0 ≤ m.startInt := fun m _ => m.nonneg
  obtain ⟨bounds, hspans, htiles⟩ := tiles_rowsFrom le_rfl (by decide) hordered hnonneg
  rw [hlast, Option.map_some, Option.getD_some] at htiles
  refine ⟨_, _, bounds, mapsList_eq hne hparsed, hspans, htiles, filter_rowsFrom ms 0,
    spans_gaps le_rfl (by decide), ?_, ?_⟩
  · intro hwritten
    refine (isChain_rowsFrom hwritten _ ?_).2
    rw [hlast, Option.map_some, Option.getD_some]
    exact (hwritten _ (List.getLast_mem hne)).2
  · intro hend
    have haligned := (ms.getLast hne).end_aligned
    have hfinal : Row.Spans ⟨(ms.getLast hne).line.stop, mapsProcessEnd,
        (0x80000000 - (ms.getLast hne).endInt) / 1024, notUsed, unknown⟩
        ((ms.getLast hne).endInt, 0x80000000) :=
      { start_eq := (ms.getLast hne).stop_eq
        stop_eq := int16_mapsProcessEnd
        size_eq := by
          dsimp only
          omega }
    have hall := tiles_append.mpr ⟨_, htiles, tiles_singleton hend⟩
    refine ⟨hfinal, hall, fun x => hall.mem_iff, ?_⟩
    have hsum := sum_size (List.rel_append hspans (.cons hfinal .nil))
    rw [hall.sum_length] at hsum
    exact Int.eq_of_mul_eq_mul_right (by decide : (1024 : Int) ≠ 0) hsum

/-- The first and the last of the lines in the comment of the script, and one that does not match. -/
def pidmaxLines : List Text :=
  ["00008000-0000b000 r-xp 00000000 b3:01 1023       /root/pidmax\n".toList, "\n".toList,
    "0000c000-0000d000 rw-p 00003000 b3:01 1023       /root/pidmax\n".toList]

def pidmaxCode : Mapping where
  line := ⟨"00008000".toList, "0000b000".toList, "r-xp".toList, "/root/pidmax".toList⟩
  startInt := 0x8000
  endInt := 0xb000
  start_eq := by decide +kernel
  stop_eq := by decide +kernel
  nonneg := by decide
  lt := by decide
  start_aligned := by decide
  end_aligned := by decide

def pidmaxData : Mapping where
  line := ⟨"0000c000".toList, "0000d000".toList, "rw-p".toList, "/root/pidmax".toList⟩
  startInt := 0xc000
  endInt := 0xd000
  start_eq := by decide +kernel
  stop_eq := by decide +kernel
  nonneg := by decide
  lt := by decide
  start_aligned := by decide
  end_aligned := by decide

theorem maps_list_tiles_pidmax :
    pidmaxLines.filterMap matchLine = [pidmaxCode, pidmaxData].map Mapping.line
      ∧ pidmaxCode.endInt ≤ pidmaxData.startInt
      ∧ ∃ rows final, mapsList pidmaxLines = .ok (rows ++ [final])
        ∧ rows.filter (fun r => !r.isNotUsed) = [pidmaxCode.row, pidmaxData.row]
        ∧ ((rows ++ [final]).map Row.size).sum = 2097152 := by
  have hparsed : pidmaxLines.filterMap matchLine = [pidmaxCode, pidmaxData].map Mapping.line := by
    decide +kernel
  have hordered : pidmaxCode.endInt ≤ pidmaxData.startInt := by decide
  obtain ⟨rows, final, _, hlist, -, -, hrows, -, -, htotal⟩ :=
    maps_list_tiles pidmaxLines [pidmaxCode, pidmaxData] (by simp) hparsed (by simpa using hordered)
  exact ⟨hparsed, hordered, rows, final, hlist, hrows, (htotal (by decide)).2.2.2⟩

end UioLinuxSample.Maps
