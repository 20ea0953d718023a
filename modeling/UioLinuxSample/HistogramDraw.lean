import UioLinuxSample.Lib.Buffer
import UioLinuxSample.Histogram
import UioLinuxSample.Runqlat.Model

set_option autoImplicit false

/-! # Drawing a histogram

The three tracers have a `histogram_show` each, and all three draw a bar in the local array
`str[NUMBER_CHARACTER + 1]`. How many stars it gets is a quotient of a product that can wrap
around. Here every access to memory and the division are checked, and a failed check makes the
result `none`. No check ever fails (`drawHistogram_eq`): a wrapped product is smaller than the
product, so the quotient by the largest count stays at most `NUMBER_CHARACTER`.
-/

namespace UioLinuxSample

open Buffer

/-! ## The three copies -/

/-- `hist[i]`; `none` is a read outside of the array. -/
def histAt (hist : Nat → UInt64) (size i : Nat) : Option UInt64 :=
  if i < size then some (hist i) else none

/-- Division of `unsigned long`; `none` is a division by zero. -/
def checkedDiv (a b : UInt64) : Option UInt64 := if b = 0 then none else some (a / b)

/-- What is printed of `str` after both `memset` calls and the terminator. -/
def drawBar (num : Int) : Option String := do
  let str ← fill (fresh Char (numberCharacter + 1)) 0 '*' num
  let str ← fill str num ' ' (numberCharacter - num)
  let str ← fill str numberCharacter '\x00' 1
  (text '\x00' str).map String.ofList

/-- A turn of the second loop; `num` is an `int`. -/
def drawRow (hist : Nat → UInt64) (size : Nat) (most : UInt64) (factor : UInt32) (i : Nat) :
    Option HistogramRow := do
  let count ← histAt hist size i
  let num ← checkedDiv (count * UInt64.ofNat numberCharacter) most
  let str ← drawBar num.toUInt32.toInt32.toInt
  some
    { min := (scaleMin i * factor).toInt32.toInt
      max := (scaleMax i * factor - 1).toInt32.toInt
      count := count
      str := str }

/-- `histogram_show` with the lines it prints before the rows. -/
def drawHistogram (above : List String) (hist : Nat → UInt64) (size : Nat) (factor : UInt32) :
    Option (Bool × List HistogramLine) :=
  let most := countMax hist size
  if most = 0 then some (false, [])
  else do
    let rows ← (List.range (zeroIndex hist size)).mapM (drawRow hist size most factor)
    some (true, above.map .text ++ rows.map .row)

def headerLine (header : Option String) : List String := header.toList.map (· ++ "\n")

def columnsLine : String := "         msecs           : count     distribution\n"

def Irqoff.histogramShow (header : Option String) (hist : Nat → UInt64) (size : Nat)
    (factor : UInt32) : Option (Bool × List HistogramLine) :=
  drawHistogram (headerLine header ++ [columnsLine]) hist size factor

def Noschedule.histogramShow (header : Option String) (hist : Nat → UInt64) (size : Nat)
    (factor : UInt32) : Option (Bool × List HistogramLine) :=
  drawHistogram (headerLine header ++ [columnsLine]) hist size factor

/-- The copy of `trace_runqlat.c` prints the sum of the latencies too, with `"%lld\n"`. -/
def Runqlat.histogramShow (header : Option String) (hist : Nat → UInt64) (size : Nat)
    (factor : UInt32) (sumLat : UInt64) : Option (Bool × List HistogramLine) :=
  drawHistogram (headerLine header ++ [toString sumLat.toInt64.toInt ++ "\n", columnsLine]) hist size
    factor

/-- One of the three, with the argument that only one has. -/
inductive Tracer where
  | irqoff
  | noschedule
  | runqlat (sumLat : UInt64)

def Tracer.histogramShow (tracer : Tracer) (header : Option String) (hist : Nat → UInt64)
    (size : Nat) (factor : UInt32) : Option (Bool × List HistogramLine) :=
  match tracer with
  | .irqoff => Irqoff.histogramShow header hist size factor
  | .noschedule => Noschedule.histogramShow header hist size factor
  | .runqlat sumLat => Runqlat.histogramShow header hist size factor sumLat

/-! ## What the first loop finds -/

section Counts

variable {hist : Nat → UInt64} {size i : Nat}

theorem countMax_le {most : UInt64} (h : ∀ i < size, hist i ≤ most) : countMax hist size ≤ most := by
  induction size with
  | zero => exact UInt64.zero_le
  | succ size ih =>
      rw [countMax_succ]
      split
      · exact h size (Nat.lt_succ_self size)
      · exact ih fun i hi => h i (Nat.lt_succ_of_lt hi)

theorem countMax_eq_zero_iff : countMax hist size = 0 ↔ ∀ i < size, hist i = 0 := by
  constructor
  · intro hzero i hi
    by_contra hne
    exact countMax_ne_zero hi hne hzero
  · intro hall
    apply UInt64.le_zero_iff.mp
    apply countMax_le
    intro i hi
    rw [hall i hi]
    exact UInt64.le_refl 0

/-- `zero_index` is one past the last bucket that is not empty. -/
theorem exists_zeroIndex (h : ∃ i < size, hist i ≠ 0) :
    ∃ last < size, zeroIndex hist size = last + 1 ∧ hist last ≠ 0
      ∧ ∀ j < size, last < j → hist j = 0 := by
  induction size with
  | zero =>
      obtain ⟨i, hi, -⟩ := h
      omega
  | succ size ih =>
      rw [zeroIndex_succ]
      by_cases hlast : hist size = 0
      · obtain ⟨i, hi, hne⟩ := h
        have hi' : i ≠ size := by
          rintro rfl
          exact hne hlast
        obtain ⟨last, hlt, hindex, hcount, hafter⟩ := ih ⟨i, by omega, hne⟩
        refine ⟨last, by omega, by rw [if_neg (not_not.mpr hlast), hindex], hcount, ?_⟩
        intro j hj hgt
        by_cases hjs : j = size
        · exact hjs ▸ hlast
        · exact hafter j (by omega) hgt
      · exact ⟨size, by omega, by rw [if_pos hlast], hlast, fun j hj hgt => by omega⟩

end Counts

/-! ## No check fails -/

section Bars

variable {hist : Nat → UInt64} {size i : Nat} {factor : UInt32}

theorem drawBar_eq {num : Nat} (h : num ≤ numberCharacter) :
    drawBar num = some (String.ofList
      (List.replicate num '*' ++ List.replicate (numberCharacter - num) ' ')) := by
  obtain ⟨rest, hrest⟩ := Nat.exists_eq_add_of_le h
  have hstars : fill (fresh Char (numberCharacter + 1)) 0 '*' num
      = some (List.replicate num (some '*') ++ fresh Char (rest + 1)) := by
    rw [hrest, Nat.add_assoc]
    exact fill_fresh [] '*' num (rest + 1)
  have hblank : fill (List.replicate num (some '*') ++ fresh Char (rest + 1)) num ' '
      (numberCharacter - num)
      = some ((List.replicate num '*' ++ List.replicate rest ' ').map some ++ fresh Char 1) := by
    have hfill := fill_fresh (List.replicate num (some '*')) ' ' rest 1
    rw [List.length_replicate] at hfill
    rw [show (numberCharacter : Int) - num = rest by omega, hfill]
    simp
  have hnul : fill ((List.replicate num '*' ++ List.replicate rest ' ').map some ++ fresh Char 1)
      numberCharacter '\x00' 1
      = some ((List.replicate num '*' ++ List.replicate rest ' ').map some ++ [some '\x00']) := by
    have hfill := fill_fresh ((List.replicate num '*' ++ List.replicate rest ' ').map some) '\x00' 1 0
    rw [List.length_map, List.length_append, List.length_replicate, List.length_replicate,
      ← hrest] at hfill
    exact hfill.trans (by simp [fresh])
  have hread : text '\x00' ((List.replicate num '*' ++ List.replicate rest ' ').map some
      ++ [some '\x00']) = some (List.replicate num '*' ++ List.replicate rest ' ') :=
    text_of_terminated (by simp) []
  simp only [drawBar, Option.bind_eq_bind, hstars, Option.bind_some, hblank, hnul, hread,
    Option.map_some]
  rw [hrest, Nat.add_sub_cancel_left]

/-- A wrapped product is not larger than the product, so a bar has at most `NUMBER_CHARACTER` stars. -/
theorem num_le (hist : Nat → UInt64) {size : Nat} (hi : i < size) (hmost : countMax hist size ≠ 0) :
    (hist i * UInt64.ofNat numberCharacter / countMax hist size).toNat ≤ numberCharacter := by
  have hle : (hist i).toNat ≤ (countMax hist size).toNat :=
    UInt64.le_iff_toNat_le.mp (le_countMax hi)
  have hpos : 0 < (countMax hist size).toNat := by
    apply Nat.pos_of_ne_zero
    intro hzero
    exact hmost (UInt64.toNat_inj.mp hzero)
  rw [UInt64.toNat_div, UInt64.toNat_mul]
  apply Nat.div_le_of_le_mul
  calc (hist i).toNat * (UInt64.ofNat numberCharacter).toNat % 2 ^ 64
      ≤ (hist i).toNat * numberCharacter := Nat.mod_le _ _
    _ ≤ (countMax hist size).toNat * numberCharacter := Nat.mul_le_mul_right _ hle

theorem drawRow_eq (factor : UInt32) (hi : i < size) (hmost : countMax hist size ≠ 0) :
    drawRow hist size (countMax hist size) factor i
      = some (histogramRow hist (countMax hist size) factor i) := by
  have hnum := num_le hist hi hmost
  generalize hq : hist i * UInt64.ofNat numberCharacter / countMax hist size = q at hnum
  -- at most 40 is the same as an `int`
  have hint : q.toUInt32.toInt32.toInt = q.toNat := by
    have hsmall : q.toUInt32.toNat = q.toNat := by
      rw [UInt64.toNat_toUInt32]
      exact Nat.mod_eq_of_lt (hnum.trans_lt (by decide))
    rw [toInt_toInt32 (by rw [hsmall]; exact hnum.trans_lt (by decide)), hsmall]
  simp only [drawRow, histAt, if_pos hi, Option.bind_eq_bind, Option.bind_some, checkedDiv,
    if_neg hmost, hq, hint, drawBar_eq hnum, histogramRow]

theorem mapM_drawRow (factor : UInt32) (hmost : countMax hist size ≠ 0) {is : List Nat}
    (his : ∀ i ∈ is, i < size) :
    is.mapM (drawRow hist size (countMax hist size) factor)
      = some (is.map (histogramRow hist (countMax hist size) factor)) := by
  induction is with
  | nil => rfl
  | cons i is ih =>
      rw [List.mapM_cons, drawRow_eq factor (his i List.mem_cons_self) hmost,
        ih fun j hj => his j (List.mem_cons_of_mem i hj)]
      rfl

/-- **No check fails.** -/
theorem drawHistogram_eq (above : List String) (hist : Nat → UInt64) (size : Nat) (factor : UInt32) :
    drawHistogram above hist size factor
      = some (if countMax hist size = 0 then (false, [])
          else (true, above.map .text ++ (histogramRows hist size factor).map .row)) := by
  by_cases hmost : countMax hist size = 0
  · rw [drawHistogram, if_pos hmost, if_pos hmost]
  · have hrows : (List.range (zeroIndex hist size)).mapM
        (drawRow hist size (countMax hist size) factor) = some (histogramRows hist size factor) := by
      apply mapM_drawRow factor hmost
      intro i hi
      exact (List.mem_range.mp hi).trans_le (zeroIndex_le hist size)
    rw [drawHistogram, if_neg hmost, if_neg hmost, hrows]
    rfl

/-- The two copies that are the same text compute what `histogramShow` says. -/
theorem irqoff_histogramShow_eq (header : Option String) (hist : Nat → UInt64) (size : Nat)
    (factor : UInt32) :
    Irqoff.histogramShow header hist size factor = some (histogramShow header hist size factor)
      ∧ Noschedule.histogramShow header hist size factor
        = some (histogramShow header hist size factor) := by
  have hshow : drawHistogram (headerLine header ++ [columnsLine]) hist size factor
      = some (histogramShow header hist size factor) := by
    rw [drawHistogram_eq, histogramShow, List.map_append, headerLine, List.map_map]
    rfl
  exact ⟨hshow, hshow⟩

end Bars

/-! ## The rows that are printed -/

section Printed

variable {above : List String} {hist : Nat → UInt64} {size i : Nat} {factor : UInt32}
  {lines : List HistogramLine} {r : HistogramRow}

/-- The copies differ in what they print before the rows. -/
theorem Tracer.exists_above (tracer : Tracer) (header : Option String) :
    ∃ above, ∀ hist size factor,
      tracer.histogramShow header hist size factor = drawHistogram above hist size factor := by
  cases tracer <;> exact ⟨_, fun _ _ _ => rfl⟩

theorem drawHistogram_false_iff :
    drawHistogram above hist size factor = some (false, []) ↔ ∀ i < size, hist i = 0 := by
  rw [drawHistogram_eq, ← countMax_eq_zero_iff]
  by_cases hmost : countMax hist size = 0
  · simp [hmost]
  · simp [hmost]

/-- The rows are those of the buckets before `zero_index`, in their order. -/
theorem rowFor_drawn (above : List String) :
    rowFor (above.map .text ++ (histogramRows hist size factor).map .row) i
      = if i < zeroIndex hist size then some (histogramRow hist (countMax hist size) factor i)
        else none := by
  have hrows : ∀ rows : List HistogramRow, rowFor (above.map .text ++ rows.map .row) i = rows[i]? := by
    intro rows
    unfold rowFor
    rw [List.filterMap_append, List.filterMap_map, List.filterMap_map]
    simp
  rw [hrows, histogramRows, List.getElem?_map]
  split
  · next hlt => rw [List.getElem?_range hlt, Option.map_some]
  · next hge => rw [List.getElem?_eq_none (by simpa using hge), Option.map_none]

theorem drawHistogram_true (above : List String) (factor : UInt32) (hi : i < size)
    (hcount : hist i ≠ 0) :
    ∃ lines, drawHistogram above hist size factor = some (true, lines)
      ∧ ∀ j, rowFor lines j = if j < zeroIndex hist size then
        some (histogramRow hist (countMax hist size) factor j) else none := by
  rw [drawHistogram_eq, if_neg (countMax_ne_zero hi hcount)]
  exact ⟨_, rfl, fun j => rowFor_drawn above⟩

theorem rowFor_drawHistogram {b : Bool} (h : drawHistogram above hist size factor = some (b, lines))
    (hr : rowFor lines i = some r) :
    i < size ∧ r = histogramRow hist (countMax hist size) factor i := by
  rw [drawHistogram_eq] at h
  split at h
  · cases h
    cases hr
  · cases h
    rw [rowFor_drawn] at hr
    split_ifs at hr with hlt
    exact ⟨hlt.trans_le (zeroIndex_le hist size), (Option.some.inj hr).symm⟩

/-- The length of a bar. -/
def HistogramRow.stars (r : HistogramRow) : Nat := r.str.toList.count '*'

/-- A bar of `num` stars, filled up with blanks. -/
def bar (num : Nat) : String :=
  String.ofList (List.replicate num '*' ++ List.replicate (numberCharacter - num) ' ')

theorem stars_histogramRow (hist : Nat → UInt64) (most : UInt64) (factor : UInt32) (i : Nat) :
    (histogramRow hist most factor i).stars
      = (hist i).toNat * numberCharacter % 2 ^ 64 / most.toNat := by
  rw [HistogramRow.stars, histogramRow]
  simp only [String.toList_ofList, List.count_append, List.count_replicate]
  rw [UInt64.toNat_div, UInt64.toNat_mul]
  rfl

theorem str_histogramRow (hist : Nat → UInt64) (most : UInt64) (factor : UInt32) (i : Nat) :
    (histogramRow hist most factor i).str = bar (histogramRow hist most factor i).stars := by
  rw [stars_histogramRow, bar, histogramRow, UInt64.toNat_div, UInt64.toNat_mul]
  rfl

/-- The largest bucket has a full bar, if no product wraps around. -/
theorem stars_of_largest (hi : i < size) (hmost : countMax hist size ≠ 0)
    (hwrap : (hist i).toNat * numberCharacter < 2 ^ 64) (hmax : ∀ j < size, hist j ≤ hist i) :
    (histogramRow hist (countMax hist size) factor i).stars = numberCharacter := by
  have heq : countMax hist size = hist i := UInt64.le_antisymm (countMax_le hmax) (le_countMax hi)
  have hpos : 0 < (hist i).toNat := by
    apply Nat.pos_of_ne_zero
    intro hzero
    exact hmost (heq.trans (UInt64.toNat_inj.mp hzero))
  rw [stars_histogramRow, Nat.mod_eq_of_lt hwrap, heq]
  exact Nat.mul_div_cancel_left _ hpos

/-- The bars grow with the counts, if no product wraps around. -/
theorem stars_mono {j : Nat} {most : UInt64} (hi : (hist i).toNat * numberCharacter < 2 ^ 64)
    (hj : (hist j).toNat * numberCharacter < 2 ^ 64) (hle : hist i ≤ hist j) :
    (histogramRow hist most factor i).stars ≤ (histogramRow hist most factor j).stars := by
  rw [stars_histogramRow, stars_histogramRow, Nat.mod_eq_of_lt hi, Nat.mod_eq_of_lt hj]
  apply Nat.div_le_div_right
  apply Nat.mul_le_mul_right
  exact UInt64.le_iff_toNat_le.mp hle

theorem stars_le (hi : i < size) (hmost : countMax hist size ≠ 0) :
    (histogramRow hist (countMax hist size) factor i).stars ≤ numberCharacter := by
  have hnum := num_le hist hi hmost
  rw [UInt64.toNat_div, UInt64.toNat_mul] at hnum
  rw [stars_histogramRow]
  exact hnum

end Printed

/-- **Drawing a histogram is safe**, in all three copies. An array of zeros is refused before the
division. Otherwise no access leaves its array, the rows are those of the buckets up to the last one
that is not empty, and a bar has at most 40 stars even where the product has wrapped around. Where no
product wraps, the longest bar is full and the bars grow with the counts. -/
theorem histogram_show_safe (tracer : Tracer) (header : Option String) (hist : Nat → UInt64)
    (size : Nat) (factor : UInt32) :
    (tracer.histogramShow header hist size factor = some (false, []) ↔ ∀ i < size, hist i = 0)
      ∧ ((∃ i < size, hist i ≠ 0) → ∃ lines last,
        tracer.histogramShow header hist size factor = some (true, lines)
          ∧ last < size ∧ hist last ≠ 0 ∧ (∀ j < size, last < j → hist j = 0)
          ∧ (∀ i, last < i → rowFor lines i = none)
          ∧ (∀ i ≤ last, ∃ r, rowFor lines i = some r ∧ r.count = hist i
            ∧ r.stars = (hist i).toNat * numberCharacter % 2 ^ 64 / (countMax hist size).toNat
            ∧ r.stars ≤ numberCharacter ∧ r.str = bar r.stars)
          ∧ ((∀ i < size, (hist i).toNat * numberCharacter < 2 ^ 64) →
            (∀ i r, rowFor lines i = some r → (∀ j < size, hist j ≤ hist i) →
              r.stars = numberCharacter)
            ∧ ∀ i j r r', rowFor lines i = some r → rowFor lines j = some r' → hist i ≤ hist j →
              r.stars ≤ r'.stars)) := by
  obtain ⟨above, habove⟩ := tracer.exists_above header
  rw [habove]
  refine ⟨drawHistogram_false_iff, fun hcount => ?_⟩
  obtain ⟨last, hlast, hindex, hne, hafter⟩ := exists_zeroIndex hcount
  have hmost := countMax_ne_zero hlast hne
  obtain ⟨lines, hshow, hrows⟩ := drawHistogram_true above factor hlast hne
  refine ⟨lines, last, hshow, hlast, hne, hafter, ?_, ?_, ?_⟩
  · intro i hi
    rw [hrows, hindex, if_neg (by omega)]
  · intro i hi
    exact ⟨_, by rw [hrows, hindex, if_pos (by omega)], rfl, stars_histogramRow ..,
      stars_le (by omega) hmost, str_histogramRow ..⟩
  · intro hwrap
    constructor
    · intro i r hr hmax
      obtain ⟨hi, rfl⟩ := rowFor_drawHistogram hshow hr
      exact stars_of_largest hi hmost (hwrap i hi) hmax
    · intro i j r r' hr hr' hle
      obtain ⟨hi, rfl⟩ := rowFor_drawHistogram hshow hr
      obtain ⟨hj, rfl⟩ := rowFor_drawHistogram hshow hr'
      exact stars_mono (hwrap i hi) (hwrap j hj) hle

-- where the product wraps, the largest bucket can be left without a star
example : ((Irqoff.histogramShow none (fun _ => 2 ^ 62) 1 20).bind fun shown =>
    (rowFor shown.2 0).map HistogramRow.stars) = some 0 := by decide +kernel

end UioLinuxSample
