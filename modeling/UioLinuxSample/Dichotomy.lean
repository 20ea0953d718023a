import UioLinuxSample.Lib.Loop
import UioLinuxSample.Lib.SortedInsert

set_option autoImplicit false

/-! # Binary search with an insertion point (`leet/dichotomy.c`)

`search` keeps an interval `[left, right]` of the array, with both ends included. It moves `right`
to the middle and not below it, so it stops at one element without having compared it, and that
comparison decides the result after the loop.

Reads and `int` arithmetic are checked here: a read outside of the array and an overflow make the
result `none`, so a result that is not `none` says that neither has happened.
-/

namespace UioLinuxSample.Dichotomy

open Loop SortedInsert

/-! ## The program -/

/-- The value of an `int` expression; `none` is an overflow. -/
def int (x : Int) : Option Int := if -2 ^ 31 ≤ x ∧ x < 2 ^ 31 then some x else none

/-- `nums[i]`; `none` is a read outside of the array. -/
def load (nums : List Int) (i : Int) : Option Int := if 0 ≤ i then nums[i.toNat]? else none

structure Bounds where
  left : Int
  right : Int

/-- `left + (right - left)/2` -/
def Bounds.half (s : Bounds) : Option Int := do
  let width ← int (s.right - s.left)
  int (s.left + width.tdiv 2)

/-- The two lines after the loop. -/
def decideLast (nums : List Int) (target left : Int) : Option Int := do
  let x ← load nums left
  if target ≤ x then some left else int (left + 1)

def searchTurn (nums : List Int) (target : Int) (s : Bounds) : Turn Bounds (Option Int) :=
  if s.left < s.right then
    match s.half with
    | none => .done none
    | some half =>
        match load nums half with
        | none => .done none
        | some x =>
            if target < x then .next { s with right := half }
            else if target > x then
              match int (half + 1) with
              | none => .done none
              | some left => .next { s with left := left }
            else .done (some half)
  else .done (decideLast nums target s.left)

/-- `search(nums, numsSize, target)` with at most `fuel` turns of its loop. -/
def search (fuel : Nat) (nums : List Int) (numsSize target : Int) : Option (Option Int) :=
  match int (numsSize - 1) with
  | none => some none
  | some right => run (searchTurn nums target) fuel ⟨0, right⟩

/-! ## Reads -/

variable {nums : List Int} {target i j x y r : Int} {s : Bounds}

theorem int_eq_some (h : 0 ≤ x) (h' : x < 2 ^ 31) : int x = some x := by
  rw [int, if_pos (by omega)]

@[simp] theorem load_natCast (nums : List Int) (i : Nat) : load nums i = nums[i]? := by
  rw [load, if_pos (by omega), Int.toNat_natCast]

theorem load_eq_some_iff : load nums i = some x ↔ ∃ k : Nat, i = k ∧ nums[k]? = some x := by
  constructor
  · intro h
    rw [load] at h
    split_ifs at h with hi
    exact ⟨i.toNat, by omega, h⟩
  · rintro ⟨k, rfl, h⟩
    rw [load_natCast, h]

theorem exists_load (h : 0 ≤ i) (h' : i < nums.length) : ∃ x, load nums i = some x := by
  obtain ⟨k, rfl⟩ := Int.eq_ofNat_of_zero_le h
  have hk : k < nums.length := by omega
  exact ⟨nums[k], by rw [load_natCast, List.getElem?_eq_getElem hk]⟩

theorem mem_iff_load : x ∈ nums ↔ ∃ i, load nums i = some x := by
  rw [List.mem_iff_getElem?]
  constructor
  · rintro ⟨k, hk⟩
    exact ⟨k, by rw [load_natCast, hk]⟩
  · rintro ⟨i, hi⟩
    obtain ⟨k, -, hk⟩ := load_eq_some_iff.mp hi
    exact ⟨k, hk⟩

theorem load_mono (hsorted : nums.Pairwise (· ≤ ·)) (hx : load nums i = some x)
    (hy : load nums j = some y) (hij : i ≤ j) : x ≤ y := by
  obtain ⟨k, rfl, hk⟩ := load_eq_some_iff.mp hx
  obtain ⟨l, rfl, hl⟩ := load_eq_some_iff.mp hy
  obtain ⟨hklt, rfl⟩ := List.getElem?_eq_some_iff.mp hk
  obtain ⟨hllt, rfl⟩ := List.getElem?_eq_some_iff.mp hl
  exact hsorted.rel_get_of_le (a := ⟨k, hklt⟩) (b := ⟨l, hllt⟩) (by simpa using hij)

/-! ## One turn -/

/-- What the loop knows: left of the interval everything is smaller than the target, right of it
everything is larger. -/
structure Between (nums : List Int) (target : Int) (s : Bounds) : Prop where
  left_nonneg : 0 ≤ s.left
  left_le : s.left ≤ s.right
  right_lt : s.right < nums.length
  below : ∀ i x, load nums i = some x → i < s.left → x < target
  above : ∀ i x, load nums i = some x → s.right < i → target < x

/-- What the caller gets. -/
structure IsResult (nums : List Int) (target r : Int) : Prop where
  nonneg : 0 ≤ r
  le_length : r ≤ nums.length
  below : ∀ i x, load nums i = some x → i < r → x ≤ target
  above : ∀ i x, load nums i = some x → r ≤ i → target ≤ x
  found : target ∈ nums → load nums r = some target

/-- Nothing is outside of the whole array. -/
theorem between_start (target : Int) (hne : nums ≠ []) : Between nums target ⟨0, nums.length - 1⟩ := by
  have hpos : 0 < nums.length := List.length_pos_iff.mpr hne
  refine ⟨le_rfl, by dsimp only; omega, by dsimp only; omega, ?_, ?_⟩
  · intro i x hi hlt
    obtain ⟨k, rfl, -⟩ := load_eq_some_iff.mp hi
    dsimp only at hlt
    omega
  · intro i x hi hgt
    obtain ⟨k, rfl, hk⟩ := load_eq_some_iff.mp hi
    have := (List.getElem?_eq_some_iff.mp hk).1
    dsimp only at hgt
    omega

theorem half_spec (hs : Between nums target s) (hsize : nums.length < 2 ^ 31)
    (hlt : s.left < s.right) : ∃ h, s.half = some h ∧ s.left ≤ h ∧ h < s.right := by
  have hleft := hs.left_nonneg
  have hright := hs.right_lt
  have hdiv : (s.right - s.left).tdiv 2 = (s.right - s.left) / 2 :=
    Int.tdiv_eq_ediv_of_nonneg (by omega)
  refine ⟨s.left + (s.right - s.left) / 2, ?_, by omega, by omega⟩
  rw [Bounds.half, int_eq_some (x := s.right - s.left) (by omega) (by omega), Option.bind_eq_bind,
    Option.bind_some, hdiv, int_eq_some (by omega) (by omega)]

/-- The element at the middle is the target. -/
theorem isResult_of_load (hsorted : nums.Pairwise (· ≤ ·)) (h : load nums i = some target) :
    IsResult nums target i := by
  obtain ⟨k, rfl, hk⟩ := load_eq_some_iff.mp h
  have hlt : k < nums.length := (List.getElem?_eq_some_iff.mp hk).1
  exact
    { nonneg := by omega
      le_length := by omega
      below := fun j x hj hjk => load_mono hsorted hj h (by omega)
      above := fun j x hj hkj => load_mono hsorted h hj hkj
      found := fun _ => h }

/-- One element is left, and the comparison with it decides on which side of it the target is. -/
theorem decideLast_spec (hs : Between nums target s) (hsize : nums.length < 2 ^ 31)
    (heq : s.left = s.right) : ∃ r, decideLast nums target s.left = some r ∧ IsResult nums target r := by
  have hleft := hs.left_nonneg
  have hright := hs.right_lt
  obtain ⟨x, hx⟩ := exists_load hleft (by omega : s.left < nums.length)
  have hmem : ∀ i, load nums i = some target → i = s.left := by
    intro i hi
    by_contra hne
    rcases lt_or_gt_of_ne hne with hlt | hgt
    · exact lt_irrefl _ (hs.below i target hi hlt)
    · exact lt_irrefl _ (hs.above i target hi (by omega))
  rw [decideLast, hx, Option.bind_eq_bind, Option.bind_some]
  by_cases hle : target ≤ x
  · rw [if_pos hle]
    refine ⟨s.left, rfl, hleft, by omega, ?_, ?_, ?_⟩
    · intro i y hi hlt
      exact (hs.below i y hi hlt).le
    · intro i y hi hge
      rcases eq_or_lt_of_le hge with rfl | hgt
      · rw [hx] at hi
        exact Option.some.inj hi ▸ hle
      · exact (hs.above i y hi (by omega)).le
    · intro hin
      obtain ⟨i, hi⟩ := mem_iff_load.mp hin
      rwa [hmem i hi] at hi
  · rw [if_neg hle, int_eq_some (by omega) (by omega)]
    refine ⟨s.left + 1, rfl, by omega, by omega, ?_, ?_, ?_⟩
    · intro i y hi hlt
      rcases eq_or_lt_of_le (by omega : i ≤ s.left) with rfl | hlt'
      · rw [hx] at hi
        cases hi
        omega
      · exact (hs.below i y hi hlt').le
    · intro i y hi hge
      exact (hs.above i y hi (by omega)).le
    · -- the only place it could be at holds something smaller
      intro hin
      obtain ⟨i, hi⟩ := mem_iff_load.mp hin
      rw [hmem i hi, hx] at hi
      cases hi
      exact absurd le_rfl hle

/-- A turn returns a right result, or makes the interval smaller and keeps what is known. -/
theorem searchTurn_spec (hsorted : nums.Pairwise (· ≤ ·)) (hsize : nums.length < 2 ^ 31)
    (hs : Between nums target s) :
    (∃ r, searchTurn nums target s = .done r ∧ ∃ k, r = some k ∧ IsResult nums target k)
      ∨ ∃ s', searchTurn nums target s = .next s' ∧ Between nums target s'
        ∧ (s'.right - s'.left).toNat < (s.right - s.left).toNat := by
  have hleft := hs.left_nonneg
  have hright := hs.right_lt
  by_cases hlt : s.left < s.right
  · obtain ⟨half, hhalf, hge, hhlt⟩ := half_spec hs hsize hlt
    obtain ⟨x, hx⟩ := exists_load (by omega : 0 ≤ half) (by omega : half < nums.length)
    rw [searchTurn, if_pos hlt, hhalf]
    simp only [hx]
    rcases lt_trichotomy target x with hlow | heq | hhigh
    · rw [if_pos hlow]
      refine .inr ⟨_, rfl, ⟨hleft, hge, by dsimp only; omega, hs.below, ?_⟩, by dsimp only; omega⟩
      intro i y hi hgt
      exact lt_of_lt_of_le hlow (load_mono hsorted hx hi hgt.le)
    · subst heq
      rw [if_neg (lt_irrefl _), if_neg (lt_irrefl _)]
      exact .inl ⟨_, rfl, half, rfl, isResult_of_load hsorted hx⟩
    · rw [if_neg hhigh.not_gt, if_pos hhigh, int_eq_some (by omega) (by omega)]
      refine .inr ⟨_, rfl, ⟨by dsimp only; omega, by dsimp only; omega, hright, ?_, hs.above⟩,
        by dsimp only; omega⟩
      intro i y hi hlt'
      exact lt_of_le_of_lt (load_mono hsorted hi hx (Int.lt_add_one_iff.mp hlt')) hhigh
  · obtain ⟨r, hr, hres⟩ := decideLast_spec hs hsize (le_antisymm hs.left_le (not_lt.mp hlt))
    rw [searchTurn, if_neg hlt]
    exact .inl ⟨_, rfl, r, hr, hres⟩

/-! ## The whole search -/

theorem IsResult.isInsertionPoint {k : Nat} (h : IsResult nums target k) :
    IsInsertionPoint nums target k where
  le_length := by
    have := h.le_length
    omega
  below i hi hlt := h.below i _ (by rw [load_natCast, List.getElem?_eq_getElem hi]) (by omega)
  above i hi hge := h.above i _ (by rw [load_natCast, List.getElem?_eq_getElem hi]) (by omega)

/-- On a sorted array that is not empty, the search ends without a read outside of the array. Nothing
before the result is larger than the target and nothing from it on is smaller; the result is a
position of the target if there is one, and else the one position where it can be inserted. -/
theorem search_insertion_point (nums : List Int) (target : Int) (hne : nums ≠ [])
    (hsorted : nums.Pairwise (· ≤ ·)) (hsize : nums.length < 2 ^ 31) :
    ∃ fuel, ∃ r : Nat, search fuel nums nums.length target = some (some (r : Int))
      ∧ r ≤ nums.length
      ∧ (∀ i (hi : i < nums.length), i < r → nums[i] ≤ target)
      ∧ (∀ i (hi : i < nums.length), r ≤ i → target ≤ nums[i])
      ∧ (target ∈ nums → nums[r]? = some target)
      ∧ (target ∉ nums → ∀ q ≤ nums.length,
          ((nums.insertIdx q target).Pairwise (· ≤ ·) ↔ q = r)) := by
  have hpos : 0 < nums.length := List.length_pos_iff.mpr hne
  obtain ⟨-, ⟨fuel, hrun⟩, r, rfl, hres⟩ :=
    exists_returns_of (fun s => (s.right - s.left).toNat) (between_start target hne)
      fun s hs => searchTurn_spec hsorted hsize hs
  obtain ⟨k, rfl⟩ := Int.eq_ofNat_of_zero_le hres.nonneg
  have hpoint := hres.isInsertionPoint
  refine ⟨fuel, k, ?_, hpoint.le_length, hpoint.below, hpoint.above, ?_, ?_⟩
  · rw [search, int_eq_some (by omega) (by omega)]
    exact hrun
  · intro hin
    rw [← load_natCast]
    exact hres.found hin
  · intro hnotin q hq
    rw [pairwise_insertIdx_iff hsorted hq]
    constructor
    · intro h
      exact hpoint.unique h hnotin
    · rintro rfl
      exact hpoint

/-- The array of `main`. -/
def mainNums : List Int := [-1, 0, 3, 5, 9, 12]

theorem search_insertion_point_main :
    mainNums ≠ [] ∧ mainNums.Pairwise (· ≤ ·) ∧ mainNums.length < 2 ^ 31
      ∧ ∃ fuel, ∃ r : Nat, search fuel mainNums mainNums.length 9 = some (some (r : Int))
        ∧ (9 ∈ mainNums → mainNums[r]? = some 9) := by
  obtain ⟨fuel, r, hsearch, -, -, -, hfound, -⟩ :=
    search_insertion_point mainNums 9 (by decide) (by decide) (by decide)
  exact ⟨by decide, by decide, by decide, fuel, r, hsearch, hfound⟩

-- with duplicates any position of the target may be returned; above all elements it is the length
example : search 3 mainNums 6 9 = some (some 4) ∧ search 4 mainNums 6 13 = some (some 6)
    ∧ search 3 [2, 2, 2, 7] 4 2 = some (some 1) := by decide

end UioLinuxSample.Dichotomy
