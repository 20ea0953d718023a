import Mathlib.Tactic

set_option autoImplicit false

/-! # A bump arena of variable-length records

A fixed block of cells is handed out from the bottom: every record owns a slice of consecutive
cells, the next record starts where the last one ended, and clearing resets the two counters
and nothing else. A record has a header of type `β` beside its slice of cells of type `α`.

The abstraction function is `shown`, the list of the published records with their contents.
`Tiled` is the layout invariant: the slices follow each other without gaps and cover exactly
the cells handed out so far. Under it, publishing a record appends to `shown`
(`shown_push`), whatever the write of its cells did beyond the slice it keeps.

Arrays are functions of the index. The capacity is not part of the arena: it is a bound on the
counters, kept by the client that checks it.
-/

/-- A run of consecutive cells. -/
structure Slice where
  start : Nat
  len : Nat
  deriving DecidableEq

/-- Write `xs` to the cells from `off` on. -/
def blit {α : Type*} (mem : Nat → α) (off : Nat) (xs : List α) (i : Nat) : α :=
  if i < off then mem i else (xs[i - off]?).getD (mem i)

theorem blit_of_lt {α : Type*} (mem : Nat → α) {off : Nat} (xs : List α) {i : Nat}
    (h : i < off) : blit mem off xs i = mem i :=
  if_pos h

theorem blit_add {α : Type*} (mem : Nat → α) (off : Nat) (xs : List α) {j : Nat}
    (h : j < xs.length) : blit mem off xs (off + j) = xs[j] := by
  simp [blit, h]

@[simp] theorem blit_nil {α : Type*} (mem : Nat → α) (off : Nat) : blit mem off [] = mem := by
  funext i
  simp [blit]

theorem blit_cons {α : Type*} (mem : Nat → α) (off : Nat) (x : α) (xs : List α) :
    blit mem off (x :: xs) = blit (Function.update mem off x) (off + 1) xs := by
  funext i
  unfold blit
  rcases lt_trichotomy i off with hlt | rfl | hgt
  · simp [hlt, hlt.ne, Nat.lt_succ_of_lt hlt]
  · simp
  · have hsub : i - off = i - (off + 1) + 1 := by omega
    have hge : ¬ i < off + 1 := by omega
    simp [hgt.not_gt, hge, hsub, hgt.ne']

/-- The cells `[off, off + n)`, read back in order. -/
def readCells {α : Type*} (mem : Nat → α) (s : Slice) : List α :=
  (List.range s.len).map fun j => mem (s.start + j)

/-- A slice that ends at or below `off` does not see a write at `off`. -/
theorem readCells_blit_of_le {α : Type*} (mem : Nat → α) (off : Nat) (xs : List α) (s : Slice)
    (h : s.start + s.len ≤ off) : readCells (blit mem off xs) s = readCells mem s := by
  refine List.map_congr_left fun j hj => blit_of_lt mem xs ?_
  have := List.mem_range.mp hj
  omega

/-- Reading back the first `n` cells of a write. -/
theorem readCells_blit_self {α : Type*} (mem : Nat → α) (off n : Nat) (xs : List α)
    (h : n ≤ xs.length) : readCells (blit mem off xs) ⟨off, n⟩ = xs.take n := by
  refine List.ext_getElem (by simp [readCells, h]) fun j hj _ => ?_
  have hjn : j < n := by simpa [readCells] using hj
  simp [readCells, blit_add mem off xs (show j < xs.length by omega)]

/-- The counters, the headers, the slices and the cells of an arena. -/
structure Arena (β α : Type*) where
  nrRecs : Nat
  nrCells : Nat
  heads : Nat → β
  slices : Nat → Slice
  cells : Nat → α

namespace Arena

variable {β α : Type*}

/-- Record `i` with its contents. -/
def record (A : Arena β α) (i : Nat) : β × List α := (A.heads i, readCells A.cells (A.slices i))

/-- The published records, oldest first. -/
def shown (A : Arena β α) : List (β × List α) := (List.range A.nrRecs).map A.record

/-- The slices of the published records are consecutive, start at `0` and end at `nrCells`. -/
structure Tiled (A : Arena β α) : Prop where
  start_eq : ∀ i < A.nrRecs, (A.slices i).start = ∑ j ∈ Finset.range i, (A.slices j).len
  nrCells_eq : A.nrCells = ∑ j ∈ Finset.range A.nrRecs, (A.slices j).len

/-- Publish a record: its words `xs` are written from the first free cell on and its first
`keep` words are kept. -/
def push (A : Arena β α) (b : β) (xs : List α) (keep : Nat) : Arena β α where
  nrRecs := A.nrRecs + 1
  nrCells := A.nrCells + keep
  heads := Function.update A.heads A.nrRecs b
  slices := Function.update A.slices A.nrRecs ⟨A.nrCells, keep⟩
  cells := blit A.cells A.nrCells xs

/-- Forget the records; headers, slices and cells keep what they hold. -/
def clear (A : Arena β α) : Arena β α := { A with nrRecs := 0, nrCells := 0 }

@[simp] theorem shown_clear (A : Arena β α) : A.clear.shown = [] := rfl

theorem tiled_clear (A : Arena β α) : A.clear.Tiled where
  start_eq := fun _ hi => absurd hi (Nat.not_lt_zero _)
  nrCells_eq := rfl

/-! ## The layout -/

section Layout

variable {A : Arena β α}

/-- The slice of a published record ends inside the cells handed out. -/
theorem Tiled.end_le (h : A.Tiled) {i : Nat} (hi : i < A.nrRecs) :
    (A.slices i).start + (A.slices i).len ≤ A.nrCells := by
  rw [h.start_eq i hi, h.nrCells_eq, ← Finset.sum_range_succ]
  exact Finset.sum_le_sum_of_subset (by simpa using hi)

/-- The next slice starts where this one ends. -/
theorem Tiled.next_start (h : A.Tiled) {i : Nat} (hi : i + 1 < A.nrRecs) :
    (A.slices (i + 1)).start = (A.slices i).start + (A.slices i).len := by
  rw [h.start_eq _ hi, h.start_eq i (by omega), Finset.sum_range_succ]

/-- Slices of different records do not overlap. -/
theorem Tiled.disjoint (h : A.Tiled) {i j : Nat} (hij : i < j) (hj : j < A.nrRecs) :
    (A.slices i).start + (A.slices i).len ≤ (A.slices j).start := by
  rw [h.start_eq i (by omega), h.start_eq j hj, ← Finset.sum_range_succ]
  exact Finset.sum_le_sum_of_subset (by simpa using hij)

/-- Every cell handed out belongs to a published record. -/
theorem Tiled.cover (h : A.Tiled) {c : Nat} (hc : c < A.nrCells) :
    ∃ i < A.nrRecs, (A.slices i).start ≤ c ∧ c < (A.slices i).start + (A.slices i).len := by
  -- the first prefix of the slices whose total length passes `c` ends with the slice of `c`
  have hex : ∃ n, c < ∑ j ∈ Finset.range n, (A.slices j).len := ⟨A.nrRecs, h.nrCells_eq ▸ hc⟩
  have hspec := Nat.find_spec hex
  obtain ⟨i, hi⟩ : ∃ i, Nat.find hex = i + 1 := by
    refine Nat.exists_eq_succ_of_ne_zero fun h0 => ?_
    rw [h0] at hspec
    simp at hspec
  have hmin : ¬ c < ∑ j ∈ Finset.range i, (A.slices j).len :=
    Nat.find_min hex (by omega)
  have hin : i < A.nrRecs := by
    have := Nat.find_min' hex (h.nrCells_eq ▸ hc)
    omega
  rw [hi, Finset.sum_range_succ] at hspec
  refine ⟨i, hin, ?_, ?_⟩
  · rw [h.start_eq i hin]; omega
  · rw [h.start_eq i hin]; exact hspec

end Layout

/-! ## Publishing -/

section Push

variable {A : Arena β α} (b : β) (xs : List α) {keep : Nat}

theorem push_slices_of_lt {i : Nat} (hi : i < A.nrRecs) :
    (A.push b xs keep).slices i = A.slices i :=
  Function.update_of_ne (by omega) _ _

theorem push_slices_self : (A.push b xs keep).slices A.nrRecs = ⟨A.nrCells, keep⟩ :=
  Function.update_self _ _ _

theorem sum_len_push {n : Nat} (hn : n ≤ A.nrRecs) :
    ∑ j ∈ Finset.range n, ((A.push b xs keep).slices j).len
      = ∑ j ∈ Finset.range n, (A.slices j).len := by
  refine Finset.sum_congr rfl fun j hj => ?_
  rw [push_slices_of_lt b xs (by have := Finset.mem_range.mp hj; omega)]

theorem Tiled.push (h : A.Tiled) : (A.push b xs keep).Tiled where
  start_eq := by
    intro i hi
    have hi' : i ≤ A.nrRecs := Nat.le_of_lt_succ hi
    rw [sum_len_push b xs hi']
    rcases Nat.lt_or_eq_of_le hi' with hlt | rfl
    · rw [push_slices_of_lt b xs hlt, h.start_eq i hlt]
    · rw [push_slices_self, h.nrCells_eq]
  nrCells_eq := by
    show A.nrCells + keep = ∑ j ∈ Finset.range (A.nrRecs + 1), _
    rw [Finset.sum_range_succ, sum_len_push b xs (Nat.le_refl _), push_slices_self, h.nrCells_eq]

/-- Publishing leaves every earlier record as it was. -/
theorem record_push_of_lt (h : A.Tiled) {i : Nat} (hi : i < A.nrRecs) :
    (A.push b xs keep).record i = A.record i := by
  unfold record
  rw [push_slices_of_lt b xs hi]
  show (Function.update A.heads A.nrRecs b i, readCells (blit A.cells A.nrCells xs) _) = _
  rw [Function.update_of_ne (by omega), readCells_blit_of_le _ _ _ _ (h.end_le hi)]

theorem record_push_self (hk : keep ≤ xs.length) :
    (A.push b xs keep).record A.nrRecs = (b, xs.take keep) := by
  unfold record
  rw [push_slices_self]
  show (Function.update A.heads A.nrRecs b A.nrRecs, readCells (blit A.cells A.nrCells xs) _) = _
  rw [Function.update_self, readCells_blit_self _ _ _ _ hk]

/-- **Publishing appends.** The list of records grows by the new one at its end. -/
theorem shown_push (h : A.Tiled) (hk : keep ≤ xs.length) :
    (A.push b xs keep).shown = A.shown ++ [(b, xs.take keep)] := by
  show (List.range (A.nrRecs + 1)).map _ = _
  rw [List.range_succ, List.map_append, List.map_singleton, record_push_self b xs hk]
  congr 1
  exact List.map_congr_left fun i hi => record_push_of_lt b xs h (List.mem_range.mp hi)

end Push

/-! ## Clients

A client of the arena takes one of three actions: it refuses a record because a capacity check
fails, it publishes one, or it clears. `Action.log` is the list of records that a history of
actions leaves, and `Good` relates an arena to it. -/

inductive Action (β α : Type*) where
  | refuse
  | push (b : β) (xs : List α) (keep : Nat)
  | clear

/-- The arena after an action. -/
def act (A : Arena β α) : Action β α → Arena β α
  | .refuse => A
  | .push b xs keep => A.push b xs keep
  | .clear => A.clear

/-- The records that remain after an action, when `log` was there before. -/
def Action.log (log : List (β × List α)) : Action β α → List (β × List α)
  | .refuse => log
  | .push b xs keep => log ++ [(b, xs.take keep)]
  | .clear => []

/-- The client keeps within the words it has written and within its capacities. -/
def Action.Fits (maxRecs maxCells : Nat) (A : Arena β α) : Action β α → Prop
  | .push _ xs keep =>
      keep ≤ xs.length ∧ A.nrRecs < maxRecs ∧ A.nrCells + keep ≤ maxCells
  | _ => True

/-- The arena holds exactly the records of `log`, tiled and within the capacities. -/
structure Good (maxRecs maxCells : Nat) (A : Arena β α) (log : List (β × List α)) : Prop where
  nrRecs_le : A.nrRecs ≤ maxRecs
  nrCells_le : A.nrCells ≤ maxCells
  tiled : A.Tiled
  shown_eq : A.shown = log

/-- **The client rule.** An action that fits keeps the arena good. -/
theorem Good.act {maxRecs maxCells : Nat} {A : Arena β α} {log : List (β × List α)}
    (h : Good maxRecs maxCells A log) (a : Action β α) (hfit : a.Fits maxRecs maxCells A) :
    Good maxRecs maxCells (A.act a) (a.log log) := by
  cases a with
  | refuse => exact h
  | push b xs keep =>
      obtain ⟨hk, hrecs, hcells⟩ := hfit
      refine ⟨hrecs, hcells, h.tiled.push b xs, ?_⟩
      show (A.push b xs keep).shown = log ++ [(b, xs.take keep)]
      rw [shown_push b xs h.tiled hk, h.shown_eq]
  | clear => exact ⟨Nat.zero_le _, Nat.zero_le _, tiled_clear A, shown_clear A⟩

end Arena
