import Mathlib.Data.UInt
import UioLinuxSample.Lib.Run

set_option autoImplicit false

/-! # Counters that are added up while they count

Some machine counts events in many words, and never takes a count back. A reader adds the words up, one
load at a time, into a few sums, while the machine runs on. The words it adds are of different moments,
so a sum need not be one that the words ever had; but it lies between the sum at the moment the reader
starts and the sum at the moment it ends (`sums_between`), and is the sum of the words if nothing is
counted in between (`sums_quiet`).
-/

namespace Tally

open Run

/-- A machine with counters: the words they are kept in, and what an event adds to each. -/
structure Counters (σ ε κ : Type) where
  step : σ → ε → σ
  word : σ → κ → UInt64
  adds : σ → ε → κ → Nat

section Counters

variable {σ ε κ : Type} (C : Counters σ ε κ)

/-- The words change by what is counted. -/
def Counters.Lawful : Prop :=
  ∀ s e c, C.word (C.step s e) c = C.word s c + UInt64.ofNat (C.adds s e c)

/-- What a run adds to a counter. -/
def Counters.added (s : σ) : List ε → κ → Nat
  | [], _ => 0
  | e :: es, c => C.adds s e c + Counters.added (C.step s e) es c

variable {C}

theorem Counters.added_append (s : σ) (es fs : List ε) (c : κ) :
    C.added s (es ++ fs) c = C.added s es c + C.added (run C.step s es) fs c := by
  induction es generalizing s with
  | nil => exact (Nat.zero_add _).symm
  | cons e es ih =>
      change C.adds s e c + C.added (C.step s e) (es ++ fs) c = _
      rw [ih, ← Nat.add_assoc]
      rfl

theorem Counters.Lawful.word_run (hC : C.Lawful) (s : σ) (es : List ε) (c : κ) :
    C.word (run C.step s es) c = C.word s c + UInt64.ofNat (C.added s es c) := by
  induction es generalizing s with
  | nil => exact (UInt64.add_zero _).symm
  | cons e es ih =>
      change C.word (run C.step (C.step s e) es) c = _
      rw [ih, hC, UInt64.add_assoc, ← UInt64.ofNat_add]
      rfl

end Counters

/-! ## The reader -/

/-- The machine and a reader: the counters it has still to load, each with the sum it goes into. -/
structure Reading (σ κ ι : Type) where
  state : σ
  todo : List (κ × ι)
  sums : ι → UInt64

inductive Event (ε : Type) where
  | run (e : ε)
  | load

/-- What the machine does of a run. -/
def Event.own {ε : Type} : Event ε → Option ε
  | .run e => some e
  | .load => none

section Reader

variable {σ ε κ ι : Type} [DecidableEq ι] (C : Counters σ ε κ)

def readStep (r : Reading σ κ ι) : Event ε → Reading σ κ ι
  | .run e => { r with state := C.step r.state e }
  | .load =>
      match r.todo with
      | [] => r
      | (c, i) :: todo =>
          { r with todo := todo, sums := Function.update r.sums i (r.sums i + C.word r.state c) }

/-- What the counters that go into the sum `i` have together. -/
def share (count : κ → Nat) (i : ι) : List (κ × ι) → Nat
  | [] => 0
  | (c, j) :: todo => (if j = i then count c else 0) + share count i todo

theorem share_mono {f g : κ → Nat} (h : ∀ c, f c ≤ g c) (i : ι) (todo : List (κ × ι)) :
    share f i todo ≤ share g i todo := by
  induction todo with
  | nil => exact Nat.le_refl 0
  | cons p todo ih =>
      unfold share
      have := h p.1
      split <;> omega

theorem share_append (count : κ → Nat) (i : ι) (l l' : List (κ × ι)) :
    share count i (l ++ l') = share count i l + share count i l' := by
  induction l with
  | nil => exact (Nat.zero_add _).symm
  | cons p l ih => rw [List.cons_append, share, share, ih, Nat.add_assoc]

/-- Of a row of counters, each with its own sum, one goes into the sum `i`. -/
theorem share_row (count : κ → Nat) (row : Nat → κ) (n i : Nat) :
    share count i ((List.range n).map fun j => (row j, j)) = if i < n then count (row i) else 0 := by
  induction n with
  | zero => rfl
  | succ n ih =>
      rw [List.range_succ, List.map_append, share_append, ih]
      simp only [List.map_cons, List.map_nil, share]
      split_ifs <;> grind

variable {C}

/-- The reader of a run that starts with `sums` adds a number that lies between what the counters had
and what they have. -/
theorem sums_between (hC : C.Lawful) (es : List (Event ε)) (r : Reading σ κ ι) (count : κ → Nat)
    (hcount : ∀ c, C.word r.state c = UInt64.ofNat (count c))
    (hdone : (run (readStep C) r es).todo = []) (i : ι) :
    ∃ n, (run (readStep C) r es).sums i = r.sums i + UInt64.ofNat n
      ∧ share count i r.todo ≤ n
      ∧ n ≤ share (fun c => count c + C.added r.state (es.filterMap Event.own) c) i r.todo := by
  induction es generalizing r count with
  | nil =>
      have htodo : r.todo = [] := hdone
      rw [htodo]
      exact ⟨0, (UInt64.add_zero _).symm, Nat.le_refl 0, Nat.le_refl 0⟩
  | cons e es ih =>
      cases e with
      | run e =>
          -- the words are larger when the reader gets to them
          let count' : κ → Nat := fun c => count c + C.adds r.state e c
          have hcount' : ∀ c, C.word (C.step r.state e) c = UInt64.ofNat (count' c) := fun c => by
            rw [hC, hcount, ← UInt64.ofNat_add]
          obtain ⟨n, hn, hlow, hhigh⟩ := ih { r with state := C.step r.state e } count' hcount' hdone
          refine ⟨n, hn, (share_mono (fun c => Nat.le_add_right _ _) i _).trans hlow, ?_⟩
          simp only [count', Nat.add_assoc] at hhigh
          exact hhigh
      | load =>
          obtain ⟨s, todo, sums⟩ := r
          cases todo with
          | nil => exact ih ⟨s, [], sums⟩ count hcount hdone
          | cons p todo =>
              obtain ⟨c, j⟩ := p
              obtain ⟨n, hn, hlow, hhigh⟩ :=
                ih ⟨s, todo, Function.update sums j (sums j + C.word s c)⟩ count hcount hdone
              change _ = Function.update sums j (sums j + C.word s c) i + _ at hn
              change share _ i todo ≤ n at hlow
              change n ≤ share _ i todo at hhigh
              change ∃ n, (run (readStep C) _ es).sums i = sums i + _ ∧ share _ i ((c, j) :: todo) ≤ n
                ∧ n ≤ share _ i ((c, j) :: todo)
              unfold share
              rcases eq_or_ne j i with rfl | hne
              · rw [Function.update_self, UInt64.add_assoc] at hn
                have hsum : C.word s c + UInt64.ofNat n = UInt64.ofNat (count c + n) := by
                  rw [UInt64.ofNat_add, ← hcount c]
                refine ⟨count c + n, hn.trans (congrArg (sums j + ·) hsum), ?_, ?_⟩ <;>
                  rw [if_pos rfl]
                · exact Nat.add_le_add_left hlow _
                · exact Nat.add_le_add (Nat.le_add_right _ _) hhigh
              · rw [Function.update_of_ne hne.symm] at hn
                refine ⟨n, hn, ?_, ?_⟩ <;> rw [if_neg hne, Nat.zero_add]
                · exact hlow
                · exact hhigh

theorem ofNat_sum_toNat (words : List UInt64) :
    UInt64.ofNat (words.map UInt64.toNat).sum = words.sum := by
  induction words with
  | nil => rfl
  | cons w words ih =>
      rw [List.map_cons, List.sum_cons, List.sum_cons, UInt64.ofNat_add, UInt64.ofNat_toNat, ih]

/-- While nothing is counted, the reader adds up what the words have. -/
theorem sums_quiet (hC : C.Lawful) {es : List (Event ε)} (hquiet : es.filterMap Event.own = [])
    (r : Reading σ κ ι) (hdone : (run (readStep C) r es).todo = []) (i : ι) :
    (run (readStep C) r es).sums i
      = r.sums i + UInt64.ofNat (share (fun c => (C.word r.state c).toNat) i r.todo) := by
  obtain ⟨n, hn, hlow, hhigh⟩ := sums_between hC es r (fun c => (C.word r.state c).toNat)
    (fun c => UInt64.ofNat_toNat.symm) hdone i
  rw [hquiet] at hhigh
  rw [hn, Nat.le_antisymm hhigh hlow]
  rfl

end Reader

end Tally
