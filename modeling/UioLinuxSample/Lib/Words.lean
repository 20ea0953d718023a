import Mathlib.Tactic
import Mathlib.Data.Nat.Bitwise
import Mathlib.Data.Nat.Digits.Lemmas

set_option autoImplicit false

/-! # Machine words as bytes and as fields of bits

A word of memory is a list of bytes, and its value depends on the byte order of the host. A word
is also a record of bit fields, taken out and put together by shifts and masks.

* `Endian.value` is the value of a list of bytes; shifting the bytes into a word, the most
  significant one first, gives that value modulo the word size (`shiftIn_eq`).
* A mask of low bits is a remainder, a mask of high bits a multiple of a power of two, and an or
  with a value below the shifted one is a sum. These lemmas turn the bit operations of a program
  into arithmetic.
-/

namespace Words

/-! ## Byte order -/

inductive Endian where
  | little
  | big
  deriving DecidableEq

/-- The value of an unsigned integer with these bytes in memory. -/
def Endian.value : Endian → List UInt8 → Nat
  | .little, bs => Nat.ofDigits 256 (bs.map UInt8.toNat)
  | .big, bs => Nat.ofDigits 256 (bs.reverse.map UInt8.toNat)

/-- The `w` low bytes of `n`, least significant first. -/
def lowBytes : Nat → Nat → List UInt8
  | 0, _ => []
  | w + 1, n => UInt8.ofNat n :: lowBytes w (n / 256)

/-- The bytes in memory of `n` in an integer of `w` bytes. -/
def Endian.bytes : Endian → Nat → Nat → List UInt8
  | .little, w, n => lowBytes w n
  | .big, w, n => (lowBytes w n).reverse

theorem Endian.value_little (bs : List UInt8) :
    Endian.little.value bs = Endian.big.value bs.reverse := by
  show _ = Nat.ofDigits 256 (bs.reverse.reverse.map UInt8.toNat)
  rw [List.reverse_reverse]
  rfl

theorem Endian.value_big_cons (b : UInt8) (bs : List UInt8) :
    Endian.big.value (b :: bs) = b.toNat * 256 ^ bs.length + Endian.big.value bs := by
  show Nat.ofDigits 256 ((b :: bs).reverse.map UInt8.toNat)
    = b.toNat * 256 ^ bs.length + Nat.ofDigits 256 (bs.reverse.map UInt8.toNat)
  rw [List.reverse_cons, List.map_append, Nat.ofDigits_append, List.length_map,
    List.length_reverse, List.map_singleton, Nat.ofDigits_singleton]
  ring

/-- Bytes shifted into a word one after the other. -/
def shiftIn (acc : UInt64) (bs : List UInt8) : UInt64 :=
  bs.foldl (fun acc b => (acc <<< 8) + b.toUInt64) acc

theorem shift_byte_toNat (acc : UInt64) (b : UInt8) :
    ((acc <<< 8) + b.toUInt64).toNat = (acc.toNat * 256 + b.toNat) % 2 ^ 64 := by
  rw [UInt64.toNat_add, UInt64.toNat_shiftLeft, show (8 : UInt64).toNat % 64 = 8 from rfl,
    Nat.shiftLeft_eq, UInt8.toNat_toUInt64, Nat.mod_add_mod]

/-- **Byte by byte is big-endian.** The induction carries the bytes already shifted in. -/
theorem shiftIn_eq (acc : UInt64) (bs : List UInt8) :
    shiftIn acc bs = UInt64.ofNat (acc.toNat * 256 ^ bs.length + Endian.big.value bs) := by
  induction bs generalizing acc with
  | nil => simp [shiftIn, Endian.value]
  | cons b bs ih =>
      show shiftIn ((acc <<< 8) + b.toUInt64) bs = _
      rw [ih, shift_byte_toNat, Endian.value_big_cons, List.length_cons]
      apply UInt64.toNat_inj.mp
      rw [UInt64.toNat_ofNat', UInt64.toNat_ofNat']
      -- the carry out of the word does not come back
      conv_lhs => rw [Nat.add_mod, Nat.mod_mul_mod, ← Nat.add_mod]
      ring_nf

/-! ## Network byte order -/

section NetworkOrder

theorem length_lowBytes (w n : Nat) : (lowBytes w n).length = w := by
  induction w generalizing n with
  | zero => rfl
  | succ w ih => rw [lowBytes, List.length_cons, ih]

theorem Endian.length_bytes (e : Endian) (w n : Nat) : (e.bytes w n).length = w := by
  cases e
  · exact length_lowBytes w n
  · exact List.length_reverse.trans (length_lowBytes w n)

theorem value_lowBytes (w n : Nat) : Endian.little.value (lowBytes w n) = n % 256 ^ w := by
  induction w generalizing n with
  | zero => simp [lowBytes, Endian.value, Nat.mod_one]
  | succ w ih =>
      have hmod : n % 256 ^ (w + 1) = n % 256 + 256 * (n / 256 % 256 ^ w) := by
        rw [pow_succ', Nat.mod_mul]
      show Nat.ofDigits 256 ((UInt8.ofNat n).toNat :: (lowBytes w (n / 256)).map UInt8.toNat) = _
      rw [Nat.ofDigits_cons, UInt8.toNat_ofNat', hmod]
      exact congrArg (fun m => n % 256 + 256 * m) (ih (n / 256))

theorem lowBytes_value (bs : List UInt8) :
    lowBytes bs.length (Endian.little.value bs) = bs := by
  induction bs with
  | nil => rfl
  | cons b bs ih =>
      have hcons : Endian.little.value (b :: bs) = b.toNat + 256 * Endian.little.value bs := by
        show Nat.ofDigits 256 (b.toNat :: bs.map UInt8.toNat) = _
        rw [Nat.ofDigits_cons]
        rfl
      have hb := b.toNat_lt
      have hlow : UInt8.ofNat (Endian.little.value (b :: bs)) = b := by
        apply UInt8.toNat_inj.mp
        rw [UInt8.toNat_ofNat', hcons]
        omega
      have hhigh : Endian.little.value (b :: bs) / 256 = Endian.little.value bs := by
        rw [hcons]
        omega
      rw [List.length_cons, lowBytes, hlow, hhigh, ih]

theorem Endian.value_bytes (e : Endian) {w n : Nat} (hn : n < 256 ^ w) :
    e.value (e.bytes w n) = n := by
  cases e
  · exact (value_lowBytes w n).trans (Nat.mod_eq_of_lt hn)
  · show Nat.ofDigits 256 ((lowBytes w n).reverse.reverse.map UInt8.toNat) = n
    rw [List.reverse_reverse]
    exact (value_lowBytes w n).trans (Nat.mod_eq_of_lt hn)

theorem Endian.value_lt (e : Endian) (bs : List UInt8) : e.value bs < 256 ^ bs.length := by
  have hlt : ∀ bs : List UInt8, Nat.ofDigits 256 (bs.map UInt8.toNat) < 256 ^ bs.length := by
    intro bs
    have hdigits : ∀ d ∈ bs.map UInt8.toNat, d < 256 := by
      intro d hd
      obtain ⟨b, -, rfl⟩ := List.mem_map.mp hd
      exact b.toNat_lt
    simpa using Nat.ofDigits_lt_base_pow_length (by decide) hdigits
  cases e
  · exact hlt bs
  · exact (hlt bs.reverse).trans_eq (by rw [List.length_reverse])

/-- The bytes of an integer of `w` bytes in the other order. -/
def swapBytes (w n : Nat) : Nat := Endian.big.value (Endian.little.bytes w n)

/-- The conversion between host and network byte order, in both directions. -/
def Endian.network (e : Endian) (w n : Nat) : Nat :=
  match e with
  | .little => swapBytes w n
  | .big => n

/-- The bytes that are sent do not depend on the host. -/
theorem Endian.bytes_network (e : Endian) (w n : Nat) :
    e.bytes w (e.network w n) = Endian.big.bytes w n := by
  cases e with
  | big => rfl
  | little =>
      have hback := lowBytes_value (lowBytes w n).reverse
      rw [List.length_reverse, length_lowBytes] at hback
      exact hback

/-- Every host reads them as the same number. -/
theorem Endian.network_value (e : Endian) (bs : List UInt8) :
    e.network bs.length (e.value bs) = Endian.big.value bs := by
  cases e with
  | big => rfl
  | little => exact congrArg Endian.big.value (lowBytes_value bs)

end NetworkOrder

/-! ## Fields of bits -/

section Fields

variable {k : Nat}

theorem toNat_ofNat_pow (hk : k < 64) : (UInt64.ofNat (2 ^ k)).toNat = 2 ^ k := by
  rw [UInt64.toNat_ofNat']
  exact Nat.mod_eq_of_lt (Nat.pow_lt_pow_right (by decide) hk)

theorem toNat_ofNat_amount (hk : k < 64) : (UInt64.ofNat k).toNat % 64 = k := by
  rw [UInt64.toNat_ofNat', Nat.mod_eq_of_lt (show k < 2 ^ 64 by omega), Nat.mod_eq_of_lt hk]

/-- A mask of low bits. -/
theorem toNat_and_low (x : UInt64) (k : Nat) (hk : k < 64) :
    (x &&& UInt64.ofNat (2 ^ k - 1)).toNat = x.toNat % 2 ^ k := by
  have hlt : 2 ^ k < 2 ^ 64 := Nat.pow_lt_pow_right (by decide) hk
  rw [UInt64.toNat_and, UInt64.toNat_ofNat', Nat.mod_eq_of_lt (by omega),
    Nat.and_two_pow_sub_one_eq_mod]

/-- A mask that clears the low bits. -/
theorem and_high (n k w : Nat) (hn : n < 2 ^ (w + k)) :
    n &&& 2 ^ k * (2 ^ w - 1) = n / 2 ^ k * 2 ^ k := by
  apply Nat.eq_of_testBit_eq
  intro i
  rw [Nat.testBit_and, Nat.mul_comm (2 ^ k), Nat.testBit_mul_two_pow, Nat.testBit_mul_two_pow,
    Nat.testBit_two_pow_sub_one, Nat.testBit_div_two_pow]
  by_cases hik : k ≤ i
  · by_cases hiw : i - k < w
    · simp [hik, hiw]
    · have hzero : n.testBit i = false := by
        apply Nat.testBit_lt_two_pow
        exact hn.trans_le (Nat.pow_le_pow_right (by decide) (by omega))
      simp [hik, hzero]
  · simp [hik]

/-- Two fields put together: nothing of the lower one reaches the shifted one. -/
theorem shiftLeft_or (x y : UInt64) (hk : k < 64) (hy : y.toNat < 2 ^ k) :
    (x <<< UInt64.ofNat k) ||| y = x * UInt64.ofNat (2 ^ k) + y := by
  have hsplit : 2 ^ 64 = 2 ^ (64 - k) * 2 ^ k := by
    rw [← pow_add, Nat.sub_add_cancel hk.le]
  have hshift : (x <<< UInt64.ofNat k).toNat = x.toNat % 2 ^ (64 - k) * 2 ^ k := by
    rw [UInt64.toNat_shiftLeft, toNat_ofNat_amount hk, Nat.shiftLeft_eq, hsplit,
      Nat.mul_mod_mul_right]
  have hmul : (x * UInt64.ofNat (2 ^ k)).toNat = x.toNat % 2 ^ (64 - k) * 2 ^ k := by
    rw [UInt64.toNat_mul, toNat_ofNat_pow hk, hsplit, Nat.mul_mod_mul_right]
  have hroom : x.toNat % 2 ^ (64 - k) * 2 ^ k + y.toNat < 2 ^ 64 := by
    have hq : x.toNat % 2 ^ (64 - k) + 1 ≤ 2 ^ (64 - k) :=
      Nat.mod_lt _ (Nat.two_pow_pos _)
    calc x.toNat % 2 ^ (64 - k) * 2 ^ k + y.toNat
        < x.toNat % 2 ^ (64 - k) * 2 ^ k + 2 ^ k := Nat.add_lt_add_left hy _
      _ = (x.toNat % 2 ^ (64 - k) + 1) * 2 ^ k := by ring
      _ ≤ 2 ^ (64 - k) * 2 ^ k := Nat.mul_le_mul_right _ hq
      _ = 2 ^ 64 := hsplit.symm
  apply UInt64.toNat_inj.mp
  rw [UInt64.toNat_or, UInt64.toNat_add, hshift, hmul, Nat.mod_eq_of_lt hroom,
    ← Nat.shiftLeft_eq, ← Nat.shiftLeft_add_eq_or_of_lt hy]

end Fields

end Words
