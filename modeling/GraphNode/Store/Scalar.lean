import GraphNode.Library.Bytes
import Mathlib.Data.Nat.Log
import Mathlib.Tactic.NormNum

/-!
# Big integers, `U256` and their bytes

`graph/src/data/store/scalar.rs`.  `BigInt` wraps num-bigint's integer, and its conversions
to and from `U256` go through byte strings.  Unsigned, these are the magnitude's little-endian
bytes up to its last nonzero byte (`BigUint::to_bytes_le`; zero is one zero byte).  Signed,
they are the shortest two's complement bytes (`to_signed_bytes_le`): the magnitude's bytes, with
a zero byte pushed where the top bit of the last is taken, negated in place for a negative
number.  A `U256` is 32 bytes: `U256::from_little_endian` asserts that it is given at most 32,
and `to_signed_u256` pads a negative number's bytes with `0xff` up to 32.  A panic is `none`.

The signed bytes of a number are found once for each sign, as `toBytes` of a width and the
number modulo that width, where the width is the least that holds the number
(`toSignedBytesLe_natCast`, `toSignedBytesLe_neg`).  The least width decides the assert of
`to_signed_u256`, and from it follow the four round trips between `BigInt` and `U256`.
-/

namespace GraphNode

namespace Scalar

open LittleEndian

/-- `num_bigint::Sign`. -/
inductive Sign where
  | minus
  | noSign
  | plus
  deriving DecidableEq, Repr

/-- `BigUint::to_bytes_le`: the bytes up to the last nonzero one; zero is one zero byte. -/
def BigUint.toBytesLe (m : Nat) : List UInt8 :=
  toBytes (Nat.log 256 m + 1) m

/-- `U256`, as the number its four 64-bit words hold. -/
@[ext]
structure U256 where
  value : Nat
  lt : value < 2 ^ 256
  deriving DecidableEq

namespace U256

theorem ofBytes_lt_of_length_le {bytes : List UInt8} (fits : bytes.length ≤ 32) :
    ofBytes bytes < 2 ^ 256 :=
  calc ofBytes bytes < 256 ^ bytes.length := ofBytes_lt bytes
    _ ≤ 256 ^ 32 := Nat.pow_le_pow_right (by decide) fits
    _ = 2 ^ 256 := by norm_num

/-- `U256::to_little_endian` into a buffer of 32 bytes. -/
def toLittleEndian (n : U256) : List UInt8 :=
  toBytes 32 n.value

/-- `U256::from_little_endian`: asserts that there are at most 32 bytes. -/
def fromLittleEndian (bytes : List UInt8) : Option U256 :=
  if fits : bytes.length ≤ 32 then some ⟨ofBytes bytes, ofBytes_lt_of_length_le fits⟩ else none

theorem fromLittleEndian_toBytes {width n : Nat} (fits : width ≤ 32) (lt : n < 256 ^ width) :
    fromLittleEndian (toBytes width n) =
      some ⟨n, (ofBytes_toBytes_of_lt lt).symm ▸ ofBytes_lt_of_length_le (by simpa using fits)⟩ := by
  rw [fromLittleEndian, dif_pos (by simpa using fits)]
  simp only [Option.some.injEq, U256.mk.injEq]
  exact ofBytes_toBytes_of_lt lt

end U256

namespace BigInt

/-- `BigInt::to_bytes_le`: the sign and the magnitude's bytes. -/
def toBytesLe (n : Int) : Sign × List UInt8 :=
  (if n < 0 then .minus else if n = 0 then .noSign else .plus, BigUint.toBytesLe n.natAbs)

/-- `BigInt::to_signed_bytes_le`: where the magnitude's last byte has its top bit set a zero
byte is pushed, except for a negative number whose magnitude is that bit alone; a negative
number's bytes are then negated in place. -/
def toSignedBytesLe (n : Int) : List UInt8 :=
  let bytes := BigUint.toBytesLe n.natAbs
  let lastByte := bytes.getLast?.getD 0
  let bytes :=
    if 0x7f < lastByte.toNat ∧
        ¬(lastByte.toNat = 0x80 ∧ bytes.dropLast.all (· == 0) = true ∧ n < 0) then
      bytes ++ [0]
    else bytes
  if n < 0 then twosComplement true bytes else bytes

/-- `BigInt::from_unsigned_bytes_le`. -/
def fromUnsignedBytesLe (bytes : List UInt8) : Int :=
  ofBytes bytes

/-- `BigInt::from_signed_bytes_le`: bytes whose last byte has its top bit set are negated in
place and read as the magnitude of a negative number. -/
def fromSignedBytesLe (bytes : List UInt8) : Int :=
  let isNegative :=
    match bytes.getLast? with
    | some last => decide (0x7f < last.toNat)
    | none => false
  if isNegative then -(ofBytes (twosComplement true bytes) : Int) else ofBytes bytes

/-- `BigInt::from_unsigned_u256`. -/
def fromUnsignedU256 (n : U256) : Int :=
  fromUnsignedBytesLe n.toLittleEndian

/-- `BigInt::from_signed_u256`. -/
def fromSignedU256 (n : U256) : Int :=
  fromSignedBytesLe n.toLittleEndian

/-- `BigInt::to_signed_u256`: a negative number's bytes are asserted to be at most 32 and
padded with `0xff`; the bytes of any other go to `U256::from_little_endian` as they are. -/
def toSignedU256 (n : Int) : Option U256 :=
  let bytes := toSignedBytesLe n
  if n < 0 then
    if bytes.length ≤ 32 then
      U256.fromLittleEndian (bytes ++ List.replicate (32 - bytes.length) 255)
    else none
  else U256.fromLittleEndian bytes

/-- `BigInt::to_unsigned_u256`: the sign is asserted not negative. -/
def toUnsignedU256 (n : Int) : Option U256 :=
  let (sign, bytes) := toBytesLe n
  if sign = .noSign ∨ sign = .plus then U256.fromLittleEndian bytes else none

/-! ## The signed bytes of a number -/

theorem lt_pow_log (m : Nat) : m < 256 ^ (Nat.log 256 m + 1) :=
  Nat.lt_pow_succ_log_self (by decide) m

theorem lastByte_toBytesLe (m : Nat) :
    ((BigUint.toBytesLe m).getLast?.getD 0).toNat = m / 256 ^ Nat.log 256 m := by
  rw [BigUint.toBytesLe, getLast?_toBytes, Option.getD_some, toNat_topByte (lt_pow_log m)]

theorem dropLast_all_zero_toBytesLe (m : Nat) :
    (BigUint.toBytesLe m).dropLast.all (· == 0) = true ↔ m % 256 ^ Nat.log 256 m = 0 := by
  rw [BigUint.toBytesLe, dropLast_toBytes, all_zero_toBytes]

theorem toBytesLe_append_zero (m : Nat) :
    BigUint.toBytesLe m ++ [0] = toBytes (Nat.log 256 m + 2) m := by
  rw [toBytes_succ', Nat.div_eq_of_lt (lt_pow_log m), BigUint.toBytesLe]
  rfl

/-- The top bit of the last byte is set from `128` times that byte's place on. -/
theorem top_bit_iff (m k : Nat) : 0x7f < m / 256 ^ k ↔ 128 * 256 ^ k ≤ m := by
  rw [Nat.lt_iff_add_one_le, Nat.le_div_iff_mul_le (Nat.pow_pos (by decide)), Nat.mul_comm]

/-- The magnitude is the top bit alone. -/
theorem top_bit_alone_iff (m k : Nat) :
    m / 256 ^ k = 0x80 ∧ m % 256 ^ k = 0 ↔ m = 128 * 256 ^ k := by
  constructor
  · rintro ⟨top, rest⟩
    rw [← Nat.div_add_mod m (256 ^ k), top, rest, Nat.mul_comm, Nat.add_zero]
  · rintro rfl
    exact ⟨Nat.mul_div_cancel _ (Nat.pow_pos (by decide)), Nat.mul_mod_left _ _⟩

/-- `to_signed_bytes_le`, with the test for the pushed byte read as arithmetic on the
magnitude. -/
theorem toSignedBytesLe_eq (n : Int) :
    toSignedBytesLe n =
      (if n < 0 then twosComplement true else id)
        (if 128 * 256 ^ Nat.log 256 n.natAbs ≤ n.natAbs ∧
            ¬(n.natAbs = 128 * 256 ^ Nat.log 256 n.natAbs ∧ n < 0) then
          toBytes (Nat.log 256 n.natAbs + 2) n.natAbs
        else toBytes (Nat.log 256 n.natAbs + 1) n.natAbs) := by
  have alone := top_bit_alone_iff n.natAbs (Nat.log 256 n.natAbs)
  simp only [toSignedBytesLe, lastByte_toBytesLe, dropLast_all_zero_toBytesLe, top_bit_iff,
    toBytesLe_append_zero, ← and_assoc, alone]
  split <;> rfl

/-- The least width: a bound that holds at `width` and fails just below it holds exactly from
`width` on. -/
theorem le_iff_lt_of_least {m width : Nat} (fits : m < 128 * 256 ^ width)
    (least : ∀ i, i + 1 = width → 128 * 256 ^ i ≤ m) (k : Nat) :
    width ≤ k ↔ m < 128 * 256 ^ k := by
  constructor
  · intro within
    exact lt_of_lt_of_le fits (Nat.mul_le_mul_left 128 (Nat.pow_le_pow_right (by decide) within))
  · intro lt
    by_contra more
    obtain ⟨i, rfl⟩ : ∃ i, width = i + 1 := ⟨width - 1, by omega⟩
    have below : 128 * 256 ^ k ≤ 128 * 256 ^ i :=
      Nat.mul_le_mul_left 128 (Nat.pow_le_pow_right (by decide) (by omega))
    have := least i rfl
    omega

/-- The signed bytes of a natural number are its bytes in the least width whose top bit stays
clear. -/
theorem toSignedBytesLe_natCast (m : Nat) :
    ∃ width, toSignedBytesLe m = toBytes (width + 1) m ∧ m < 128 * 256 ^ width ∧
      ∀ i, i + 1 = width → 128 * 256 ^ i ≤ m := by
  have below := lt_pow_log m
  rw [pow_succ'] at below
  have nonnegative : ¬(m : Int) < 0 := Int.not_lt.mpr (Int.natCast_nonneg m)
  rw [toSignedBytesLe_eq, Int.natAbs_natCast, if_neg nonnegative]
  by_cases set : 128 * 256 ^ Nat.log 256 m ≤ m
  · rw [if_pos ⟨set, fun alone => nonnegative alone.2⟩]
    refine ⟨Nat.log 256 m + 1, rfl, ?_, fun i last => ?_⟩
    · rw [pow_succ']
      omega
    · rw [Nat.add_right_cancel last]
      exact set
  · rw [if_neg (fun pushed => set pushed.1)]
    refine ⟨Nat.log 256 m, rfl, by omega, fun i last => ?_⟩
    have positive : m ≠ 0 := by
      rintro rfl
      simp at last
    have place := Nat.pow_log_le_self 256 positive
    rw [← last, pow_succ'] at place
    omega

/-- The signed bytes of a negative number are the bytes of its complement in the least width
that holds it. -/
theorem toSignedBytesLe_neg {m : Nat} (positive : 0 < m) :
    ∃ width, toSignedBytesLe (-m) = toBytes (width + 1) (256 ^ (width + 1) - m) ∧
      m ≤ 128 * 256 ^ width ∧ ∀ i, i + 1 = width → 128 * 256 ^ i < m := by
  have below := lt_pow_log m
  have negative : -(m : Int) < 0 := by omega
  have place := Nat.pow_log_le_self 256 (Nat.pos_iff_ne_zero.mp positive)
  rw [toSignedBytesLe_eq, Int.natAbs_neg, Int.natAbs_natCast, if_pos negative]
  by_cases set : 128 * 256 ^ Nat.log 256 m < m
  · rw [if_pos ⟨set.le, fun alone => by omega⟩]
    have fits : m < 256 ^ (Nat.log 256 m + 2) :=
      lt_of_lt_of_le below (Nat.pow_le_pow_right (by decide) (by omega))
    refine ⟨Nat.log 256 m + 1, twosComplement_toBytes positive fits, ?_, fun i last => ?_⟩
    · rw [pow_succ'] at below ⊢
      omega
    · rw [Nat.add_right_cancel last]
      exact set
  · rw [if_neg (fun pushed => set (lt_of_le_of_ne pushed.1 fun alone => pushed.2 ⟨alone.symm, negative⟩))]
    refine ⟨Nat.log 256 m, twosComplement_toBytes positive below, by omega, fun i last => ?_⟩
    rw [← last, pow_succ'] at place
    omega

/-! ## `U256` -/

/-- The bytes of a negative number's complement, padded with `0xff` to 32, are the bytes of
its complement in 32 bytes. -/
theorem ofBytes_pad {width m : Nat} (fits : width ≤ 32) (positive : 0 < m)
    (le : m ≤ 256 ^ width) :
    ofBytes (toBytes width (256 ^ width - m) ++ List.replicate (32 - width) 255) =
      2 ^ 256 - m := by
  have whole : 256 ^ width * 256 ^ (32 - width) = 2 ^ 256 := by
    rw [← pow_add, Nat.add_sub_cancel' fits]
    norm_num
  have rest : 0 < 256 ^ (32 - width) := Nat.pow_pos (by decide)
  have wider := Nat.le_mul_of_pos_right (256 ^ width) rest
  rw [ofBytes_append, ofBytes_toBytes_of_lt (by omega), length_toBytes, ofBytes_replicate_255,
    Nat.mul_sub_one, whole]
  omega

theorem toSignedU256_natCast (m : Nat) :
    toSignedU256 m = if fits : m < 2 ^ 255 then some ⟨m, by omega⟩ else none := by
  obtain ⟨width, bytes, fits, least⟩ := toSignedBytesLe_natCast m
  have nonnegative : ¬(m : Int) < 0 := Int.not_lt.mpr (Int.natCast_nonneg m)
  have wide : width ≤ 31 ↔ m < 2 ^ 255 := by
    rw [le_iff_lt_of_least fits least 31]
    norm_num
  have within : m < 256 ^ (width + 1) := by
    rw [pow_succ']
    omega
  simp only [toSignedU256, bytes, if_neg nonnegative]
  by_cases small : m < 2 ^ 255
  · rw [dif_pos small, U256.fromLittleEndian_toBytes (by omega) within]
  · rw [dif_neg small, U256.fromLittleEndian, dif_neg (by simp; omega)]

theorem toSignedU256_neg {m : Nat} (positive : 0 < m) :
    toSignedU256 (-m) = if fits : m ≤ 2 ^ 255 then some ⟨2 ^ 256 - m, by omega⟩ else none := by
  obtain ⟨width, bytes, fits, least⟩ := toSignedBytesLe_neg positive
  have negative : -(m : Int) < 0 := by omega
  have wide : width ≤ 31 ↔ m - 1 < 2 ^ 255 := by
    rw [le_iff_lt_of_least (m := m - 1) (by omega) (fun i last => by have := least i last; omega) 31]
    norm_num
  have within : m ≤ 256 ^ (width + 1) := by
    rw [pow_succ']
    omega
  simp only [toSignedU256, bytes, if_pos negative, length_toBytes]
  by_cases small : m ≤ 2 ^ 255
  · have narrow : width ≤ 31 := wide.mpr (by omega)
    rw [dif_pos small, if_pos (by omega), U256.fromLittleEndian,
      dif_pos (by simp only [List.length_append, length_toBytes, List.length_replicate]; omega)]
    simp only [Option.some.injEq, U256.mk.injEq]
    exact ofBytes_pad (by omega) positive within
  · rw [dif_neg small, if_neg (by omega)]

/-- The magnitude's bytes are at most 32 exactly below `2^256`. -/
theorem length_toBytesLe_le_iff (m : Nat) :
    (BigUint.toBytesLe m).length ≤ 32 ↔ m < 2 ^ 256 := by
  rw [BigUint.toBytesLe, length_toBytes, ← Nat.lt_iff_add_one_le]
  rcases Nat.eq_zero_or_pos m with rfl | positive
  · simp
  · rw [Nat.log_lt_iff_lt_pow (by decide) (Nat.pos_iff_ne_zero.mp positive)]
    norm_num

theorem toUnsignedU256_natCast (m : Nat) :
    toUnsignedU256 m = if fits : m < 2 ^ 256 then some ⟨m, fits⟩ else none := by
  have nonnegative : ¬(m : Int) < 0 := Int.not_lt.mpr (Int.natCast_nonneg m)
  simp only [toUnsignedU256, toBytesLe, Int.natAbs_natCast, if_neg nonnegative]
  rw [if_pos (by split <;> simp)]
  by_cases small : m < 2 ^ 256
  · have fits := (length_toBytesLe_le_iff m).mpr small
    rw [dif_pos small, BigUint.toBytesLe,
      U256.fromLittleEndian_toBytes (by simpa [BigUint.toBytesLe] using fits) (lt_pow_log m)]
  · rw [dif_neg small, U256.fromLittleEndian, dif_neg (by rwa [length_toBytesLe_le_iff])]

theorem toUnsignedU256_of_neg {n : Int} (negative : n < 0) : toUnsignedU256 n = none := by
  simp [toUnsignedU256, toBytesLe, negative]

/-- `from_signed_bytes_le` is the signed reading of the bytes. -/
theorem fromSignedBytesLe_eq (bytes : List UInt8) : fromSignedBytesLe bytes = ofSignedBytes bytes := by
  cases isLast : bytes.getLast? with
  | none =>
      rw [List.getLast?_eq_none_iff.mp isLast]
      rfl
  | some last =>
      by_cases set : 0x7f < last.toNat
      · simp only [fromSignedBytesLe, isLast, decide_eq_true set, if_true]
        exact (ofSignedBytes_of_top_bit isLast set).symm
      · simp only [fromSignedBytesLe, isLast, decide_eq_false set, Bool.false_eq_true, if_false,
          ofSignedBytes]
        rw [if_neg (by omega)]

theorem fromSignedU256_eq (n : U256) :
    fromSignedU256 n = if 2 ^ 255 ≤ n.value then (n.value : Int) - 2 ^ 256 else (n.value : Int) := by
  rw [fromSignedU256, fromSignedBytesLe_eq, U256.toLittleEndian,
    ofSignedBytes_toBytes (by simpa using n.lt)]
  norm_num

theorem fromUnsignedU256_eq (n : U256) : fromUnsignedU256 n = n.value := by
  rw [fromUnsignedU256, fromUnsignedBytesLe, U256.toLittleEndian,
    ofBytes_toBytes_of_lt (by simpa using n.lt)]

/-- The conversions between `BigInt` and `U256` are inverse on their domains, signed and unsigned.
-/
theorem u256_conversions_inverse :
    (∀ n : U256, toSignedU256 (fromSignedU256 n) = some n) ∧
      (∀ n : U256, toUnsignedU256 (fromUnsignedU256 n) = some n) ∧
      (∀ b : Int, -2 ^ 255 ≤ b → b < 2 ^ 255 → (toSignedU256 b).map fromSignedU256 = some b) ∧
      (∀ b : Int, 0 ≤ b → b < 2 ^ 256 → (toUnsignedU256 b).map fromUnsignedU256 = some b) := by
  refine ⟨fun n => ?_, fun n => ?_, fun b lower upper => ?_, fun b lower upper => ?_⟩
  · have bound := n.lt
    rw [fromSignedU256_eq]
    by_cases top : 2 ^ 255 ≤ n.value
    · -- the signed reading is minus the complement of the value
      have complement : (n.value : Int) - 2 ^ 256 = -((2 ^ 256 - n.value : Nat) : Int) := by
        omega
      rw [if_pos top, complement, toSignedU256_neg (by omega), dif_pos (by omega)]
      exact congrArg some (U256.ext (show 2 ^ 256 - (2 ^ 256 - n.value) = n.value by omega))
    · rw [if_neg top, toSignedU256_natCast, dif_pos (by omega)]
  · rw [fromUnsignedU256_eq, toUnsignedU256_natCast, dif_pos n.lt]
  · rcases Int.lt_or_le b 0 with negative | nonnegative
    · obtain ⟨m, rfl⟩ := Int.exists_eq_neg_ofNat negative.le
      rw [toSignedU256_neg (by omega), dif_pos (by omega), Option.map_some, fromSignedU256_eq,
        if_pos (show 2 ^ 255 ≤ 2 ^ 256 - m by omega)]
      exact congrArg some (show ((2 ^ 256 - m : Nat) : Int) - 2 ^ 256 = -(m : Int) by omega)
    · obtain ⟨m, rfl⟩ := Int.eq_ofNat_of_zero_le nonnegative
      rw [toSignedU256_natCast, dif_pos (by omega), Option.map_some, fromSignedU256_eq,
        if_neg (show ¬2 ^ 255 ≤ m by omega)]
  · obtain ⟨m, rfl⟩ := Int.eq_ofNat_of_zero_le lower
    rw [toUnsignedU256_natCast, dif_pos (by omega), Option.map_some, fromUnsignedU256_eq]

/-- The ends of both ranges come back: `-2^255`, whose magnitude is the top bit alone, and
`2^256 - 1`, whose bytes fill all 32. -/
theorem u256_conversions_inverse_ends :
    (toSignedU256 (-2 ^ 255)).map fromSignedU256 = some (-2 ^ 255) ∧
      (toUnsignedU256 (2 ^ 256 - 1)).map fromUnsignedU256 = some (2 ^ 256 - 1) :=
  ⟨u256_conversions_inverse.2.2.1 _ (by norm_num) (by norm_num),
    u256_conversions_inverse.2.2.2 _ (by norm_num) (by norm_num)⟩

end BigInt

end Scalar

end GraphNode
