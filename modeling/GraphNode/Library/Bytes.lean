import Mathlib.Data.List.Basic
import Mathlib.Data.UInt
import Mathlib.Algebra.Order.Monoid.Unbundled.Pow

/-!
# Little-endian bytes and fixed-size chunks

Numbers stored as a fixed number of little-endian bytes, and read back from them: reading keeps
the number modulo the width, so a number that fits is read back exactly, and writing back the
number a list of bytes reads gives the list.  The signed reading is two's complement over the
bytes given; `twosComplement` negates a number in place, byte by byte with a carry, as
arbitrary-precision libraries do.  Chunking a run of bytes into pieces of one size, as a
slice's `chunks(size).take(count)` does, gives back the pieces a run was made of when each
has that size.  Last, the least power of two that is at least a number, as `next_power_of_two`
computes it.
-/

namespace LittleEndian

/-- The `width` low bytes of `n`, least significant first. -/
def toBytes : (width : Nat) → Nat → List UInt8
  | 0, _ => []
  | width + 1, n => (n % 256).toUInt8 :: toBytes width (n / 256)

/-- The number whose little-endian bytes these are. -/
def ofBytes : List UInt8 → Nat
  | [] => 0
  | byte :: bytes => byte.toNat + 256 * ofBytes bytes

/-- The two's complement number whose little-endian bytes these are; no bytes are 0. -/
def ofSignedBytes (bytes : List UInt8) : Int :=
  match bytes.getLast? with
  | some last => if 128 ≤ last.toNat then ofBytes bytes - 256 ^ bytes.length else ofBytes bytes
  | none => 0

@[simp]
theorem length_toBytes (width n : Nat) : (toBytes width n).length = width := by
  induction width generalizing n with
  | zero => rfl
  | succ width induction => simp [toBytes, induction]

@[simp]
theorem ofBytes_nil : ofBytes [] = 0 := rfl

theorem ofBytes_cons (byte : UInt8) (bytes : List UInt8) :
    ofBytes (byte :: bytes) = byte.toNat + 256 * ofBytes bytes := rfl

/-- Reading the bytes of a number gives it back modulo the width. -/
theorem ofBytes_toBytes (width n : Nat) : ofBytes (toBytes width n) = n % 256 ^ width := by
  induction width generalizing n with
  | zero => simp [toBytes, Nat.mod_one]
  | succ width induction =>
      have low : ((n % 256).toUInt8).toNat = n % 256 := by
        simp [Nat.toUInt8]
      rw [toBytes, ofBytes_cons, induction, low, pow_succ', Nat.mod_mul]

theorem ofBytes_toBytes_of_lt {width n : Nat} (fits : n < 256 ^ width) :
    ofBytes (toBytes width n) = n := by
  rw [ofBytes_toBytes, Nat.mod_eq_of_lt fits]

theorem ofBytes_lt (bytes : List UInt8) : ofBytes bytes < 256 ^ bytes.length := by
  induction bytes with
  | nil => simp
  | cons byte bytes induction =>
      have low := byte.toNat_lt
      rw [ofBytes_cons, List.length_cons, pow_succ]
      omega

theorem ofBytes_append (front back : List UInt8) :
    ofBytes (front ++ back) = ofBytes front + 256 ^ front.length * ofBytes back := by
  induction front with
  | nil => simp
  | cons byte front induction =>
      rw [List.cons_append, ofBytes_cons, ofBytes_cons, induction, List.length_cons, pow_succ',
        Nat.mul_add, Nat.mul_assoc, Nat.add_assoc]

theorem ofBytes_replicate_255 (count : Nat) :
    ofBytes (List.replicate count 255) = 256 ^ count - 1 := by
  induction count with
  | zero => rfl
  | succ count induction =>
      have positive := Nat.one_le_two_pow (n := 8 * count)
      rw [List.replicate_succ, ofBytes_cons, induction, pow_succ']
      rw [show (256 : Nat) ^ count = 2 ^ (8 * count) by rw [pow_mul]; rfl] at *
      simp only [UInt8.reduceToNat]
      omega

/-- Writing back the number some bytes read gives the bytes. -/
theorem toBytes_ofBytes (bytes : List UInt8) : toBytes bytes.length (ofBytes bytes) = bytes := by
  induction bytes with
  | nil => rfl
  | cons byte bytes induction =>
      have low := byte.toNat_lt
      have digit : (byte.toNat + 256 * ofBytes bytes) % 256 = byte.toNat := by omega
      have rest : (byte.toNat + 256 * ofBytes bytes) / 256 = ofBytes bytes := by omega
      rw [List.length_cons, ofBytes_cons, toBytes, digit, rest, induction]
      simp

/-- The bytes of a number, its most significant byte split off. -/
theorem toBytes_succ' (width n : Nat) :
    toBytes (width + 1) n = toBytes width n ++ [((n / 256 ^ width) % 256).toUInt8] := by
  induction width generalizing n with
  | zero => simp [toBytes]
  | succ width induction =>
      rw [toBytes, induction, toBytes, List.cons_append, Nat.div_div_eq_div_mul, ← pow_succ']

theorem getLast?_toBytes (width n : Nat) :
    (toBytes (width + 1) n).getLast? = some ((n / 256 ^ width) % 256).toUInt8 := by
  rw [toBytes_succ', List.getLast?_concat]

theorem dropLast_toBytes (width n : Nat) : (toBytes (width + 1) n).dropLast = toBytes width n := by
  rw [toBytes_succ', List.dropLast_concat]

/-- The bytes of a number are all zero exactly when the width divides it away. -/
theorem all_zero_toBytes (width n : Nat) :
    (toBytes width n).all (· == 0) = true ↔ n % 256 ^ width = 0 := by
  induction width generalizing n with
  | zero => simp [toBytes, Nat.mod_one]
  | succ width induction =>
      have digit : ((n % 256).toUInt8 == 0) = true ↔ n % 256 = 0 := by
        rw [beq_iff_eq, ← UInt8.toNat_inj]
        simp
      rw [toBytes, List.all_cons, Bool.and_eq_true, digit, induction, pow_succ', Nat.mod_mul]
      omega

/-- The most significant byte of a number that fits is its top digit. -/
theorem toNat_topByte {width n : Nat} (fits : n < 256 ^ (width + 1)) :
    ((n / 256 ^ width) % 256).toUInt8.toNat = n / 256 ^ width := by
  have top : n / 256 ^ width < 256 := by
    rw [Nat.div_lt_iff_lt_mul (Nat.pow_pos (by decide)), Nat.mul_comm, ← pow_succ]
    exact fits
  simp [Nat.mod_eq_of_lt top]

/-- The signed reading of the bytes of a number that fits: the number, less the width when its
top bit is set. -/
theorem ofSignedBytes_toBytes {width n : Nat} (fits : n < 256 ^ (width + 1)) :
    ofSignedBytes (toBytes (width + 1) n) =
      if 128 * 256 ^ width ≤ n then (n : Int) - 256 ^ (width + 1) else n := by
  have set : 128 ≤ n / 256 ^ width ↔ 128 * 256 ^ width ≤ n :=
    Nat.le_div_iff_mul_le (Nat.pow_pos (by decide))
  rw [ofSignedBytes, getLast?_toBytes]
  simp only [toNat_topByte fits, set, ofBytes_toBytes_of_lt fits, length_toBytes]

/-- Negating bytes in place: each byte is flipped, and the carry of the added one runs up
through the zero bytes. -/
def twosComplement : Bool → List UInt8 → List UInt8
  | _, [] => []
  | carry, byte :: bytes =>
      if carry then
        (~~~byte + 1) :: twosComplement (~~~byte + 1 == 0) bytes
      else ~~~byte :: twosComplement false bytes

@[simp]
theorem length_twosComplement (carry : Bool) (bytes : List UInt8) :
    (twosComplement carry bytes).length = bytes.length := by
  induction bytes generalizing carry with
  | nil => rfl
  | cons byte bytes induction => cases carry <;> simp [twosComplement, induction]

/-- Without a carry, the bytes are flipped: the width less one, less the number. -/
theorem ofBytes_twosComplement_false (bytes : List UInt8) :
    ofBytes (twosComplement false bytes) = 256 ^ bytes.length - 1 - ofBytes bytes := by
  induction bytes with
  | nil => rfl
  | cons byte bytes induction =>
      have low := byte.toNat_lt
      have bound := ofBytes_lt bytes
      have flipped : (~~~byte).toNat = 255 - byte.toNat := by simp [UInt8.toNat_not]
      rw [twosComplement, if_neg Bool.false_ne_true, ofBytes_cons, ofBytes_cons, induction,
        flipped, List.length_cons, pow_succ]
      omega

/-- With the carry, the bytes of a number become the bytes of its complement in the width;
zero stays zero. -/
theorem ofBytes_twosComplement (bytes : List UInt8) :
    ofBytes (twosComplement true bytes) =
      if ofBytes bytes = 0 then 0 else 256 ^ bytes.length - ofBytes bytes := by
  induction bytes with
  | nil => rfl
  | cons byte bytes induction =>
      have low := byte.toNat_lt
      have bound := ofBytes_lt bytes
      have added : (~~~byte + 1).toNat = (256 - byte.toNat) % 256 := by
        rw [UInt8.toNat_add, UInt8.toNat_not, UInt8.toNat_one]
        simp only [UInt8.size]
        omega
      have carried : (~~~byte + 1 == 0) = true ↔ byte.toNat = 0 := by
        rw [beq_iff_eq, ← UInt8.toNat_inj, added]
        simp only [UInt8.reduceToNat]
        omega
      rw [twosComplement, if_pos rfl, ofBytes_cons, ofBytes_cons, added, List.length_cons,
        pow_succ]
      by_cases zero : byte.toNat = 0
      · rw [show (~~~byte + 1 == 0) = true from carried.mpr zero, induction]
        split <;> split <;> omega
      · rw [show (~~~byte + 1 == 0) = false from Bool.eq_false_iff.mpr (mt carried.mp zero),
          ofBytes_twosComplement_false]
        rw [if_neg (by omega)]
        omega

/-- Negating the bytes of a nonzero number that fits gives the bytes of its complement. -/
theorem twosComplement_toBytes {width n : Nat} (positive : 0 < n) (fits : n < 256 ^ width) :
    twosComplement true (toBytes width n) = toBytes width (256 ^ width - n) := by
  rw [← toBytes_ofBytes (twosComplement true (toBytes width n)), ofBytes_twosComplement,
    ofBytes_toBytes_of_lt fits, if_neg (Nat.pos_iff_ne_zero.mp positive), length_twosComplement,
    length_toBytes]

/-- Bytes whose top bit is set read as the negation of the number their negation reads. -/
theorem ofSignedBytes_of_top_bit {bytes : List UInt8} {last : UInt8}
    (isLast : bytes.getLast? = some last) (set : 128 ≤ last.toNat) :
    ofSignedBytes bytes = -(ofBytes (twosComplement true bytes) : Int) := by
  obtain ⟨front, rfl⟩ := List.getLast?_eq_some_iff.mp isLast
  have place : 0 < 256 ^ front.length := Nat.pow_pos (by decide)
  have positive : 0 < ofBytes (front ++ [last]) := by
    rw [ofBytes_append, ofBytes_cons, ofBytes_nil]
    have := Nat.mul_pos place (show 0 < last.toNat + 256 * 0 by omega)
    omega
  have bound := ofBytes_lt (front ++ [last])
  rw [ofSignedBytes, isLast]
  dsimp only
  rw [if_pos set, ofBytes_twosComplement, if_neg (Nat.pos_iff_ne_zero.mp positive),
    Nat.cast_sub bound.le]
  push_cast
  omega

end LittleEndian

/-! ## Chunks -/

namespace List

variable {α : Type}

/-- The first `count` pieces of `size` items, the last one shorter if the items run out:
`chunks(size).take(count)` of a slice. -/
def takeChunks (size : Nat) : (count : Nat) → List α → List (List α)
  | 0, _ => []
  | _ + 1, [] => []
  | count + 1, item :: items =>
      (item :: items).take size :: takeChunks size count ((item :: items).drop size)

@[simp]
theorem takeChunks_zero (size : Nat) (items : List α) : takeChunks size 0 items = [] := rfl

@[simp]
theorem takeChunks_nil (size count : Nat) : takeChunks size count ([] : List α) = [] := by
  cases count <;> rfl

/-- Pieces of one positive size, joined and chunked again, come back as they were. -/
theorem takeChunks_flatten {size : Nat} (positive : 0 < size) :
    ∀ (count : Nat) (pieces : List (List α)), (∀ piece ∈ pieces, piece.length = size) →
      takeChunks size count pieces.flatten = pieces.take count
  | 0, _, _ => rfl
  | _ + 1, [], _ => rfl
  | count + 1, piece :: pieces, sized => by
      have length : piece.length = size := sized piece List.mem_cons_self
      obtain ⟨first, rest, rfl⟩ : ∃ first rest, piece = first :: rest :=
        List.exists_cons_of_ne_nil (List.ne_nil_of_length_pos (length ▸ positive))
      have rests := takeChunks_flatten positive count pieces fun other member =>
        sized other (List.mem_cons_of_mem _ member)
      simp only [List.flatten_cons, List.cons_append, takeChunks, List.take_succ_cons]
      rw [← List.cons_append, ← length, List.take_left, List.drop_left, length, rests]

end List

/-! ## Powers of two -/

/-- The least power of two that is at least `n`, searched by doubling from 1 with enough
fuel: `usize::next_power_of_two`. -/
def nextPowerOfTwo (n : Nat) : Nat :=
  go n 1
where
  go : Nat → Nat → Nat
    | 0, power => power
    | fuel + 1, power => if power < n then go fuel (2 * power) else power
