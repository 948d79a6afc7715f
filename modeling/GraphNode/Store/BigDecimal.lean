import Mathlib.Data.Nat.Digits.Lemmas
import Mathlib.Algebra.Order.Field.Power

/-!
# Normalising big decimals

`graph/src/data/store/scalar.rs`.  graph-node's `BigDecimal` wraps `bigdecimal::BigDecimal`, an
integer `int_val` and an `i64` scale standing for `int_val × 10 ^ (-scale)`, and normalises every
value it builds: the crate's `with_prec` rounds it to 34 significant digits, and graph-node strips
the trailing zero digits, taking them off the scale.  The crate's rounding is a parameter of the
model; the exponent arithmetic is graph-node's own, on `i64`, and an overflow is `none`.

The digits of `to_radix_be(10)`, read from the end as `normalized` reads them, are `Nat.digits`.
-/

namespace GraphNode

/-- `bigdecimal::BigDecimal`: the number `intVal × 10 ^ (-scale)`. -/
structure RawDecimal where
  intVal : Int
  scale : Int
  deriving DecidableEq, Repr

/-- The number a decimal stands for. -/
def RawDecimal.value (x : RawDecimal) : ℚ :=
  x.intVal * 10 ^ (-x.scale)

/-- `i64::MIN`. -/
def i64Min : Int := -2 ^ 63

/-- An `i64` result; `none` is an overflow, the panic of an overflow check, or a wrapped value
where overflow checks are off. -/
def checkedI64 (n : Int) : Option Int :=
  if i64Min ≤ n ∧ n < 2 ^ 63 then some n else none

/-- The trailing zero digits of `n` in base ten, counted as `normalized` counts them. -/
def trailingCount (n : Nat) : Nat :=
  ((Nat.digits 10 n).takeWhile (· = 0)).length

namespace BigDecimal

/-- `MAX_SIGNFICANT_DIGITS`. -/
def maxSignificantDigits : Nat := 34

section

variable (withPrec : RawDecimal → Nat → Option RawDecimal)

/-- `BigDecimal::normalized`, over the crate's `with_prec`: zero is `(0, 0)`; otherwise the rounded
digits lose their trailing zeros and the scale loses as many. -/
def normalized (x : RawDecimal) : Option RawDecimal :=
  if x.intVal = 0 then some ⟨0, 0⟩
  else (withPrec x maxSignificantDigits).bind fun rounded =>
    let trailing := trailingCount rounded.intVal.natAbs
    (checkedI64 (rounded.scale - trailing)).map fun scale =>
      ⟨rounded.intVal.sign * (rounded.intVal.natAbs / 10 ^ trailing : Nat), scale⟩

/-- `BigDecimal::new`: the exponent is negated into the crate's scale, then normalised. -/
def new (digits exp : Int) : Option RawDecimal :=
  (checkedI64 (-exp)).bind fun scale => normalized withPrec ⟨digits, scale⟩

end

/-- The crate's `BigDecimal::digits`: the decimal digits of `int_val`, one for zero. -/
def digits (x : RawDecimal) : Nat :=
  max 1 (Nat.digits 10 x.intVal.natAbs).length

/-- The crate's `with_prec`.  A decimal of more digits than `prec` is divided by ten to the
excess, truncating as `div_rem` does, and rounded by `get_rounding_term` of the remainder, a
parameter here as its source is not in the repository; a shorter one is padded with zeros. -/
def withPrec (roundingTerm : Int → Nat) (x : RawDecimal) (prec : Nat) : Option RawDecimal :=
  if prec < digits x then
    let diff := digits x - prec
    let quotient := x.intVal.tdiv (10 ^ diff)
    let remainder := x.intVal.tmod (10 ^ diff)
    (checkedI64 (x.scale - diff)).map fun scale =>
      ⟨if 10 ^ diff < 10 * remainder then quotient + roundingTerm remainder else quotient, scale⟩
  else if digits x < prec then
    let diff := prec - digits x
    (checkedI64 (x.scale + diff)).map fun scale => ⟨x.intVal * 10 ^ diff, scale⟩
  else some x

end BigDecimal

/-! ## Trailing zeros -/

/-- A number is its digits without the trailing zeros, shifted back: by strong induction, one
zero digit at a time. -/
theorem trailingCount_spec (n : Nat) :
    10 ^ trailingCount n ∣ n ∧ (n ≠ 0 → ¬10 ∣ n / 10 ^ trailingCount n) := by
  induction n using Nat.strong_induction_on with
  | _ n induction =>
      rcases Nat.eq_zero_or_pos n with zero | positive
      · subst zero
        simp [trailingCount]
      have digits : Nat.digits 10 n = n % 10 :: Nat.digits 10 (n / 10) :=
        Nat.digits_def' (by decide) positive
      by_cases zeroDigit : n % 10 = 0
      · -- one more trailing zero, on the number with it removed
        have count : trailingCount n = trailingCount (n / 10) + 1 := by
          simp [trailingCount, digits, zeroDigit]
        have shifted : n = 10 * (n / 10) := by omega
        obtain ⟨divides, stripped⟩ := induction (n / 10) (by omega)
        refine ⟨?_, fun _ => ?_⟩
        · rw [count, pow_succ, shifted, Nat.mul_div_cancel_left _ (by decide), mul_comm]
          exact Nat.mul_dvd_mul_left 10 divides
        · have nonzero : n / 10 ≠ 0 := by omega
          rw [count, pow_succ, mul_comm, ← Nat.div_div_eq_div_mul]
          exact stripped nonzero
      · have count : trailingCount n = 0 := by
          simp [trailingCount, digits, zeroDigit]
        refine ⟨by simp [count], fun _ => ?_⟩
        rw [count, pow_zero, Nat.div_one]
        omega

/-- A power of ten times a number without a factor ten is a power of ten only for the number
one and the same power. -/
theorem eq_of_mul_zpow_eq {m : ℕ} (notTen : ¬10 ∣ m) {e f : ℤ}
    (same : (m : ℚ) * 10 ^ e = 10 ^ f) : m = 1 ∧ e = f := by
  have shifted : (m : ℚ) = 10 ^ (f - e) := by
    rw [zpow_sub₀ (by norm_num), ← same, mul_div_cancel_right₀ _ (by positivity)]
  have nonzero : m ≠ 0 := by
    rintro rfl
    simp only [Nat.cast_zero, zero_mul] at same
    exact zpow_ne_zero f (by norm_num : (10 : ℚ) ≠ 0) same.symm
  rcases le_or_gt e f with below | above
  · obtain ⟨k, difference⟩ : ∃ k : ℕ, f - e = k := ⟨(f - e).toNat, by omega⟩
    rw [difference, zpow_natCast] at shifted
    have natural : m = 10 ^ k := by exact_mod_cast shifted
    cases k with
    | zero => exact ⟨by simpa using natural, by omega⟩
    | succ k => exact absurd (natural ▸ dvd_pow_self 10 (Nat.succ_ne_zero k)) notTen
  · have small : (10 : ℚ) ^ (f - e) < 1 := zpow_lt_one_of_neg₀ (by norm_num) (by omega)
    have large : (1 : ℚ) ≤ m := by exact_mod_cast Nat.one_le_iff_ne_zero.mpr nonzero
    linarith

/-- The digits of a decimal are its digits without trailing zeros, shifted back. -/
theorem intVal_eq_stripped (x : RawDecimal) :
    (x.intVal : ℚ) = x.intVal.sign * ((x.intVal.natAbs / 10 ^ trailingCount x.intVal.natAbs : ℕ) *
      10 ^ trailingCount x.intVal.natAbs) := by
  have restored := Nat.div_mul_cancel (trailingCount_spec x.intVal.natAbs).1
  have signed : x.intVal = x.intVal.sign * (x.intVal.natAbs : ℤ) := by
    rcases Int.lt_trichotomy x.intVal 0 with negative | zero | positive
    · simp [Int.sign_eq_neg_one_of_neg negative, abs_of_neg negative]
    · simp [zero]
    · simp [Int.sign_eq_one_of_pos positive, abs_of_pos positive]
  have shifted : ((x.intVal.natAbs / 10 ^ trailingCount x.intVal.natAbs : ℕ) : ℚ) *
      10 ^ trailingCount x.intVal.natAbs = x.intVal.natAbs := by
    exact_mod_cast restored
  rw [shifted, ← Int.cast_natCast, ← Int.cast_mul, ← signed]

/-! ## The crate's rounding -/

/-- An `i64` result that fits is the number itself. -/
theorem eq_of_checkedI64_eq_some {n m : Int} (fits : checkedI64 n = some m) : m = n := by
  unfold checkedI64 at fits
  split at fits
  · exact (Option.some.inj fits).symm
  · cases fits

/-- Padding the digits with zeros and raising the scale by as many keeps the value. -/
theorem RawDecimal.value_padded (x : RawDecimal) (diff : Nat) :
    RawDecimal.value ⟨x.intVal * 10 ^ diff, x.scale + diff⟩ = x.value := by
  have ten : (10 : ℚ) ^ diff ≠ 0 := pow_ne_zero _ (by norm_num)
  rw [RawDecimal.value, RawDecimal.value, neg_add, zpow_add₀ (by norm_num),
    zpow_neg (10 : ℚ) (diff : ℤ), zpow_natCast]
  push_cast
  rw [mul_comm (10 ^ (-x.scale)), mul_assoc, mul_inv_cancel_left₀ ten]

/-- `with_prec` keeps the value of a decimal of at most `prec` digits. -/
theorem withPrec_value_of_digits_le (roundingTerm : Int → Nat) {x y : RawDecimal} {prec : Nat}
    (short : BigDecimal.digits x ≤ prec)
    (rounds : BigDecimal.withPrec roundingTerm x prec = some y) : y.value = x.value := by
  unfold BigDecimal.withPrec at rounds
  rw [if_neg (by omega)] at rounds
  split at rounds
  next =>
    obtain ⟨scale, fits, rfl⟩ := Option.map_eq_some_iff.mp rounds
    rw [eq_of_checkedI64_eq_some fits]
    exact x.value_padded _
  next =>
    cases rounds
    rfl

/-! ## What `normalized` returns -/

section

variable (withPrec : RawDecimal → Nat → Option RawDecimal)

/-- `normalized` returns zero, or the rounded number with its value and no trailing zero digit. -/
theorem normalized_canonical {x y : RawDecimal}
    (normal : BigDecimal.normalized withPrec x = some y) :
    (x.intVal = 0 ∧ y = ⟨0, 0⟩) ∨ ∃ rounded, withPrec x BigDecimal.maxSignificantDigits = some rounded ∧
      (rounded.intVal ≠ 0 → ¬10 ∣ y.intVal.natAbs) ∧ y.value = rounded.value := by
  unfold BigDecimal.normalized at normal
  split at normal
  next zero =>
    cases normal
    exact .inl ⟨zero, rfl⟩
  next =>
    right
    rw [Option.bind_eq_some_iff] at normal
    obtain ⟨rounded, rounds, normal⟩ := normal
    rw [Option.map_eq_some_iff] at normal
    obtain ⟨scale, fits, rfl⟩ := normal
    have scaleEq := eq_of_checkedI64_eq_some fits
    refine ⟨rounded, rounds, fun nonzero => ?_, ?_⟩
    · rw [Int.natAbs_mul, Int.natAbs_sign_of_ne_zero nonzero, one_mul, Int.natAbs_natCast]
      exact (trailingCount_spec rounded.intVal.natAbs).2 (by omega)
    · rw [RawDecimal.value, RawDecimal.value, intVal_eq_stripped rounded, scaleEq, Int.cast_mul,
        Int.cast_natCast,
        show -(rounded.scale - (trailingCount rounded.intVal.natAbs : ℤ)) =
          (trailingCount rounded.intVal.natAbs : ℤ) + -rounded.scale by ring,
        zpow_add₀ (by norm_num), zpow_natCast]
      ring

/-- `1200`, which the crate pads to thirty-four digits, loses its thirty-two trailing zeros. -/
theorem normalized_canonical_twelveHundred :
    BigDecimal.withPrec (fun _ => 0) ⟨1200, 0⟩ BigDecimal.maxSignificantDigits =
        some ⟨1200 * 10 ^ 30, 30⟩ ∧
      BigDecimal.normalized (BigDecimal.withPrec fun _ => 0) ⟨1200, 0⟩ = some ⟨12, -2⟩ ∧
      ((1200 = (0 : ℤ) ∧ (⟨12, -2⟩ : RawDecimal) = ⟨0, 0⟩) ∨
        ∃ rounded, BigDecimal.withPrec (fun _ => 0) ⟨1200, 0⟩
            BigDecimal.maxSignificantDigits = some rounded ∧
          (rounded.intVal ≠ 0 → ¬10 ∣ (12 : ℤ).natAbs) ∧
          RawDecimal.value ⟨12, -2⟩ = rounded.value) :=
  ⟨by decide, by decide, normalized_canonical _
    (show BigDecimal.normalized (BigDecimal.withPrec fun _ => 0) ⟨1200, 0⟩ = some ⟨12, -2⟩ by
      decide)⟩

end

/-! ## Overflow of the exponent -/

/-- `BigDecimal::new` overflows at the exponent `i64::MIN`, whatever the crate rounds: `-exp` is
`2 ^ 63`. -/
theorem new_overflows_at_i64Min (withPrec : RawDecimal → Nat → Option RawDecimal) (digits : Int) :
    BigDecimal.new withPrec digits i64Min = none := by
  simp [BigDecimal.new, checkedI64, i64Min]

/-- `normalized` overflows on the decimal `(10, i64::MIN)` for every rounding that keeps its
value: taking the zeros off the scale goes below `i64::MIN`. -/
theorem normalized_overflows_at_i64Min (withPrec : RawDecimal → Nat → Option RawDecimal)
    {rounded : RawDecimal}
    (rounds : withPrec ⟨10, i64Min⟩ BigDecimal.maxSignificantDigits = some rounded)
    (exact : rounded.value = RawDecimal.value ⟨10, i64Min⟩) :
    BigDecimal.normalized withPrec ⟨10, i64Min⟩ = none := by
  have target : RawDecimal.value ⟨10, i64Min⟩ = 10 ^ (1 + 2 ^ 63 : ℤ) := by
    rw [RawDecimal.value, i64Min, neg_neg, zpow_add₀ (by norm_num), zpow_one]
    norm_num
  have positive : 0 < rounded.intVal := by
    by_contra nonpositive
    have atMost : rounded.value ≤ 0 :=
      mul_nonpos_of_nonpos_of_nonneg (by exact_mod_cast not_lt.mp nonpositive) (by positivity)
    have above : (0 : ℚ) < 10 ^ (1 + 2 ^ 63 : ℤ) := by positivity
    linarith
  have digits := intVal_eq_stripped rounded
  rw [Int.sign_eq_one_of_pos positive, Int.cast_one, one_mul] at digits
  have scaled : ((rounded.intVal.natAbs / 10 ^ trailingCount rounded.intVal.natAbs : ℕ) : ℚ) *
      10 ^ ((trailingCount rounded.intVal.natAbs : ℤ) - rounded.scale) =
        10 ^ (1 + 2 ^ 63 : ℤ) := by
    rw [← target, ← exact, RawDecimal.value, digits, sub_eq_add_neg, zpow_add₀ (by norm_num),
      zpow_natCast, mul_assoc]
  obtain ⟨-, exponent⟩ :=
    eq_of_mul_zpow_eq ((trailingCount_spec rounded.intVal.natAbs).2 (by omega)) scaled
  have overflow :
      checkedI64 (rounded.scale - (trailingCount rounded.intVal.natAbs : ℤ)) = none := by
    rw [checkedI64, if_neg]
    rw [i64Min]
    omega
  rw [BigDecimal.normalized, if_neg (by decide), rounds, Option.bind_some]
  simp only [overflow, Option.map_none]

/-- With the crate's `with_prec`, which pads the two digits of `10` with thirty-two zeros. -/
theorem normalized_overflows_at_i64Min_padded :
    BigDecimal.withPrec (fun _ => 0) ⟨10, i64Min⟩ BigDecimal.maxSignificantDigits =
        some ⟨10 * 10 ^ 32, i64Min + 32⟩ ∧
      RawDecimal.value ⟨10 * 10 ^ 32, i64Min + 32⟩ = RawDecimal.value ⟨10, i64Min⟩ ∧
      BigDecimal.normalized (BigDecimal.withPrec fun _ => 0) ⟨10, i64Min⟩ = none :=
  have rounds : BigDecimal.withPrec (fun _ => 0) ⟨10, i64Min⟩ BigDecimal.maxSignificantDigits =
      some ⟨10 * 10 ^ 32, i64Min + 32⟩ := by decide
  have exact := withPrec_value_of_digits_le _ (by decide) rounds
  ⟨rounds, exact, normalized_overflows_at_i64Min _ rounds exact⟩

end GraphNode
