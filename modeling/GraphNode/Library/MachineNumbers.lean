import Mathlib.Data.Rat.Floor
import Mathlib.Tactic.NormNum

/-!
# `i64`, `i32` and `u32` arithmetic and `f64` values

An `i64` operation is its exact integer result when that fits; out of range it panics with
overflow checks (debug builds) and wraps modulo `2^64` without them (release builds).  The same
holds of `i32`, modulo `2^32`, and of `u32`.

An `f64` is the value it stands for: a rational, an infinity of either sign, or NaN.
Arithmetic on finite values is exact, so the rounding of each result to 53 significant bits
is not modelled; a division by zero and the operations on infinities and NaN follow
IEEE 754.  `round` rounds half away from zero, as `f64::round` does, and `toInt` is the
saturating `as` cast to a signed integer: toward zero, NaN to 0, and out of range to the
nearest bound.
-/

namespace I64

def minValue : Int := -2 ^ 63

def maxValue : Int := 2 ^ 63 - 1

/-- The `i64` values. -/
def Fits (n : Int) : Prop := minValue ≤ n ∧ n ≤ maxValue

instance (n : Int) : Decidable (Fits n) :=
  inferInstanceAs (Decidable (minValue ≤ n ∧ n ≤ maxValue))

/-- The result of an `i64` operation whose exact value is `exact`. -/
def ofExact (overflowChecks : Bool) (exact : Int) : Option Int :=
  if Fits exact then some exact
  else if overflowChecks then none
  else some (exact.bmod (2 ^ 64))

theorem ofExact_of_fits (overflowChecks : Bool) {exact : Int} (fits : Fits exact) :
    ofExact overflowChecks exact = some exact :=
  if_pos fits

end I64

namespace I32

def minValue : Int := -2 ^ 31

def maxValue : Int := 2 ^ 31 - 1

/-- The `i32` values. -/
def Fits (n : Int) : Prop := minValue ≤ n ∧ n ≤ maxValue

instance (n : Int) : Decidable (Fits n) :=
  inferInstanceAs (Decidable (minValue ≤ n ∧ n ≤ maxValue))

/-- The result of an `i32` operation whose exact value is `exact`. -/
def ofExact (overflowChecks : Bool) (exact : Int) : Option Int :=
  if Fits exact then some exact
  else if overflowChecks then none
  else some (exact.bmod (2 ^ 32))

theorem ofExact_of_fits (overflowChecks : Bool) {exact : Int} (fits : Fits exact) :
    ofExact overflowChecks exact = some exact :=
  if_pos fits

/-- With overflow checks a result is the exact value, which fits. -/
theorem ofExact_true_eq_some {exact result : Int} (computed : ofExact true exact = some result) :
    Fits exact ∧ result = exact := by
  unfold ofExact at computed
  split at computed
  · exact ⟨‹_›, (Option.some.inj computed).symm⟩
  · simp at computed

end I32

namespace U32

/-- The result of a `u32` operation whose exact value is `exact`. -/
def ofExact (overflowChecks : Bool) (exact : Nat) : Option UInt32 :=
  if exact < 2 ^ 32 ∨ overflowChecks = false then some (UInt32.ofNat exact) else none

end U32

/-- An `f64`, as the value it stands for. -/
inductive F64 where
  | finite (value : ℚ)
  | infinite (negative : Bool)
  | nan
  deriving DecidableEq

namespace F64

/-- `n as f64`. -/
def ofInt (n : Int) : F64 :=
  finite n

/-- Multiplication: an infinity times zero is NaN. -/
def mul : F64 → F64 → F64
  | finite a, finite b => finite (a * b)
  | nan, _ => nan
  | _, nan => nan
  | infinite negative, finite b =>
      if b = 0 then nan else infinite (negative != decide (b < 0))
  | finite a, infinite negative =>
      if a = 0 then nan else infinite (negative != decide (a < 0))
  | infinite negative, infinite negative' => infinite (negative != negative')

/-- Division: a nonzero number over zero is an infinity of its sign, and zero over zero is
NaN; the zero divided by is the positive one. -/
def div : F64 → F64 → F64
  | finite a, finite b =>
      if b ≠ 0 then finite (a / b)
      else if a = 0 then nan
      else infinite (decide (a < 0))
  | nan, _ => nan
  | _, nan => nan
  | finite _, infinite _ => finite 0
  | infinite negative, finite b => infinite (negative != decide (b < 0))
  | infinite _, infinite _ => nan

/-- Rounding half away from zero. -/
def roundHalfAway (q : ℚ) : Int :=
  if 0 ≤ q then ⌊q + 1 / 2⌋ else -⌊-q + 1 / 2⌋

/-- `f64::round`. -/
def round : F64 → F64
  | finite q => finite (roundHalfAway q)
  | value => value

/-- `x as iN` for `N = bits`: toward zero, saturating at the bounds, NaN to 0. -/
def toInt (bits : Nat) : F64 → Int
  | finite q => max (-2 ^ (bits - 1)) (min (if 0 ≤ q then ⌊q⌋ else ⌈q⌉) (2 ^ (bits - 1) - 1))
  | infinite negative => if negative then -2 ^ (bits - 1) else 2 ^ (bits - 1) - 1
  | nan => 0

@[simp]
theorem mul_finite (a b : ℚ) : mul (finite a) (finite b) = finite (a * b) :=
  rfl

theorem div_finite {a b : ℚ} (nonzero : b ≠ 0) : div (finite a) (finite b) = finite (a / b) :=
  if_pos nonzero

@[simp]
theorem div_zero_zero : div (finite 0) (finite 0) = nan :=
  rfl

@[simp]
theorem round_nan : round nan = nan :=
  rfl

@[simp]
theorem toInt_nan (bits : Nat) : toInt bits nan = 0 :=
  rfl

/-- A whole number that fits is cast to itself. -/
theorem toInt_finite_int {bits : Nat} {n : Int} (low : -2 ^ (bits - 1) ≤ n)
    (high : n ≤ 2 ^ (bits - 1) - 1) : toInt bits (finite n) = n := by
  have whole : (if 0 ≤ (n : ℚ) then ⌊(n : ℚ)⌋ else ⌈(n : ℚ)⌉) = n := by
    split <;> simp
  rw [toInt, whole, min_eq_left high, max_eq_right low]

/-- A nonnegative value is rounded by adding a half and taking the floor. -/
theorem roundHalfAway_of_nonneg {q : ℚ} (nonnegative : 0 ≤ q) :
    roundHalfAway q = ⌊q + 1 / 2⌋ :=
  if_pos nonnegative

/-- The round of a nonnegative value, as a whole number. -/
theorem roundHalfAway_eq_iff {q : ℚ} (nonnegative : 0 ≤ q) (n : Int) :
    roundHalfAway q = n ↔ (n : ℚ) ≤ q + 1 / 2 ∧ q + 1 / 2 < n + 1 := by
  rw [roundHalfAway_of_nonneg nonnegative, Int.floor_eq_iff]

/-- `a <= b`: false when either is NaN. -/
def le : F64 → F64 → Bool
  | finite a, finite b => decide (a ≤ b)
  | nan, _ | _, nan => false
  | infinite true, _ => true
  | _, infinite false => true
  | _, _ => false

/-- `f64::max`: the larger value, and the other one where one is NaN. -/
def max : F64 → F64 → F64
  | nan, b => b
  | a, nan => a
  | a, b => if le a b then b else a

/-- `f64::min`: the smaller value, and the other one where one is NaN. -/
def min : F64 → F64 → F64
  | nan, b => b
  | a, nan => a
  | a, b => if le a b then a else b

/-- `x == 0.0`. -/
def isZero : F64 → Bool
  | finite q => q == 0
  | _ => false

theorem max_finite (a b : ℚ) : max (finite a) (finite b) = finite (Max.max a b) := by
  by_cases below : a ≤ b <;> simp [max, le, below, max_def]

theorem min_finite (a b : ℚ) : min (finite a) (finite b) = finite (Min.min a b) := by
  by_cases below : a ≤ b <;> simp [min, le, below, min_def]

/-- A value between two whole numbers in range is cast to a whole number between them. -/
theorem toInt_of_between {bits : Nat} {q : ℚ} {lo hi : Int} (low : -2 ^ (bits - 1) ≤ lo)
    (high : hi ≤ 2 ^ (bits - 1) - 1) (above : (lo : ℚ) ≤ q) (below : q ≤ hi) :
    lo ≤ toInt bits (finite q) ∧ toInt bits (finite q) ≤ hi := by
  have truncated : lo ≤ (if 0 ≤ q then ⌊q⌋ else ⌈q⌉) ∧ (if 0 ≤ q then ⌊q⌋ else ⌈q⌉) ≤ hi := by
    split
    · exact ⟨Int.le_floor.mpr above, Int.cast_le.mp ((Int.floor_le q).trans below)⟩
    · exact ⟨Int.cast_le.mp (above.trans (Int.le_ceil q)), Int.ceil_le.mpr below⟩
  simp only [toInt]
  omega

/-- `x.max(lo).min(hi) as iN` lies between `lo` and `hi`, whatever `x` is, NaN included. -/
theorem toInt_clamp {bits : Nat} {lo hi : Int} (x : F64) (ordered : lo ≤ hi)
    (low : -2 ^ (bits - 1) ≤ lo) (high : hi ≤ 2 ^ (bits - 1) - 1) :
    lo ≤ toInt bits (min (max x (finite lo)) (finite hi)) ∧
      toInt bits (min (max x (finite lo)) (finite hi)) ≤ hi := by
  have ordered' : (lo : ℚ) ≤ hi := Int.cast_le.mpr ordered
  cases x with
  | finite q =>
    rw [max_finite, min_finite]
    apply toInt_of_between low high
    · exact le_min (le_max_right q lo) ordered'
    · exact min_le_right _ _
  | infinite negative =>
    cases negative with
    | false =>
      have clamped : min (max (infinite false) (finite lo)) (finite hi) = finite hi := rfl
      rw [clamped]
      exact toInt_of_between low high ordered' le_rfl
    | true =>
      have clamped :
          min (max (infinite true) (finite lo)) (finite hi) = finite (Min.min lo hi) := by
        rw [← min_finite]
        rfl
      rw [clamped]
      exact toInt_of_between low high (le_min le_rfl ordered') (min_le_right _ _)
  | nan =>
    -- `f64::max` returns the other operand of a NaN
    rw [show max nan (finite lo) = finite lo from rfl, min_finite]
    exact toInt_of_between low high (le_min le_rfl ordered') (min_le_right _ _)

end F64
