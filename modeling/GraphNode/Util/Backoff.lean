import Mathlib.Data.UInt
import Mathlib.Data.List.Range

/-!
# Exponential backoff

`graph/src/util/backoff.rs`.  `ExponentialBackoff::delay` doubles the base delay once per
attempt through the factor `1 << attempt`, a `u32` shifted by the `u64` attempt count, and caps
the product at the ceiling.  A `u32` shifted by 32 or more overflows: with overflow checks (the
`dev` and `test` profiles) the shift panics, without them (`release`) the amount is taken modulo
32.  The flag `overflowChecks` chooses the build; a panic is `none`.

A retry loop such as `SyncStore::retry` calls `next_attempt` once per failed try, so after 32
failures the thirty-third delay either panics or starts over from the base delay.
-/

namespace GraphNode

/-- `Duration::MAX` in nanoseconds: `u64::MAX` seconds and 999,999,999 nanoseconds. -/
def durationMax : Nat := 18446744073709551615 * 1000000000 + 999999999

/-- `std::time::Duration`, as its length in nanoseconds. -/
structure Duration where
  nanos : Nat
  le_max : nanos ≤ durationMax

namespace Duration

/-- `Duration::saturating_mul`: the product, or `Duration::MAX` where it does not fit; the
product of a duration by a `u32` fits exactly when `checked_mul` finds it below the maximum. -/
def saturatingMul (duration : Duration) (factor : UInt32) : Duration :=
  ⟨min (duration.nanos * factor.toNat) durationMax, Nat.min_le_right _ _⟩

@[simp]
theorem nanos_saturatingMul (duration : Duration) (factor : UInt32) :
    (duration.saturatingMul factor).nanos = min (duration.nanos * factor.toNat) durationMax :=
  rfl

end Duration

/-- `u32 << u64`: with overflow checks a shift by 32 or more panics; without them the amount
is taken modulo 32, as `<<<` on `UInt32` does. -/
def shiftLeft (overflowChecks : Bool) (value : UInt32) (amount : UInt64) : Option UInt32 :=
  if amount.toNat < 32 ∨ overflowChecks = false then some (value <<< amount.toUInt32) else none

/-- `u64 += 1`: at `u64::MAX` it panics with overflow checks and wraps to 0 without them. -/
def increment (overflowChecks : Bool) (n : UInt64) : Option UInt64 :=
  if n.toNat + 1 < 2 ^ 64 ∨ overflowChecks = false then some (n + 1) else none

theorem toNat_one_shiftLeft (amount : UInt64) :
    ((1 : UInt32) <<< amount.toUInt32).toNat = 2 ^ (amount.toNat % 32) := by
  have small : 2 ^ (amount.toNat % 32) < 2 ^ 32 :=
    Nat.pow_lt_pow_right (by decide) (Nat.mod_lt _ (by decide))
  rw [UInt32.toNat_shiftLeft, UInt64.toNat_toUInt32, Nat.mod_mod_of_dvd _ (by decide),
    UInt32.toNat_one, Nat.one_shiftLeft, Nat.mod_eq_of_lt small]

theorem shiftLeft_of_lt (overflowChecks : Bool) {amount : UInt64} (few : amount.toNat < 32) :
    (shiftLeft overflowChecks 1 amount).map UInt32.toNat = some (2 ^ amount.toNat) := by
  rw [shiftLeft, if_pos (Or.inl few), Option.map_some, toNat_one_shiftLeft, Nat.mod_eq_of_lt few]

theorem increment_of_lt (overflowChecks : Bool) {n : UInt64} (fits : n.toNat + 1 < 2 ^ 64) :
    (increment overflowChecks n).map UInt64.toNat = some (n.toNat + 1) := by
  rw [increment, if_pos (Or.inl fits), Option.map_some, UInt64.toNat_add, UInt64.toNat_one,
    Nat.mod_eq_of_lt fits]

/-- `ExponentialBackoff`. -/
structure ExponentialBackoff where
  attempt : UInt64
  base : Duration
  ceiling : Duration

namespace ExponentialBackoff

variable (overflowChecks : Bool)

/-- `ExponentialBackoff::new`. -/
def new (base ceiling : Duration) : ExponentialBackoff :=
  ⟨0, base, ceiling⟩

/-- `ExponentialBackoff::delay`: `base.saturating_mul(1 << attempt)`, capped at the ceiling. -/
def delay (backoff : ExponentialBackoff) : Option Duration := do
  let factor ← shiftLeft overflowChecks 1 backoff.attempt
  let delay := backoff.base.saturatingMul factor
  pure (if backoff.ceiling.nanos < delay.nanos then backoff.ceiling else delay)

/-- `ExponentialBackoff::next_attempt`, the delay `sleep` and `sleep_async` wait. -/
def nextAttempt (backoff : ExponentialBackoff) : Option (Duration × ExponentialBackoff) := do
  let delay ← backoff.delay overflowChecks
  let attempt ← increment overflowChecks backoff.attempt
  pure (delay, { backoff with attempt := attempt })

/-- `ExponentialBackoff::reset`. -/
def reset (backoff : ExponentialBackoff) : ExponentialBackoff :=
  { backoff with attempt := 0 }

/-- `n` calls of `next_attempt` in a row, as a retry loop makes them on `n` failures: the
delays waited and the backoff after them. -/
def attempts : Nat → ExponentialBackoff → Option (List Duration × ExponentialBackoff)
  | 0, backoff => some ([], backoff)
  | n + 1, backoff => do
      let (delay, backoff) ← backoff.nextAttempt overflowChecks
      let (delays, backoff) ← attempts n backoff
      pure (delay :: delays, backoff)

/-- The capped delay, as a length. -/
theorem nanos_delay {backoff : ExponentialBackoff} {factor : UInt32}
    (shifted : shiftLeft overflowChecks 1 backoff.attempt = some factor) :
    (backoff.delay overflowChecks).map Duration.nanos =
      some (min (backoff.base.nanos * factor.toNat) backoff.ceiling.nanos) := by
  have capped := backoff.ceiling.le_max
  simp only [delay, shifted, Option.bind_eq_bind, Option.bind_some, Option.pure_def,
    Option.map_some]
  split <;> simp_all <;> omega

/-- Below 32 attempts the delay is the base doubled once per attempt, capped at the ceiling. -/
theorem delay_of_lt {backoff : ExponentialBackoff} (few : backoff.attempt.toNat < 32) :
    (backoff.delay overflowChecks).map Duration.nanos =
      some (min (backoff.base.nanos * 2 ^ backoff.attempt.toNat) backoff.ceiling.nanos) := by
  obtain ⟨factor, shifted, power⟩ :=
    Option.map_eq_some_iff.mp (shiftLeft_of_lt overflowChecks few)
  rw [nanos_delay overflowChecks shifted, power]

/-- With overflow checks, the delay panics from the thirty-second attempt on. -/
theorem delay_checked_of_le {backoff : ExponentialBackoff} (many : 32 ≤ backoff.attempt.toNat) :
    backoff.delay true = none := by
  simp [delay, shiftLeft, Nat.not_lt.mpr many]

/-- Without overflow checks, the factor is `2` to the attempt count modulo 32. -/
theorem delay_wrapping (backoff : ExponentialBackoff) :
    (backoff.delay false).map Duration.nanos =
      some (min (backoff.base.nanos * 2 ^ (backoff.attempt.toNat % 32)) backoff.ceiling.nanos) := by
  have shifted : shiftLeft false 1 backoff.attempt =
      some ((1 : UInt32) <<< backoff.attempt.toUInt32) := by
    simp [shiftLeft]
  rw [nanos_delay false shifted, toNat_one_shiftLeft]

/-- The step lemma: below 32 attempts `next_attempt` returns the delay of `delay_of_lt` and
counts one attempt more. -/
theorem nextAttempt_of_lt {backoff : ExponentialBackoff} (few : backoff.attempt.toNat < 32) :
    ∃ delay next, backoff.nextAttempt overflowChecks = some (delay, next) ∧
      delay.nanos = min (backoff.base.nanos * 2 ^ backoff.attempt.toNat) backoff.ceiling.nanos ∧
      next.attempt.toNat = backoff.attempt.toNat + 1 ∧ next.base = backoff.base ∧
      next.ceiling = backoff.ceiling := by
  obtain ⟨delay, delayed, nanos⟩ := Option.map_eq_some_iff.mp (delay_of_lt overflowChecks few)
  obtain ⟨attempt, incremented, counted⟩ :=
    Option.map_eq_some_iff.mp (@increment_of_lt overflowChecks backoff.attempt (by omega))
  refine ⟨delay, { backoff with attempt := attempt }, ?_, nanos, counted, rfl, rfl⟩
  simp [nextAttempt, delayed, incremented]

/-- The run lemma: attempts that stay within 32 wait the base doubled once per attempt made
before, capped at the ceiling. -/
theorem attempts_of_le :
    ∀ (n : Nat) (backoff : ExponentialBackoff), backoff.attempt.toNat + n ≤ 32 →
      ∃ delays final, backoff.attempts overflowChecks n = some (delays, final) ∧
        delays.map Duration.nanos = (List.range' backoff.attempt.toNat n).map
          (fun k => min (backoff.base.nanos * 2 ^ k) backoff.ceiling.nanos) ∧
        final.attempt.toNat = backoff.attempt.toNat + n ∧ final.base = backoff.base ∧
        final.ceiling = backoff.ceiling
  | 0, backoff, _ => ⟨[], backoff, rfl, rfl, rfl, rfl, rfl⟩
  | n + 1, backoff, within => by
      obtain ⟨delay, next, stepped, nanos, counted, sameBase, sameCeiling⟩ :=
        nextAttempt_of_lt overflowChecks (show backoff.attempt.toNat < 32 by omega)
      obtain ⟨delays, final, ran, delaysNanos, finalCount, finalBase, finalCeiling⟩ :=
        attempts_of_le n next (by omega)
      refine ⟨delay :: delays, final, ?_, ?_, by omega, finalBase.trans sameBase,
        finalCeiling.trans sameCeiling⟩
      · simp [attempts, stepped, ran]
      · rw [List.map_cons, delaysNanos, nanos, counted, sameBase, sameCeiling, List.range'_succ,
          List.map_cons]

/-- The thirty-third delay of a retry loop panics with overflow checks, and is the base delay
again without them. -/
theorem delay_overflows_after_32_attempts (base ceiling : Duration) (overflowChecks : Bool) :
    ∃ delays backoff, (new base ceiling).attempts overflowChecks 32 = some (delays, backoff) ∧
      delays.map Duration.nanos =
        (List.range 32).map (fun n => min (base.nanos * 2 ^ n) ceiling.nanos) ∧
      backoff.delay true = none ∧
      (backoff.delay false).map Duration.nanos = some (min base.nanos ceiling.nanos) := by
  obtain ⟨delays, backoff, ran, delaysNanos, counted, sameBase, sameCeiling⟩ :=
    attempts_of_le overflowChecks 32 (new base ceiling) (by simp [new])
  refine ⟨delays, backoff, ran, ?_, ?_, ?_⟩
  · simpa [new, List.range_eq_range'] using delaysNanos
  · exact delay_checked_of_le (by simp [new] at counted; omega)
  · have wrapped : backoff.attempt.toNat % 32 = 0 := by
      simp [new] at counted
      omega
    rw [delay_wrapping, wrapped, sameBase, sameCeiling]
    simp [new]

end ExponentialBackoff

end GraphNode
