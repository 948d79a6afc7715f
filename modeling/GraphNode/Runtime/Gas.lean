import GraphNode.Library.Saturating

/-!
# Gas

`graph/src/runtime/gas`.  `Gas` wraps a `u64` that the operators of `ops.rs` and the
combinators of `combinators.rs` saturate at `u64::MAX`, so that gas "never trends toward zero".
An expression over gas is then its value over unbounded naturals, saturated once: every
operator is a saturating one, and saturating commutes with each of them (`Saturating`).  The
exception is `*=`: `impl MulAssign<u64> for Gas` is written with `saturating_add`, so it adds
the factor instead of multiplying by it.

`GasCounter::consume_host_fn` charges each host call its gas and `HOST_EXPORT_GAS` on an atomic
counter, and fails once the counter reaches the handler's limit.
-/

namespace GraphNode

/-- `u64::MAX`. -/
def u64Max : Nat := 18446744073709551615

/-- `Gas(u64)`. -/
@[ext]
structure Gas where
  value : Nat
  le_max : value ≤ u64Max
  deriving DecidableEq

namespace Gas

/-- A count as gas, `u64::MAX` where it does not fit: the saturating conversions of
`saturating.rs`, and the result of every saturating operation. -/
def ofNat (n : Nat) : Gas :=
  ⟨min n u64Max, Nat.min_le_right _ _⟩

@[simp]
theorem value_ofNat (n : Nat) : (ofNat n).value = min n u64Max := rfl

/-- `Gas::ZERO`. -/
def zero : Gas :=
  ⟨0, Nat.zero_le _⟩

/-- `impl Add for Gas` and `impl AddAssign for Gas`: `saturating_add`. -/
def add (left right : Gas) : Gas :=
  ofNat (left.value + right.value)

instance : Add Gas := ⟨add⟩

/-- `impl Mul<u64> for Gas`: `saturating_mul`. -/
def mul (gas : Gas) (factor : UInt64) : Gas :=
  ofNat (gas.value * factor.toNat)

/-- `impl Mul<usize> for Gas`: the count is saturated into a `u64`, then multiplied
saturating. -/
def mulUsize (gas : Gas) (count : Nat) : Gas :=
  ofNat (gas.value * min count u64Max)

/-- `impl MulAssign<u64> for Gas`: written with `saturating_add`. -/
def mulAssign (gas : Gas) (factor : UInt64) : Gas :=
  ofNat (gas.value + factor.toNat)

/-- `impl Sum for Gas`: `+=` over the items, from `Gas::ZERO`. -/
def sum (gases : List Gas) : Gas :=
  gases.foldl (· + ·) zero

@[simp]
theorem value_add (left right : Gas) :
    (left + right).value = min (left.value + right.value) u64Max := rfl

@[simp]
theorem value_mul (gas : Gas) (factor : UInt64) :
    (gas.mul factor).value = min (gas.value * factor.toNat) u64Max := rfl

@[simp]
theorem value_mulUsize (gas : Gas) (count : Nat) :
    (gas.mulUsize count).value = min (gas.value * min count u64Max) u64Max := rfl

theorem eq_ofNat {gas : Gas} {n : Nat} (saturated : gas.value = min n u64Max) :
    gas = ofNat n :=
  Gas.ext saturated

/-- `Sum` adds saturating from the start, so it is the exact sum saturated. -/
theorem value_foldl_add (gases : List Gas) (start : Gas) :
    (gases.foldl (· + ·) start).value = min (start.value + (gases.map value).sum) u64Max := by
  induction gases generalizing start with
  | nil => simpa using start.le_max
  | cons gas gases induction =>
      rw [List.foldl_cons, induction, value_add, List.map_cons, List.sum_cons]
      omega

theorem value_sum (gases : List Gas) :
    (sum gases).value = min (gases.map value).sum u64Max := by
  rw [sum, value_foldl_add]
  exact congrArg (min · u64Max) (Nat.zero_add _)

/-! The operators on saturated sizes are the saturated exact operations. -/

@[simp]
theorem ofNat_add_ofNat (left right : Nat) : ofNat left + ofNat right = ofNat (left + right) :=
  Gas.ext (Saturating.min_add_min left right u64Max)

@[simp]
theorem ofNat_mul (size : Nat) (factor : UInt64) :
    (ofNat size).mul factor = ofNat (size * factor.toNat) := by
  apply Gas.ext
  rw [value_mul, value_ofNat, value_ofNat, Nat.mul_comm, Saturating.min_mul_min_right,
    Nat.mul_comm]

@[simp]
theorem ofNat_mulUsize (size count : Nat) : (ofNat size).mulUsize count = ofNat (size * count) :=
  Gas.ext (Saturating.min_mul_min size count u64Max)

@[simp]
theorem sum_map_ofNat {γ : Type} (items : List γ) (size : γ → Nat) :
    sum (items.map fun item => ofNat (size item)) = ofNat (items.map size).sum := by
  apply eq_ofNat
  rw [value_sum, List.map_map]
  induction items with
  | nil => rfl
  | cons item items induction =>
      rw [List.map_cons, List.map_cons, List.sum_cons, List.sum_cons, Function.comp_apply,
        value_ofNat]
      omega

end Gas

/-- The combinators of `complexity`: `Linear`, `Mul`, `Min` and `Max`. -/
inductive GasCombinator where
  | linear
  | mul
  | min
  | max
  deriving DecidableEq

namespace GasCombinator

/-- `GasCombinator::combine`; `Min` and `Max` are `std::cmp::min` and `max` on the derived order
of `Gas`, which keep the first argument on a tie and the second, respectively. -/
def combine : GasCombinator → Gas → Gas → Gas
  | linear, left, right => left + right
  | mul, left, right => Gas.ofNat (left.value * right.value)
  | min, left, right => if left.value ≤ right.value then left else right
  | max, left, right => if left.value ≤ right.value then right else left

/-- What a combinator computes over unbounded naturals. -/
def exact : GasCombinator → Nat → Nat → Nat
  | linear => (· + ·)
  | mul => (· * ·)
  | min => fun left right => Min.min left right
  | max => fun left right => Max.max left right

/-- Combining saturated sizes gives the combined exact sizes saturated. -/
theorem value_combine_ofNat (combinator : GasCombinator) (left right : Nat) :
    (combinator.combine (Gas.ofNat left) (Gas.ofNat right)).value =
      Min.min (combinator.exact left right) u64Max := by
  cases combinator with
  | linear => exact Saturating.min_add_min left right u64Max
  | mul => exact Saturating.min_mul_min left right u64Max
  | min | max =>
      simp only [combine, exact]
      by_cases order : (Gas.ofNat left).value ≤ (Gas.ofNat right).value
      · rw [if_pos order]
        simp only [Gas.value_ofNat] at order ⊢
        omega
      · rw [if_neg order]
        simp only [Gas.value_ofNat] at order ⊢
        omega

@[simp]
theorem combine_ofNat (combinator : GasCombinator) (left right : Nat) :
    combinator.combine (Gas.ofNat left) (Gas.ofNat right) =
      Gas.ofNat (combinator.exact left right) :=
  Gas.ext (value_combine_ofNat combinator left right)

end GasCombinator

/-- Gas expressions: constants and the gas sizes of arguments, under the operators of `ops.rs`
and the combinators of `combinators.rs`.  A size enters as `sized n`, the number `n` saturated,
which is what every `GasSizeOf` returns. -/
inductive GasExpr where
  | gas (value : Gas)
  | sized (size : Nat)
  | add (left right : GasExpr)
  | mul (left : GasExpr) (factor : UInt64)
  | mulUsize (left : GasExpr) (count : Nat)
  | mulAssign (left : GasExpr) (factor : UInt64)
  | sum (terms : List GasExpr)
  | combine (combinator : GasCombinator) (left right : GasExpr)
  | exponential (base : GasExpr) (exponent : UInt8)

namespace GasExpr

mutual
/-- The gas the code computes. -/
def eval : GasExpr → Gas
  | gas value => value
  | sized size => Gas.ofNat size
  | add left right => eval left + eval right
  | mul left factor => (eval left).mul factor
  | mulUsize left count => (eval left).mulUsize count
  | mulAssign left factor => (eval left).mulAssign factor
  | sum terms => Gas.sum (evalList terms)
  | combine combinator left right => combinator.combine (eval left) (eval right)
  -- `Combine<(T0, u8), Exponential>`: `saturating_pow` of the base's gas
  | exponential base exponent => Gas.ofNat ((eval base).value ^ exponent.toNat)

/-- The gas of each term. -/
def evalList : List GasExpr → List Gas
  | [] => []
  | term :: terms => eval term :: evalList terms
end

mutual
/-- The number the same expression computes over unbounded naturals, where `*=` multiplies. -/
def exact : GasExpr → Nat
  | gas value => value.value
  | sized size => size
  | add left right => exact left + exact right
  | mul left factor => exact left * factor.toNat
  | mulUsize left count => exact left * count
  | mulAssign left factor => exact left * factor.toNat
  | sum terms => exactList terms
  | combine combinator left right => combinator.exact (exact left) (exact right)
  | exponential base exponent => exact base ^ exponent.toNat

/-- The exact sum of the terms. -/
def exactList : List GasExpr → Nat
  | [] => 0
  | term :: terms => exact term + exactList terms
end

mutual
/-- The expression does not use `*=`. -/
def mulAssignFree : GasExpr → Bool
  | gas _ | sized _ => true
  | add left right | combine _ left right => mulAssignFree left && mulAssignFree right
  | mul left _ | mulUsize left _ | exponential left _ => mulAssignFree left
  | mulAssign _ _ => false
  | sum terms => mulAssignFreeList terms

/-- No term uses `*=`. -/
def mulAssignFreeList : List GasExpr → Bool
  | [] => true
  | term :: terms => mulAssignFree term && mulAssignFreeList terms
end

mutual
/-- Without `*=`, an expression's gas is its exact value saturated once, by induction on the
expression: each operator saturates, and saturating commutes with it. -/
theorem value_eval : ∀ expr : GasExpr, expr.mulAssignFree = true →
    (eval expr).value = min (exact expr) u64Max
  | gas value, _ => (Nat.min_eq_left value.le_max).symm
  | sized _, _ => rfl
  | add left right, free => by
      simp only [mulAssignFree, Bool.and_eq_true] at free
      rw [eval, exact, Gas.value_add, value_eval left free.1, value_eval right free.2,
        Saturating.min_add_min]
  | mul left factor, free => by
      rw [eval, exact, Gas.value_mul, value_eval left free, Nat.mul_comm,
        Saturating.min_mul_min_right, Nat.mul_comm]
  | mulUsize left count, free => by
      rw [eval, exact, Gas.value_mulUsize, value_eval left free, Saturating.min_mul_min]
  | mulAssign _ _, free => by simp [mulAssignFree] at free
  | sum terms, free => by
      rw [eval, exact, Gas.value_sum, sum_evalList terms free]
  | combine combinator left right, free => by
      simp only [mulAssignFree, Bool.and_eq_true] at free
      rw [eval, exact, Gas.eq_ofNat (value_eval left free.1),
        Gas.eq_ofNat (value_eval right free.2), GasCombinator.value_combine_ofNat]
  | exponential base exponent, free => by
      rw [eval, exact, Gas.value_ofNat, value_eval base free, Saturating.min_pow_min]

/-- The terms of a sum without `*=` add up, saturated, to their exact sum saturated. -/
theorem sum_evalList : ∀ terms : List GasExpr, mulAssignFreeList terms = true →
    min ((evalList terms).map Gas.value).sum u64Max = min (exactList terms) u64Max
  | [], _ => rfl
  | term :: terms, free => by
      simp only [mulAssignFreeList, Bool.and_eq_true] at free
      have head := value_eval term free.1
      have rest := sum_evalList terms free.2
      rw [evalList, List.map_cons, List.sum_cons, exactList]
      omega
end

/-- `*=` on an expression without `*=` adds the factor to the exact value, saturated. -/
theorem value_eval_mulAssign {left : GasExpr} (free : left.mulAssignFree = true)
    (factor : UInt64) :
    (eval (mulAssign left factor)).value = min (exact left + factor.toNat) u64Max := by
  have saturated := value_eval left free
  simp only [eval, Gas.mulAssign, Gas.value_ofNat]
  omega

/-- `*=` is not the saturated product: wherever adding the factor and multiplying by it differ
once saturated, the gas of `left *= factor` is not the exact value saturated. -/
theorem mulAssign_not_saturated_product {left : GasExpr} (free : left.mulAssignFree = true)
    {factor : UInt64}
    (differs : min (exact left + factor.toNat) u64Max ≠ min (exact left * factor.toNat) u64Max) :
    (eval (mulAssign left factor)).value ≠ min (exact (mulAssign left factor)) u64Max := by
  rw [value_eval_mulAssign free, exact]
  exact differs

/-- `Gas(2) *= 3` is `Gas(5)`, where the product is 6. -/
theorem mulAssign_not_saturated_product_two_three :
    min (exact (gas ⟨2, by decide⟩) + (3 : UInt64).toNat) u64Max ≠
        min (exact (gas ⟨2, by decide⟩) * (3 : UInt64).toNat) u64Max ∧
      (eval (mulAssign (gas ⟨2, by decide⟩) 3)).value ≠
        min (exact (mulAssign (gas ⟨2, by decide⟩) 3)) u64Max :=
  ⟨by decide, mulAssign_not_saturated_product rfl (by decide)⟩

end GasExpr

/-! ## The gas counter -/

/-- `HOST_EXPORT_GAS`. -/
def hostExportGas : Gas :=
  ⟨10000, by decide⟩

/-- `GasCounter::consume_host_fn`: the counter after the call and what the call returns.  The
atomic `fetch_update` and the returned `new` both add the charge saturating to the old count. -/
def consumeHostFn (maxGasPerHandler : Nat) (counter amount : Gas) : Gas × Except String Unit :=
  let amount := amount + hostExportGas
  let used := counter + amount
  (used, if maxGasPerHandler ≤ used.value then
    .error ("Gas limit exceeded. Used: " ++ toString used.value) else .ok ())

/-- The host calls of a handler, one after another on one counter. -/
def consumeHostFns (maxGasPerHandler : Nat) : Gas → List Gas → Gas × List (Except String Unit)
  | counter, [] => (counter, [])
  | counter, amount :: amounts =>
      let (counter, result) := consumeHostFn maxGasPerHandler counter amount
      let (counter, results) := consumeHostFns maxGasPerHandler counter amounts
      (counter, result :: results)

/-- What a host call adds to the counter over unbounded naturals. -/
def hostCharge (amount : Gas) : Nat :=
  amount.value + hostExportGas.value

/-- The step lemma: a call adds its charge saturating, and fails once the counter reaches the
limit. -/
theorem consumeHostFn_spec (maxGasPerHandler : Nat) (counter amount : Gas) :
    (consumeHostFn maxGasPerHandler counter amount).1.value =
        min (counter.value + hostCharge amount) u64Max ∧
      (consumeHostFn maxGasPerHandler counter amount).2.isOk =
        !decide (maxGasPerHandler ≤ min (counter.value + hostCharge amount) u64Max) := by
  have charged : (counter + (amount + hostExportGas)).value =
      min (counter.value + hostCharge amount) u64Max := by
    simp only [Gas.value_add, hostCharge]
    omega
  refine ⟨charged, ?_⟩
  simp only [consumeHostFn, charged]
  by_cases reached : maxGasPerHandler ≤ min (counter.value + hostCharge amount) u64Max
  · rw [if_pos reached]
    simp [reached, Except.isOk, Except.toBool]
  · rw [if_neg reached]
    simp [reached, Except.isOk, Except.toBool]

/-- The run lemma: the counter is the saturated sum of the charges, and each call fails exactly
when the saturated running total, its own charge included, reaches the limit. -/
theorem consumeHostFns_spec (maxGasPerHandler : Nat) :
    ∀ (amounts : List Gas) (start : Gas),
      (consumeHostFns maxGasPerHandler start amounts).1.value =
          min (start.value + (amounts.map hostCharge).sum) u64Max ∧
        ∀ i < amounts.length,
          ((consumeHostFns maxGasPerHandler start amounts).2[i]?).map Except.isOk =
            some !(decide (maxGasPerHandler ≤
              min (start.value + ((amounts.take (i + 1)).map hostCharge).sum) u64Max))
  | [], start => ⟨(Nat.min_eq_left start.le_max).symm, fun _ none => absurd none (Nat.not_lt_zero _)⟩
  | amount :: amounts, start => by
      obtain ⟨counted, result⟩ := consumeHostFn_spec maxGasPerHandler start amount
      obtain ⟨restCounted, restResults⟩ := consumeHostFns_spec maxGasPerHandler amounts
        (consumeHostFn maxGasPerHandler start amount).1
      refine ⟨?_, ?_⟩
      · rw [consumeHostFns, restCounted, counted, List.map_cons, List.sum_cons]
        omega
      · intro i within
        cases i with
        | zero => simp [consumeHostFns, result]
        | succ i =>
            have later := restResults i (by simpa using within)
            have running : min (min (start.value + hostCharge amount) u64Max +
                ((amounts.take (i + 1)).map hostCharge).sum) u64Max =
                min (start.value + (hostCharge amount +
                  ((amounts.take (i + 1)).map hostCharge).sum)) u64Max := by
              omega
            rw [counted, running] at later
            simpa only [consumeHostFns, List.getElem?_cons_succ, List.take_succ_cons,
              List.map_cons, List.sum_cons] using later

/-- Two host calls of 5,000 gas under a limit of 25,000: each is charged 15,000, and the second
reaches the limit. -/
def twoCalls : List Gas :=
  [⟨5000, by decide⟩, ⟨5000, by decide⟩]

theorem consumeHostFns_spec_twoCalls :
    ((consumeHostFns 25000 Gas.zero twoCalls).2[0]?).map Except.isOk = some true ∧
      ((consumeHostFns 25000 Gas.zero twoCalls).2[1]?).map Except.isOk = some false := by
  have run := (consumeHostFns_spec 25000 twoCalls Gas.zero).2
  rw [run 0 (by decide), run 1 (by decide)]
  decide

end GraphNode
