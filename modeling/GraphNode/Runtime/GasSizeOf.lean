import GraphNode.Runtime.Gas
import GraphNode.Store.Operations
import GraphNode.Store.BigDecimal

/-!
# Gas sizes

`graph/src/runtime/gas/size_of.rs` and `GasOp::with_args`.  A host call charges
`base_cost + size * size_mult`, where the size of its arguments is computed by `GasSizeOf`:
constants for booleans and machine integers, byte lengths for strings, bytes and big numbers, and
sums, products, minima or maxima of the sizes of the parts for options, vectors, slices, hash
maps, entity keys and store values, whose lists nest to any depth.

The class carries, beside the gas the code computes, the number the same computation gives over
unbounded naturals, and the law that the gas is that number saturated once.  Each implementation
proves the law from the gas of its parts, the recursive one of `Value` by induction on the value.
-/

namespace GraphNode

/-- `GasSizeOf`: `gas_size_of`, and `const_gas_size_of`, the size shared by every value of the
type where there is one; with the sizes over unbounded naturals and their laws. -/
class GasSizeOf (α : Type) where
  constGasSizeOf : Option Gas
  gasSizeOf : α → Gas
  /-- The size over unbounded naturals. -/
  size : α → Nat
  /-- The constant size over unbounded naturals. -/
  constSize : Option Nat
  gasSizeOf_eq : ∀ value, gasSizeOf value = Gas.ofNat (size value)
  constGasSizeOf_eq : constGasSizeOf = constSize.map Gas.ofNat
  size_of_const : ∀ shared ∈ constSize, ∀ value, size value = shared

export GasSizeOf (gasSizeOf)

namespace GasSizeOf

/-- A type whose every value has the gas size `shared`: `bool` and, through `int_gas!`, the
machine integers, whose size is `size_of::<T>()`. -/
@[reducible]
def ofConst (α : Type) (shared : Nat) : GasSizeOf α where
  constGasSizeOf := some (Gas.ofNat shared)
  -- the default `gas_size_of`: `const_gas_size_of().expect(..)`
  gasSizeOf _ := Gas.ofNat shared
  size _ := shared
  constSize := some shared
  gasSizeOf_eq _ := rfl
  constGasSizeOf_eq := rfl
  size_of_const _ same _ := Option.some_inj.mp same

instance : GasSizeOf Bool := ofConst Bool 1
instance : GasSizeOf UInt8 := ofConst UInt8 1
instance : GasSizeOf Int32 := ofConst Int32 4
instance : GasSizeOf UInt64 := ofConst UInt64 8

/-- `str` and `String`: the byte length. -/
instance : GasSizeOf String where
  constGasSizeOf := none
  gasSizeOf text := Gas.ofNat text.utf8ByteSize
  size text := text.utf8ByteSize
  constSize := none
  gasSizeOf_eq _ := rfl
  constGasSizeOf_eq := rfl
  size_of_const _ none := by simp at none

/-- `BigInt::bits`: the bits of the magnitude. -/
def bits (n : Int) : Nat :=
  if n = 0 then 0 else n.natAbs.log2 + 1

/-- `BigInt`: one byte more than its bits take, so that zero has size one. -/
instance : GasSizeOf Int where
  constGasSizeOf := none
  gasSizeOf n := Gas.ofNat (bits n / 8 + 1)
  size n := bits n / 8 + 1
  constSize := none
  gasSizeOf_eq _ := rfl
  constGasSizeOf_eq := rfl
  size_of_const _ none := by simp at none

/-- `BigDecimal`: the gas of its digits, `as_bigint_and_exponent().0`. -/
instance : GasSizeOf RawDecimal where
  constGasSizeOf := none
  gasSizeOf decimal := gasSizeOf decimal.intVal
  size decimal := size decimal.intVal
  constSize := none
  gasSizeOf_eq decimal := gasSizeOf_eq decimal.intVal
  constGasSizeOf_eq := rfl
  size_of_const _ none := by simp at none

variable {α β : Type} [GasSizeOf α] [GasSizeOf β]

/-- `Option<T>`: one more than the value, or one. -/
instance : GasSizeOf (Option α) where
  constGasSizeOf := none
  gasSizeOf
    | some value => Gas.ofNat 1 + gasSizeOf value
    | none => Gas.ofNat 1
  size
    | some value => 1 + size value
    | none => 1
  constSize := none
  gasSizeOf_eq
    | some value => by
        show Gas.ofNat 1 + gasSizeOf value = Gas.ofNat (1 + size value)
        rw [gasSizeOf_eq value, Gas.ofNat_add_ofNat]
    | none => rfl
  constGasSizeOf_eq := rfl
  size_of_const _ none := by simp at none

/-- `&[T]`: the constant size times the length where `T` has one, else the sum of the sizes. -/
def sliceGasSizeOf (items : List α) : Gas :=
  match constGasSizeOf α with
  | some shared => shared.mulUsize items.length
  | none => Gas.sum (items.map gasSizeOf)

/-- The size of a slice over unbounded naturals. -/
def sliceSize (items : List α) : Nat :=
  match constSize α with
  | some shared => shared * items.length
  | none => (items.map size).sum

theorem map_gasSizeOf (items : List α) :
    items.map gasSizeOf = items.map fun item => Gas.ofNat (size item) :=
  List.map_congr_left fun item _ => gasSizeOf_eq item

theorem sliceGasSizeOf_eq (items : List α) :
    sliceGasSizeOf items = Gas.ofNat (sliceSize items) := by
  unfold sliceGasSizeOf sliceSize
  rw [constGasSizeOf_eq]
  cases constSize α with
  | some shared => exact Gas.ofNat_mulUsize shared items.length
  | none => simp only [Option.map_none, map_gasSizeOf, Gas.sum_map_ofNat]

/-- `Vec<T>`: the slice, and 16 and the length more, so that nesting costs. -/
instance : GasSizeOf (List α) where
  constGasSizeOf := none
  gasSizeOf items := sliceGasSizeOf items + Gas.ofNat 16 + Gas.ofNat items.length
  size items := sliceSize items + 16 + items.length
  constSize := none
  gasSizeOf_eq items := by
    show sliceGasSizeOf items + Gas.ofNat 16 + Gas.ofNat items.length = _
    rw [sliceGasSizeOf_eq, Gas.ofNat_add_ofNat, Gas.ofNat_add_ofNat]
  constGasSizeOf_eq := rfl
  size_of_const _ none := by simp at none

/-- `HashMap<K, V>`: the members, by whichever of key and value have a constant size, and 32
and eight per entry more. -/
def hashMapGasSizeOf (entries : List (α × β)) : Gas :=
  let members :=
    match constGasSizeOf α, constGasSizeOf β with
    | some keyGas, none => Gas.sum (entries.map fun entry => gasSizeOf entry.2) +
        keyGas.mulUsize entries.length
    | none, some valueGas => Gas.sum (entries.map fun entry => gasSizeOf entry.1) +
        valueGas.mulUsize entries.length
    | some keyGas, some valueGas => (keyGas + valueGas).mulUsize entries.length
    | none, none => Gas.sum (entries.map fun entry => gasSizeOf entry.1 + gasSizeOf entry.2)
  members + Gas.ofNat 32 + (Gas.ofNat 8).mulUsize entries.length

/-- `EntityKey`: the byte lengths of the deployment, the entity type and the id. -/
instance : GasSizeOf EntityKey where
  constGasSizeOf := none
  gasSizeOf key := gasSizeOf key.subgraphId + gasSizeOf key.entityType + gasSizeOf key.entityId
  size key := size key.subgraphId + size key.entityType + size key.entityId
  constSize := none
  gasSizeOf_eq key := by
    simp only [gasSizeOf_eq, Gas.ofNat_add_ofNat]
  constGasSizeOf_eq := rfl
  size_of_const _ none := by simp at none

end GasSizeOf

/-- The digits of a decimal value: the integer `as_bigint_and_exponent` gives for the normalized
`BigDecimal` of the value.  A finite decimal times `10 ^ den` is whole, and normalizing drops its
trailing zero digits into the exponent. -/
def decimalDigits (value : ℚ) : Int :=
  let scaled := value.num * 10 ^ value.den / value.den
  scaled / 10 ^ trailingCount scaled.natAbs

namespace Value

mutual
/-- `impl GasSizeOf for Value`: four for the variant, and the gas of what it holds; a list is a
`Vec<Value>`. -/
def gasSizeOf : Value → Gas
  | bigDecimal value => Gas.ofNat 4 + GasSizeOf.gasSizeOf (decimalDigits value)
  | string text => Gas.ofNat 4 + GasSizeOf.gasSizeOf text
  | null => Gas.ofNat 4 + Gas.ofNat 1
  | list values =>
      Gas.ofNat 4 + (Gas.sum (gasSizeOfList values) + Gas.ofNat 16 + Gas.ofNat values.length)
  | int value => Gas.ofNat 4 + GasSizeOf.gasSizeOf value
  | bytes value => Gas.ofNat 4 + GasSizeOf.sliceGasSizeOf value
  | bool value => Gas.ofNat 4 + GasSizeOf.gasSizeOf value
  | bigInt value => Gas.ofNat 4 + GasSizeOf.gasSizeOf value

/-- The gas of each value of a list. -/
def gasSizeOfList : List Value → List Gas
  | [] => []
  | value :: values => gasSizeOf value :: gasSizeOfList values
end

mutual
/-- The size of a value over unbounded naturals. -/
def size : Value → Nat
  | bigDecimal value => 4 + GasSizeOf.size (decimalDigits value)
  | string text => 4 + GasSizeOf.size text
  | null => 4 + 1
  | list values => 4 + (sizeList values + 16 + values.length)
  | int value => 4 + GasSizeOf.size value
  | bytes value => 4 + GasSizeOf.sliceSize value
  | bool value => 4 + GasSizeOf.size value
  | bigInt value => 4 + GasSizeOf.size value

/-- The summed sizes of the values of a list. -/
def sizeList : List Value → Nat
  | [] => 0
  | value :: values => size value + sizeList values
end

theorem sizeList_eq_sum (values : List Value) : sizeList values = (values.map size).sum := by
  induction values with
  | nil => rfl
  | cons value values induction => rw [sizeList, induction, List.map_cons, List.sum_cons]

mutual
/-- The gas of a value is its size saturated, by induction on the value: lists nest. -/
theorem gasSizeOf_eq : ∀ value : Value, gasSizeOf value = Gas.ofNat (size value)
  | bigDecimal value | string value | int value | bool value | bigInt value => by
      rw [gasSizeOf, size, GasSizeOf.gasSizeOf_eq, Gas.ofNat_add_ofNat]
  | null => by rw [gasSizeOf, size, Gas.ofNat_add_ofNat]
  | list values => by
      rw [gasSizeOf, size, gasSizeOfList_eq values, Gas.sum_map_ofNat, ← sizeList_eq_sum,
        Gas.ofNat_add_ofNat, Gas.ofNat_add_ofNat, Gas.ofNat_add_ofNat]
  | bytes value => by
      rw [gasSizeOf, size, GasSizeOf.sliceGasSizeOf_eq, Gas.ofNat_add_ofNat]

theorem gasSizeOfList_eq : ∀ values : List Value,
    gasSizeOfList values = values.map fun value => Gas.ofNat (size value)
  | [] => rfl
  | value :: values => by
      rw [gasSizeOfList, gasSizeOf_eq value, gasSizeOfList_eq values, List.map_cons]
end

instance : GasSizeOf Value where
  constGasSizeOf := none
  gasSizeOf := gasSizeOf
  size := size
  constSize := none
  gasSizeOf_eq := gasSizeOf_eq
  constGasSizeOf_eq := rfl
  size_of_const _ none := by simp at none

end Value

/-- `GasOp`: a base cost and a cost per unit of the arguments' size. -/
structure GasOp where
  baseCost : UInt64
  sizeMult : UInt64

namespace GasOp

variable {α β : Type} [GasSizeOf α] [GasSizeOf β]

/-- `Gas(self.base_cost)`. -/
def baseGas (op : GasOp) : Gas :=
  Gas.ofNat op.baseCost.toNat

/-- `GasOp::with_args` over `Combine<(T0, T1), C>`: the base cost, and the sizes of the two
arguments combined, times `size_mult`. -/
def withArgs (op : GasOp) (combinator : GasCombinator) (args : α × β) : Gas :=
  op.baseGas + (combinator.combine (gasSizeOf args.1) (gasSizeOf args.2)).mul op.sizeMult

/-- `GasOp::with_args` over `Combine<(T0, u8), Exponential>`: the size of the argument to the
power of the exponent, `saturating_pow`. -/
def withArgsExponential (op : GasOp) (args : α × UInt8) : Gas :=
  op.baseGas + (Gas.ofNat ((gasSizeOf args.1).value ^ args.2.toNat)).mul op.sizeMult

theorem withArgs_eq (op : GasOp) (combinator : GasCombinator) (args : α × β) :
    op.withArgs combinator args = Gas.ofNat (op.baseCost.toNat +
      combinator.exact (GasSizeOf.size args.1) (GasSizeOf.size args.2) * op.sizeMult.toNat) := by
  simp only [withArgs, baseGas, GasSizeOf.gasSizeOf_eq, GasCombinator.combine_ofNat,
    Gas.ofNat_mul, Gas.ofNat_add_ofNat]

/-- A host call over two store values is charged its exact cost saturated once, however deep
their lists nest. -/
theorem withArgs_value (op : GasOp) (combinator : GasCombinator) (left right : Value) :
    (op.withArgs combinator (left, right)).value = min (op.baseCost.toNat +
      combinator.exact left.size right.size * op.sizeMult.toNat) u64Max := by
  rw [withArgs_eq]
  rfl

end GasOp

end GraphNode
