import GraphNode.Runtime.AscHeap

/-!
# The AssemblyScript classes of apiVersion 0.0.5

The layouts of `runtime/wasm/src/asc_abi/v0_0_5.rs` that the host reads and writes, and the
conversions of `to_from` between them and Rust values.  An `ArrayBuffer` is its bytes; a
`TypedArray<T>` is three `u32` words, the buffer, where its data starts and its
`byte_length`.  `TypedArray::new` fills `byte_length` with the number of elements, where
`to_vec` reads `byte_length / size_of::<T>()` elements.

Decoding is where a mapping's bytes reach the host: slicing an `ArrayBuffer` past its end,
`copy_from_slice` into a fixed-size array of another length, and the asserts of the `U256`
conversions panic.  Of `ethabi::Token` the kinds read from a typed array or a big integer are
modelled; strings and arrays of tokens are not.
-/

namespace GraphNode

/-- `AscValue`: an Asc primitive, laid out as `size` bytes and read back from exactly those.
The layout is the same in Rust and in Asc, which is what the fields after `typedArrayId`
state. -/
class AscValue (α : Type) where
  size : Nat
  toAscBytes : α → List UInt8
  fromAscBytes : List UInt8 → Except String α
  /-- The class of a `TypedArray` of the type. -/
  typedArrayId : IndexForAscTypeId
  size_pos : 0 < size
  length_toAscBytes : ∀ value, (toAscBytes value).length = size
  fromAscBytes_toAscBytes : ∀ value, fromAscBytes (toAscBytes value) = .ok value

/-! ## Primitives -/

/-- `from_asc_bytes` of the integers of `impl_asc_type!`: exactly `size_of::<T>()`
little-endian bytes. -/
def leFromAscBytes {α : Type} (name : String) (width : Nat) (ofNat : Nat → α)
    (ascObj : List UInt8) : Except String α :=
  if ascObj.length = width then .ok (ofNat (LittleEndian.ofBytes ascObj))
  else .error ("Incorrect size for " ++ name ++ ". Expected " ++ toString width ++ ", got " ++
    toString ascObj.length ++ ",")

def u8FromAscBytes : List UInt8 → Except String UInt8 := leFromAscBytes "u8" 1 UInt8.ofNat

def u16FromAscBytes : List UInt8 → Except String UInt16 := leFromAscBytes "u16" 2 UInt16.ofNat

def u32FromAscBytes : List UInt8 → Except String UInt32 := leFromAscBytes "u32" 4 UInt32.ofNat

def u64FromAscBytes : List UInt8 → Except String UInt64 := leFromAscBytes "u64" 8 UInt64.ofNat

/-- The bytes of an integer that fits read back as it. -/
theorem leFromAscBytes_toBytes {α : Type} (name : String) {width : Nat} {ofNat : Nat → α}
    {toNat : α → Nat} (ofNat_toNat : ∀ value, ofNat (toNat value) = value)
    (fits : ∀ value, toNat value < 256 ^ width) (value : α) :
    leFromAscBytes name width ofNat (LittleEndian.toBytes width (toNat value)) = .ok value := by
  rw [leFromAscBytes, if_pos (LittleEndian.length_toBytes _ _),
    LittleEndian.ofBytes_toBytes_of_lt (fits value), ofNat_toNat]

instance : AscValue UInt8 where
  size := 1
  toAscBytes value := LittleEndian.toBytes 1 value.toNat
  fromAscBytes := u8FromAscBytes
  typedArrayId := .uint8Array
  size_pos := Nat.one_pos
  length_toAscBytes _ := LittleEndian.length_toBytes _ _
  fromAscBytes_toAscBytes := leFromAscBytes_toBytes "u8" (fun _ => UInt8.ofNat_toNat)
    fun value => by simpa using value.toNat_lt

instance : AscValue UInt16 where
  size := 2
  toAscBytes value := LittleEndian.toBytes 2 value.toNat
  fromAscBytes := u16FromAscBytes
  typedArrayId := .uint16Array
  size_pos := Nat.two_pos
  length_toAscBytes _ := LittleEndian.length_toBytes _ _
  fromAscBytes_toAscBytes := leFromAscBytes_toBytes "u16" (fun _ => UInt16.ofNat_toNat)
    fun value => by simpa using value.toNat_lt

instance : AscValue UInt32 where
  size := 4
  toAscBytes value := LittleEndian.toBytes 4 value.toNat
  fromAscBytes := u32FromAscBytes
  typedArrayId := .uint32Array
  size_pos := by decide
  length_toAscBytes _ := LittleEndian.length_toBytes _ _
  fromAscBytes_toAscBytes := leFromAscBytes_toBytes "u32" (fun _ => UInt32.ofNat_toNat)
    fun value => by simpa using value.toNat_lt

instance : AscValue UInt64 where
  size := 8
  toAscBytes value := LittleEndian.toBytes 8 value.toNat
  fromAscBytes := u64FromAscBytes
  typedArrayId := .uint64Array
  size_pos := by decide
  length_toAscBytes _ := LittleEndian.length_toBytes _ _
  fromAscBytes_toAscBytes := leFromAscBytes_toBytes "u64" (fun _ => UInt64.ofNat_toNat)
    fun value => by simpa using value.toNat_lt

/-! ## `ArrayBuffer` -/

/-- `v0_0_5::ArrayBuffer`: its bytes; `byte_length` is not part of the layout. -/
structure ArrayBuffer where
  byteLength : Nat
  content : List UInt8

namespace ArrayBuffer

/-- `ArrayBuffer::new`: the values' bytes one after the other. -/
def new {α : Type} [AscValue α] (values : List α) : Except String ArrayBuffer :=
  let content := values.flatMap AscValue.toAscBytes
  if content.length > 2 ^ 32 - 1 then .error "slice cannot fit in WASM memory"
  else .ok ⟨content.length, content⟩

/-- `ArrayBuffer::get`: `length` values from `byte_offset` on; `self.content[byte_offset..]`
panics past the end of the content. -/
def get {α : Type} [AscValue α] (buffer : ArrayBuffer) (byteOffset length : Nat) :
    ExceptT String Option (List α) :=
  if byteOffset ≤ buffer.content.length then
    hostResult (((buffer.content.drop byteOffset).takeChunks (AscValue.size α) length).mapM
      AscValue.fromAscBytes)
  else ExceptT.lift none

end ArrayBuffer

/-- The layout of an `ArrayBuffer`: its bytes, then zeros up to a power of two of header and
bytes; the header records the bytes alone. -/
instance : AscType ArrayBuffer where
  toAscBytes buffer :=
    let totalSize := buffer.byteLength + headerSize
    .ok (buffer.content ++ List.replicate (nextPowerOfTwo totalSize - totalSize) 0)
  fromAscBytes ascObj := pure ⟨ascObj.length % 2 ^ 32, ascObj⟩
  contentLen buffer _ := buffer.byteLength

instance : AscIndexId ArrayBuffer := ⟨.arrayBuffer⟩

/-! ## `TypedArray` -/

/-- `v0_0_5::TypedArray<T>`: the buffer, where the data starts in it, and `byte_length`. -/
structure TypedArray (α : Type) where
  buffer : Nat
  dataStart : Nat
  byteLength : Nat

/-- A field of a struct that derives `AscType`: `asc_obj.get(offset..offset + size)`. -/
def fieldData (ascObj : List UInt8) (offset size : Nat) : Except String (List UInt8) :=
  if offset + size ≤ ascObj.length then .ok ((ascObj.drop offset).take size)
  else .error "Attempted to read past end of array"

/-- The size check of a struct that derives `AscType`, from apiVersion 0.0.5 on. -/
def derivedSizeCheck (contentSize : Nat) (ascObj : List UInt8) : Except String Unit :=
  if headerSize + ascObj.length = paddingTo16 contentSize + contentSize then
    .error "Size does not match"
  else pure ()

/-- The derived layout of `TypedArray<T>`: three `u32` fields and a `PhantomData`. -/
instance {α : Type} : AscType (TypedArray α) where
  toAscBytes array := .ok (LittleEndian.toBytes 4 array.buffer ++
    LittleEndian.toBytes 4 array.dataStart ++ LittleEndian.toBytes 4 array.byteLength)
  fromAscBytes ascObj := hostResult do
    derivedSizeCheck 12 ascObj
    let buffer ← fieldData ascObj 0 4 >>= u32FromAscBytes
    let dataStart ← fieldData ascObj 4 4 >>= u32FromAscBytes
    let byteLength ← fieldData ascObj 8 4 >>= u32FromAscBytes
    let _ ← fieldData ascObj 12 0
    pure ⟨buffer.toNat, dataStart.toNat, byteLength.toNat⟩

instance {α : Type} [AscValue α] : AscIndexId (TypedArray α) := ⟨AscValue.typedArrayId α⟩

namespace TypedArray

variable {α : Type} [AscValue α]

/-- `TypedArray::new`: the buffer is allocated, and `byte_length` is `content.len() as u32`,
the number of elements. -/
def new (content : List α) (heap : AscHeap) :
    ExceptT String Option (AscHeap × TypedArray α) := do
  let buffer ← hostResult (ArrayBuffer.new content)
  let byteLength := content.length % 2 ^ 32
  let (heap, ptr) ← heap.allocObj buffer
  pure (heap, ⟨ptr, ptr, byteLength⟩)

/-- `TypedArray::to_vec`: `byte_length / size_of::<T>()` elements of the buffer, from where
the data starts. -/
def toVec (array : TypedArray α) (heap : AscHeap) : ExceptT String Option (List α) := do
  hostResult (checkIsNotNull array.buffer)
  if array.dataStart < array.buffer then
    throw ("Subtract overflow on pointer: " ++ toString array.dataStart)
  let buffer ← heap.readPtr ArrayBuffer array.buffer
  buffer.get (array.dataStart - array.buffer) (array.byteLength / AscValue.size α)

end TypedArray

/-! ## Conversions -/

section

variable {α : Type} [AscValue α]

/-- `asc_new` of a `[T]` as a `TypedArray<T>`. -/
def ascNewTypedArray (heap : AscHeap) (values : List α) :
    ExceptT String Option (AscHeap × Nat) := do
  let (heap, array) ← TypedArray.new values heap
  heap.allocObj array

/-- `asc_get` of a `Vec<T>` from a `TypedArray<T>`. -/
def ascGetVec (heap : AscHeap) (ptr : Nat) : ExceptT String Option (List α) := do
  let array ← heap.readPtr (TypedArray α) ptr
  array.toVec heap

/-- `asc_get` of a `[T; N]` from a `TypedArray<T>`: `copy_from_slice` panics unless the
vector has `N` elements. -/
def ascGetArray (size : Nat) (heap : AscHeap) (ptr : Nat) :
    ExceptT String Option { values : List α // values.length = size } := do
  let values ← ascGetVec heap ptr
  if same : values.length = size then pure ⟨values, same⟩ else ExceptT.lift none

end

/-- `asc_get` of a `BigInt` from its `Uint8Array`: `from_signed_bytes_le`. -/
def ascGetBigInt (heap : AscHeap) (ptr : Nat) : ExceptT String Option Int := do
  let bytes : List UInt8 ← ascGetVec heap ptr
  pure (LittleEndian.ofSignedBytes bytes)

namespace BigInt

/-- `BigInt::to_unsigned_u256`: the sign is asserted not negative, and
`U256::from_little_endian` asserts that the magnitude has at most 32 bytes. -/
def toUnsignedU256 (n : Int) : Option Nat :=
  if n < 0 then none
  else if n.toNat < 2 ^ 256 then some n.toNat
  else none

/-- `BigInt::to_signed_u256`: the two's complement bytes are asserted to be at most 32, which
holds from `-2^255` to `2^255 - 1`; the value is the number modulo `2^256`. -/
def toSignedU256 (n : Int) : Option Nat :=
  if -2 ^ 255 ≤ n ∧ n < 2 ^ 255 then some (n % 2 ^ 256).toNat else none

end BigInt

/-- `EthereumValueKind`. -/
inductive EthereumValueKind where
  | address
  | fixedBytes
  | bytes
  | int
  | uint
  | bool
  | string
  | fixedArray
  | array
  | tuple
  deriving DecidableEq, Repr

/-- The `ethabi::Token`s read from a typed array, a big integer or the payload itself. -/
inductive Token where
  | address (bytes : { bytes : List UInt8 // bytes.length = 20 })
  | fixedBytes (bytes : List UInt8)
  | bytes (bytes : List UInt8)
  | int (value : Nat)
  | uint (value : Nat)
  | bool (value : Bool)

/-- `FromAscObj<AscEnum<EthereumValueKind>>` for `ethabi::Token`, by kind, with the
payload's pointer `payload as u32`; strings and arrays of tokens are not modelled. -/
def tokenFromAscObj (kind : EthereumValueKind) (payload : Nat) (heap : AscHeap) :
    ExceptT String Option (Option Token) :=
  let ptr := payload % 2 ^ 32
  match kind with
  | .bool => pure (some (.bool (payload != 0)))
  | .address => do
      let bytes ← ascGetArray 20 heap ptr
      pure (some (.address bytes))
  | .fixedBytes => do
      let bytes ← ascGetVec heap ptr
      pure (some (.fixedBytes bytes))
  | .bytes => do
      let bytes ← ascGetVec heap ptr
      pure (some (.bytes bytes))
  | .int => do
      let n ← ascGetBigInt heap ptr
      let some value := BigInt.toSignedU256 n | ExceptT.lift none
      pure (some (.int value))
  | .uint => do
      let n ← ascGetBigInt heap ptr
      let some value := BigInt.toUnsignedU256 n | ExceptT.lift none
      pure (some (.uint value))
  | .string | .fixedArray | .array | .tuple => pure none

end GraphNode
