import GraphNode.Runtime.AscAbi
import GraphNode.Store.Scalar

/-!
# Writing a typed array and reading it back

What `asc_get` reads from the pointer `asc_new` returns for a `[T]` written as a
`TypedArray<T>`: the allocation of the buffer and of the array each leave an object that
later allocations do not move (`AscHeap.Stores`), reading the array gives back its three words,
and reading the buffer gives back the values' bytes.  The array's `byte_length` is the number
of values, so `to_vec` reads `byte_length / size_of::<T>()` of them: all of them for bytes,
and fewer for every wider type.

Decoding does not check what a mapping wrote, and three panics follow: a `Uint8Array` of any
length but 20 read as an address, a big integer below zero read as a `Uint` token, and a typed
array whose data starts past the end of its buffer.
-/

namespace GraphNode

variable {α : Type} [AscValue α]

/-! ## Values and buffers -/

/-- The values' bytes read back as the values. -/
theorem mapM_fromAscBytes (values : List α) :
    (values.map AscValue.toAscBytes).mapM AscValue.fromAscBytes = .ok values := by
  induction values with
  | nil => rfl
  | cons value values induction =>
      rw [List.map_cons, List.mapM_cons, AscValue.fromAscBytes_toAscBytes, except_ok_bind,
        induction]
      rfl

theorem length_flatMap_toAscBytes (values : List α) :
    (values.flatMap AscValue.toAscBytes).length = values.length * AscValue.size α := by
  induction values with
  | nil => simp
  | cons value values induction =>
      rw [List.flatMap_cons, List.length_append, AscValue.length_toAscBytes, induction,
        List.length_cons, Nat.succ_mul, Nat.add_comm]

/-- Each value has at least one byte, so the values are no more than their bytes. -/
theorem length_lt_of_flatMap_toAscBytes {values : List α} {bound : Nat}
    (fits : (values.flatMap AscValue.toAscBytes).length < bound) : values.length < bound := by
  rw [length_flatMap_toAscBytes] at fits
  exact Nat.lt_of_le_of_lt (Nat.le_mul_of_pos_right _ AscValue.size_pos) fits

namespace ArrayBuffer

theorem new_eq_ok {values : List α} {buffer : ArrayBuffer} (built : new values = .ok buffer) :
    buffer = ⟨(values.flatMap AscValue.toAscBytes).length, values.flatMap AscValue.toAscBytes⟩ ∧
      (values.flatMap AscValue.toAscBytes).length < 2 ^ 32 := by
  unfold new at built
  dsimp only at built
  split at built
  · cases built
  · cases built
    exact ⟨rfl, by omega⟩

/-- The bytes of a buffer, one value's worth at a time, are the values. -/
theorem get_of_content {buffer : ArrayBuffer} {values : List α}
    (content : buffer.content = values.flatMap AscValue.toAscBytes) (count : Nat) :
    buffer.get 0 count = pure (values.take count) := by
  have pieces : (buffer.content.drop 0).takeChunks (AscValue.size α) count =
      (values.take count).map AscValue.toAscBytes := by
    rw [List.drop_zero, content, List.flatMap_def,
      List.takeChunks_flatten AscValue.size_pos count _ (by simp [AscValue.length_toAscBytes]),
      List.map_take]
  rw [get, if_pos (Nat.zero_le _), pieces, mapM_fromAscBytes]
  rfl

end ArrayBuffer

/-- A buffer's object records its bytes and holds them first. -/
theorem readPtr_arrayBuffer {heap : AscHeap} {ptr : Nat} {content padding : List UInt8}
    (stores : heap.Stores ptr content.length (content ++ padding)) (fits : content.length < 2 ^ 32) :
    heap.readPtr ArrayBuffer ptr = pure ⟨content.length, content⟩ := by
  rw [stores.readPtr fits (by simp), List.take_left]
  show pure _ = pure _
  rw [Nat.mod_eq_of_lt fits]

/-! ## Typed arrays -/

theorem fieldData_append (front field back : List UInt8) :
    fieldData (front ++ field ++ back) front.length field.length = .ok field := by
  rw [fieldData, if_pos (by simp), List.append_assoc, List.drop_left, List.take_left]

theorem u32FromAscBytes_toBytes {n : Nat} (fits : n < 2 ^ 32) :
    u32FromAscBytes (LittleEndian.toBytes 4 n) = .ok (UInt32.ofNat n) := by
  rw [u32FromAscBytes, leFromAscBytes, if_pos (LittleEndian.length_toBytes _ _),
    @LittleEndian.ofBytes_toBytes_of_lt 4 n (by simpa using fits)]

omit [AscValue α] in
/-- Three words that fit read back as the typed array they lay out. -/
theorem fromAscBytes_typedArray {buffer dataStart byteLength : Nat}
    (bufferFits : buffer < 2 ^ 32) (startFits : dataStart < 2 ^ 32)
    (lengthFits : byteLength < 2 ^ 32) :
    AscType.fromAscBytes (LittleEndian.toBytes 4 buffer ++ LittleEndian.toBytes 4 dataStart ++
      LittleEndian.toBytes 4 byteLength) = (pure ⟨buffer, dataStart, byteLength⟩ :
        ExceptT String Option (TypedArray α)) := by
  have checked : derivedSizeCheck 12 (LittleEndian.toBytes 4 buffer ++
      LittleEndian.toBytes 4 dataStart ++ LittleEndian.toBytes 4 byteLength) = .ok () := by
    simp [derivedSizeCheck, paddingTo16, headerSize]
    rfl
  have first : fieldData (LittleEndian.toBytes 4 buffer ++ LittleEndian.toBytes 4 dataStart ++
      LittleEndian.toBytes 4 byteLength) 0 4 = .ok (LittleEndian.toBytes 4 buffer) := by
    simp [fieldData]
  have second : fieldData (LittleEndian.toBytes 4 buffer ++ LittleEndian.toBytes 4 dataStart ++
      LittleEndian.toBytes 4 byteLength) 4 4 = .ok (LittleEndian.toBytes 4 dataStart) := by
    simp [fieldData]
  have third : fieldData (LittleEndian.toBytes 4 buffer ++ LittleEndian.toBytes 4 dataStart ++
      LittleEndian.toBytes 4 byteLength) 8 4 = .ok (LittleEndian.toBytes 4 byteLength) := by
    have read := fieldData_append (LittleEndian.toBytes 4 buffer ++
      LittleEndian.toBytes 4 dataStart) (LittleEndian.toBytes 4 byteLength) []
    rwa [List.append_nil, List.length_append, LittleEndian.length_toBytes,
      LittleEndian.length_toBytes, LittleEndian.length_toBytes] at read
  have last : fieldData (LittleEndian.toBytes 4 buffer ++ LittleEndian.toBytes 4 dataStart ++
      LittleEndian.toBytes 4 byteLength) 12 0 = .ok [] := by
    simp [fieldData]
  simp only [AscType.fromAscBytes, checked, first, second, third, last, except_ok_bind,
    u32FromAscBytes_toBytes bufferFits, u32FromAscBytes_toBytes startFits,
    u32FromAscBytes_toBytes lengthFits, UInt32.toNat_ofNat', Nat.mod_eq_of_lt bufferFits,
    Nat.mod_eq_of_lt startFits, Nat.mod_eq_of_lt lengthFits]
  rfl

namespace TypedArray

/-- `TypedArray::new` allocates the values' bytes as a buffer, and makes an array over all of
it whose `byte_length` is the number of values. -/
theorem new_stores {values : List α} {heap heap' : AscHeap} {array : TypedArray α}
    (created : new values heap = pure (heap', array)) :
    ∃ padding, heap.memory <+: heap'.memory ∧ array = ⟨array.buffer, array.buffer, values.length⟩ ∧
      array.buffer < 2 ^ 32 ∧
      heap'.Stores array.buffer (values.flatMap AscValue.toAscBytes).length
        (values.flatMap AscValue.toAscBytes ++ padding) ∧
      (values.flatMap AscValue.toAscBytes).length < 2 ^ 32 := by
  unfold new at created
  obtain ⟨buffer, built, created⟩ := bind_eq_pure created
  obtain ⟨rfl, contentFits⟩ := ArrayBuffer.new_eq_ok (hostResult_eq_pure built)
  obtain ⟨⟨allocatedHeap, ptr⟩, allocated, created⟩ := bind_eq_pure created
  obtain ⟨rfl, rfl⟩ := Prod.mk.inj (pure_inj created)
  obtain ⟨bytes, converted, grown, ptrFits, stored⟩ := AscHeap.allocObj_stores allocated
  cases converted
  rw [List.append_assoc] at stored
  exact ⟨_, grown, by rw [Nat.mod_eq_of_lt (length_lt_of_flatMap_toAscBytes contentFits)],
    ptrFits, stored, contentFits⟩

/-- An array over a whole buffer reads its first `byte_length / size_of::<T>()` values. -/
theorem toVec_of_stores {heap : AscHeap} {values : List α} {padding : List UInt8} {ptr : Nat}
    (stores : heap.Stores ptr (values.flatMap AscValue.toAscBytes).length
      (values.flatMap AscValue.toAscBytes ++ padding))
    (fits : (values.flatMap AscValue.toAscBytes).length < 2 ^ 32) (byteLength : Nat) :
    (⟨ptr, ptr, byteLength⟩ : TypedArray α).toVec heap =
      pure (values.take (byteLength / AscValue.size α)) := by
  have notNull : ptr ≠ 0 := by have := stores.four_le; omega
  simp only [toVec, checkIsNotNull, if_neg notNull, pure_bind, Nat.lt_irrefl,
    if_false, readPtr_arrayBuffer stores fits, Nat.sub_self]
  exact ArrayBuffer.get_of_content rfl _

/-- An array whose data starts past the end of its buffer panics when read: `to_vec` slices
the buffer's content from there. -/
theorem toVec_past_end {heap : AscHeap} {content padding : List UInt8} {ptr : Nat}
    (stores : heap.Stores ptr content.length (content ++ padding)) (fits : content.length < 2 ^ 32)
    {offset : Nat} (past : content.length < offset) (byteLength : Nat) :
    (⟨ptr, ptr + offset, byteLength⟩ : TypedArray α).toVec heap = ExceptT.lift none := by
  have notNull : ptr ≠ 0 := by have := stores.four_le; omega
  have notBelow : ¬ ptr + offset < ptr := by omega
  simp only [toVec, checkIsNotNull, if_neg notNull, pure_bind, if_neg notBelow,
    readPtr_arrayBuffer stores fits, Nat.add_sub_cancel_left, ArrayBuffer.get,
    if_neg (Nat.not_le.mpr past)]
  rfl

end TypedArray

/-- An array allocated with words that fit reads back as itself. -/
theorem readPtr_allocObj_typedArray {heap heap' : AscHeap} {array : TypedArray α} {ptr : Nat}
    (allocated : heap.allocObj array = pure (heap', ptr)) (bufferFits : array.buffer < 2 ^ 32)
    (startFits : array.dataStart < 2 ^ 32) (lengthFits : array.byteLength < 2 ^ 32) :
    heap.memory <+: heap'.memory ∧ heap'.readPtr (TypedArray α) ptr = pure array := by
  obtain ⟨bytes, converted, grown, -, stored⟩ := AscHeap.allocObj_stores allocated
  cases converted
  have twelve : (LittleEndian.toBytes 4 array.buffer ++ LittleEndian.toBytes 4 array.dataStart ++
      LittleEndian.toBytes 4 array.byteLength ++ List.replicate (paddingTo16 12) 0) =
      LittleEndian.toBytes 4 array.buffer ++ LittleEndian.toBytes 4 array.dataStart ++
        LittleEndian.toBytes 4 array.byteLength := by
    simp [paddingTo16, headerSize]
  have recorded : AscType.contentLen array (LittleEndian.toBytes 4 array.buffer ++
      LittleEndian.toBytes 4 array.dataStart ++ LittleEndian.toBytes 4 array.byteLength) = 12 := by
    show List.length _ = 12
    simp
  simp only [List.length_append, LittleEndian.length_toBytes, Nat.reduceAdd, twelve] at stored
  rw [recorded] at stored
  refine ⟨grown, ?_⟩
  rw [stored.readPtr (by decide) (by simp), List.take_of_length_le (by simp),
    fromAscBytes_typedArray bufferFits startFits lengthFits]

/-- What `asc_get` reads from the typed array `asc_new` wrote: its first
`byte_length / size_of::<T>()` values, where `byte_length` is the number of values. -/
theorem ascGetVec_ascNewTypedArray {heap heap' : AscHeap} {values : List α} {ptr : Nat}
    (created : ascNewTypedArray heap values = pure (heap', ptr)) :
    ascGetVec heap' ptr = pure (values.take (values.length / AscValue.size α)) := by
  unfold ascNewTypedArray at created
  obtain ⟨⟨middle, array⟩, made, allocated⟩ := bind_eq_pure created
  obtain ⟨padding, -, shape, bufferFits, buffered, contentFits⟩ := TypedArray.new_stores made
  have lengthFits : values.length < 2 ^ 32 := length_lt_of_flatMap_toAscBytes contentFits
  rw [shape] at allocated
  obtain ⟨grown, readArray⟩ := readPtr_allocObj_typedArray allocated bufferFits bufferFits lengthFits
  rw [ascGetVec, readArray, pure_bind]
  exact TypedArray.toVec_of_stores (buffered.mono grown) contentFits _

/-! ## The round trip of the encoding -/

/-- The value a host call returned, or `default` if it failed. -/
def resultOr {β : Type} (call : ExceptT String Option β) (default : β) : β :=
  match call.run with
  | some (.ok value) => value
  | _ => default

/-- A memory of 16 zero bytes, where every class id is 0. -/
def zeroHeap : AscHeap :=
  ⟨List.replicate 16 0, fun _ => 0, by decide⟩

/-- Bytes written as a `Uint8Array` are read back as they were. -/
theorem ascGetVec_ascNewTypedArray_bytes {heap heap' : AscHeap} {bytes : List UInt8} {ptr : Nat}
    (created : ascNewTypedArray heap bytes = pure (heap', ptr)) :
    ascGetVec heap' ptr = pure bytes := by
  rw [ascGetVec_ascNewTypedArray created]
  show pure (bytes.take (bytes.length / 1)) = pure bytes
  rw [Nat.div_one, List.take_length]

/-- The bytes 1, 2, 3 written at the end of `zeroHeap`. -/
def sampleBytes : AscHeap × Nat :=
  resultOr (ascNewTypedArray zeroHeap [(1 : UInt8), 2, 3]) (zeroHeap, 0)

theorem ascGetVec_ascNewTypedArray_bytes_sample :
    (ascGetVec sampleBytes.1 sampleBytes.2 : ExceptT String Option (List UInt8)) =
      pure [1, 2, 3] :=
  @ascGetVec_ascNewTypedArray_bytes zeroHeap _ _ _ rfl

/-- Every element type wider than a byte loses values: what `asc_get` reads from a nonempty
typed array that `asc_new` wrote is shorter than what was written. -/
theorem ascGetVec_ascNewTypedArray_loses_values {heap heap' : AscHeap} {values : List α}
    {ptr : Nat} (wide : 2 ≤ AscValue.size α) (nonempty : values ≠ [])
    (created : ascNewTypedArray heap values = pure (heap', ptr)) :
    ascGetVec heap' ptr ≠ pure values := by
  rw [ascGetVec_ascNewTypedArray created]
  intro same
  have lengths := congrArg List.length (pure_inj same)
  have fewer : values.length / AscValue.size α < values.length :=
    Nat.div_lt_self (List.length_pos_of_ne_nil nonempty) wide
  rw [List.length_take] at lengths
  omega

/-- The `u32` 7 written as a `Uint32Array` at the end of `zeroHeap`. -/
def sampleSeven : AscHeap × Nat :=
  resultOr (ascNewTypedArray zeroHeap [(7 : UInt32)]) (zeroHeap, 0)

theorem ascGetVec_ascNewTypedArray_loses_seven :
    (ascGetVec sampleSeven.1 sampleSeven.2 : ExceptT String Option (List UInt32)) = pure [] ∧
      (ascGetVec sampleSeven.1 sampleSeven.2 : ExceptT String Option (List UInt32)) ≠ pure [7] :=
  ⟨rfl, @ascGetVec_ascNewTypedArray_loses_values UInt32 _ zeroHeap _ _ _ (by decide)
    (List.cons_ne_nil _ _) rfl⟩

/-! ## Decoding what a mapping wrote -/

theorem ascGetBigInt_of_ascGetVec {heap : AscHeap} {ptr : Nat} {bytes : List UInt8}
    (read : (ascGetVec heap ptr : ExceptT String Option (List UInt8)) = pure bytes) :
    ascGetBigInt heap ptr = pure (LittleEndian.ofSignedBytes bytes) := by
  rw [ascGetBigInt, read, pure_bind]

/-- `copy_from_slice` panics on a vector of another length. -/
theorem ascGetArray_of_length_ne {heap : AscHeap} {ptr size : Nat} {values : List α}
    (read : ascGetVec heap ptr = pure values) (other : values.length ≠ size) :
    @ascGetArray α _ size heap ptr = ExceptT.lift none := by
  rw [ascGetArray, read, pure_bind, dif_neg other]

/-- `to_unsigned_u256` asserts that the number is not negative. -/
theorem tokenFromAscObj_uint_of_neg {heap : AscHeap} {payload : Nat} {n : Int}
    (read : ascGetBigInt heap (payload % 2 ^ 32) = pure n) (negative : n < 0) :
    tokenFromAscObj .uint payload heap = ExceptT.lift none := by
  simp only [tokenFromAscObj, read, pure_bind, BigInt.toUnsignedU256, if_pos negative]

/-- `to_signed_u256` asserts that the number has at most 32 two's complement bytes. -/
theorem tokenFromAscObj_int_of_wide {heap : AscHeap} {payload : Nat} {n : Int}
    (read : ascGetBigInt heap (payload % 2 ^ 32) = pure n) (wide : ¬(-2 ^ 255 ≤ n ∧ n < 2 ^ 255)) :
    tokenFromAscObj .int payload heap = ExceptT.lift none := by
  simp only [tokenFromAscObj, read, pure_bind, BigInt.toSignedU256, if_neg wide]

/-- The value-level `U256` conversions the tokens use are those `scalar.rs` computes through
bytes. -/
theorem u256_conversions_agree (n : Int) :
    (Scalar.BigInt.toSignedU256 n).map Scalar.U256.value = BigInt.toSignedU256 n ∧
      (Scalar.BigInt.toUnsignedU256 n).map Scalar.U256.value = BigInt.toUnsignedU256 n := by
  rcases Int.lt_or_le n 0 with negative | nonnegative
  · obtain ⟨m, rfl⟩ := Int.exists_eq_neg_ofNat negative.le
    refine ⟨?_, ?_⟩
    · rw [Scalar.BigInt.toSignedU256_neg (by omega), BigInt.toSignedU256]
      by_cases fits : m ≤ 2 ^ 255
      · rw [dif_pos fits, if_pos (by omega), Option.map_some]
        exact congrArg some (show 2 ^ 256 - m = ((-(m : Int)) % 2 ^ 256).toNat by omega)
      · rw [dif_neg fits, if_neg (by omega), Option.map_none]
    · rw [Scalar.BigInt.toUnsignedU256_of_neg negative, BigInt.toUnsignedU256, if_pos negative,
        Option.map_none]
  · obtain ⟨m, rfl⟩ := Int.eq_ofNat_of_zero_le nonnegative
    refine ⟨?_, ?_⟩
    · rw [Scalar.BigInt.toSignedU256_natCast, BigInt.toSignedU256]
      by_cases fits : m < 2 ^ 255
      · rw [dif_pos fits, if_pos (by omega), Option.map_some]
        exact congrArg some (show m = ((m : Int) % 2 ^ 256).toNat by omega)
      · rw [dif_neg fits, if_neg (by omega), Option.map_none]
    · rw [Scalar.BigInt.toUnsignedU256_natCast, BigInt.toUnsignedU256, if_neg (by omega),
        Int.toNat_natCast]
      by_cases fits : m < 2 ^ 256
      · rw [dif_pos fits, if_pos fits, Option.map_some]
      · rw [dif_neg fits, if_neg fits, Option.map_none]

/-- The pointer `asc_new` returns is a `u32`. -/
theorem ascNewTypedArray_ptr_lt {heap heap' : AscHeap} {values : List α} {ptr : Nat}
    (created : ascNewTypedArray heap values = pure (heap', ptr)) : ptr < 2 ^ 32 := by
  unfold ascNewTypedArray at created
  obtain ⟨⟨middle, array⟩, -, allocated⟩ := bind_eq_pure created
  obtain ⟨_, _, _, fits, _⟩ := AscHeap.allocObj_stores allocated
  exact fits

/-- Decoding what a mapping wrote panics on an address of the wrong length, a `Uint` or `Int`
token out of range, and an array whose data lies past its buffer. -/
theorem decoding_mapping_memory_panics :
    (∀ (heap heap' : AscHeap) (bytes : List UInt8) (ptr : Nat),
      ascNewTypedArray heap bytes = pure (heap', ptr) →
        (bytes.length ≠ 20 → @ascGetArray UInt8 _ 20 heap' ptr = ExceptT.lift none) ∧
        (LittleEndian.ofSignedBytes bytes < 0 →
          tokenFromAscObj .uint ptr heap' = ExceptT.lift none) ∧
        (¬(-2 ^ 255 ≤ LittleEndian.ofSignedBytes bytes ∧
            LittleEndian.ofSignedBytes bytes < 2 ^ 255) →
          tokenFromAscObj .int ptr heap' = ExceptT.lift none)) ∧
    (∀ (heap middle heap' : AscHeap) (bytes : List UInt8) (array : TypedArray UInt8)
        (offset ptr : Nat),
      TypedArray.new bytes heap = pure (middle, array) → bytes.length < offset →
      array.buffer + offset < 2 ^ 32 →
      middle.allocObj (⟨array.buffer, array.buffer + offset, array.byteLength⟩ :
        TypedArray UInt8) = pure (heap', ptr) →
      (ascGetVec heap' ptr : ExceptT String Option (List UInt8)) = ExceptT.lift none) := by
  refine ⟨fun heap heap' bytes ptr created => ?_,
    fun heap middle heap' bytes array offset ptr made past fits allocated => ?_⟩
  · -- the bytes come back whole, and every reading of them is checked only after the fact
    have read := ascGetVec_ascNewTypedArray created
    rw [show AscValue.size UInt8 = 1 from rfl, Nat.div_one, List.take_length] at read
    have bigInt := ascGetBigInt_of_ascGetVec read
    rw [← Nat.mod_eq_of_lt (ascNewTypedArray_ptr_lt created)] at bigInt
    exact ⟨ascGetArray_of_length_ne read, tokenFromAscObj_uint_of_neg bigInt,
      tokenFromAscObj_int_of_wide bigInt⟩
  · obtain ⟨padding, -, shape, bufferFits, buffered, contentFits⟩ := TypedArray.new_stores made
    have bytesLength : (bytes.flatMap AscValue.toAscBytes).length = bytes.length := by
      rw [length_flatMap_toAscBytes]
      exact Nat.mul_one _
    have lengthFits : array.byteLength < 2 ^ 32 := by
      rw [shape]
      show bytes.length < 2 ^ 32
      omega
    obtain ⟨grown, readArray⟩ := readPtr_allocObj_typedArray allocated bufferFits fits lengthFits
    rw [ascGetVec, readArray, pure_bind]
    exact TypedArray.toVec_past_end (buffered.mono grown) contentFits (by omega) _

/-- The byte 255, the two's complement of -1, written as a `Uint8Array` at the end of
`zeroHeap`. -/
def sampleMinusOne : AscHeap × Nat :=
  resultOr (ascNewTypedArray zeroHeap [(255 : UInt8)]) (zeroHeap, 0)

/-- A typed array over the bytes 1, 2, 3 in `zeroHeap`. -/
def sampleArray : AscHeap × TypedArray UInt8 :=
  resultOr (TypedArray.new [(1 : UInt8), 2, 3] zeroHeap) (zeroHeap, ⟨0, 0, 0⟩)

/-- The same array with its data start moved 8 bytes on, past the end of its buffer. -/
def samplePastEnd : AscHeap × Nat :=
  resultOr (sampleArray.1.allocObj (⟨sampleArray.2.buffer, sampleArray.2.buffer + 8,
    sampleArray.2.byteLength⟩ : TypedArray UInt8)) (zeroHeap, 0)

theorem decoding_mapping_memory_panics_samples :
    @ascGetArray UInt8 _ 20 sampleMinusOne.1 sampleMinusOne.2 = ExceptT.lift none ∧
      tokenFromAscObj .uint sampleMinusOne.2 sampleMinusOne.1 = ExceptT.lift none ∧
      (ascGetVec samplePastEnd.1 samplePastEnd.2 : ExceptT String Option (List UInt8)) =
        ExceptT.lift none :=
  have minusOne := decoding_mapping_memory_panics.1 zeroHeap sampleMinusOne.1 [255]
    sampleMinusOne.2 rfl
  ⟨minusOne.1 (by decide), minusOne.2.1 (by decide),
    decoding_mapping_memory_panics.2 zeroHeap sampleArray.1 samplePastEnd.1 [1, 2, 3]
      sampleArray.2 8 samplePastEnd.2 rfl (by decide) (by decide) rfl⟩

end GraphNode
