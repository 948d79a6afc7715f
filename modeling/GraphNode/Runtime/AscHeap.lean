import GraphNode.Library.Bytes

/-!
# The AssemblyScript heap

How the host writes objects into a mapping's memory and reads them back
(`graph/src/runtime/asc_ptr.rs`, `asc_heap.rs`), for mappings of `apiVersion` 0.0.5 and
later.  Every object is laid out behind a 20-byte header whose last four bytes, `rt_size`, give
the length of its content; a pointer to an object points past the header, at the content.
Objects are padded so that header and content end on 16 bytes.

The heap is a byte array, as the `AscHeap` trait presents the mapping's memory: `raw_new`
appends the bytes and returns their address, and `get` reads bytes back or fails when they are
out of bounds.  A mapping's memory
holds at most 2^32 bytes; an allocation beyond that panics, as the allocator's `unwrap` does.
A result is `none` for a panic and an error for a `DeterministicHostError`.
-/

namespace GraphNode

/-- `IndexForAscTypeId`: the classes the modelled host code allocates. -/
inductive IndexForAscTypeId where
  | string
  | arrayBuffer
  | int8Array
  | int16Array
  | int32Array
  | int64Array
  | uint8Array
  | uint16Array
  | uint32Array
  | uint64Array
  deriving DecidableEq, Repr

/-- `HEADER_SIZE`. -/
def headerSize : Nat := 20

/-- `padding_to_16`: the zeros that make header and content end on 16 bytes. -/
def paddingTo16 (contentLength : Nat) : Nat :=
  (16 - (headerSize + contentLength) % 16) % 16

/-- A mapping's memory, and the class ids `asc_type_id` returns for it. -/
structure AscHeap where
  memory : List UInt8
  typeId : IndexForAscTypeId → Nat
  bounded : memory.length ≤ 2 ^ 32

/-- A `Result` of the host, in the monad where `none` is a panic. -/
def hostResult {α : Type} (result : Except String α) : ExceptT String Option α :=
  ExceptT.mk (some result)

/-- `AscPtr::check_is_not_null`. -/
def checkIsNotNull (ptr : Nat) : Except String Unit :=
  if ptr = 0 then
    .error ("Tried to read AssemblyScript value that is \x27null\x27. Suggestion: look into " ++
      "the function that the error happened and add \x27log\x27 calls till you find where a " ++
      "\x27null\x27 value is being used as non-nullable. It\x27s likely that you\x27re " ++
      "calling a \x27graph-ts\x27 function (or operator) with a \x27null\x27 value when it " ++
      "doesn\x27t support it.")
  else pure ()

namespace AscHeap

/-- `raw_new`: the bytes are appended, at the address the memory ended at. -/
def rawNew (heap : AscHeap) (bytes : List UInt8) : Option (AscHeap × Nat) :=
  if fits : heap.memory.length + bytes.length ≤ 2 ^ 32 then
    some (⟨heap.memory ++ bytes, heap.typeId, by simpa using fits⟩, heap.memory.length)
  else none

/-- `get`: the `size` bytes at `offset`. -/
def get (heap : AscHeap) (offset size : Nat) : Except String (List UInt8) :=
  if offset + size ≤ heap.memory.length then .ok ((heap.memory.drop offset).take size)
  else .error ("Heap access out of bounds. Offset: " ++ toString offset ++ " Size: " ++
    toString size)

/-- `AscPtr::read_len`: the `rt_size` of the header before the content. -/
def readLen (heap : AscHeap) (ptr : Nat) : Except String Nat := do
  checkIsNotNull ptr
  if ptr < 4 then throw ("Subtract overflow on pointer: " ++ toString ptr)
  let rawBytes ← heap.get (ptr - 4) 4
  pure (LittleEndian.ofBytes rawBytes)

/-- `AscPtr::generate_header`: `mm_info`, two words of GC information, the class id and
`rt_size`. -/
def generateHeader (heap : AscHeap) (typeIdIndex : IndexForAscTypeId)
    (contentLength fullLength : Nat) : List UInt8 :=
  LittleEndian.toBytes 4 (4 + 4 + 4 + 4 + fullLength) ++ LittleEndian.toBytes 4 0 ++
    LittleEndian.toBytes 4 0 ++ LittleEndian.toBytes 4 (heap.typeId typeIdIndex) ++
    LittleEndian.toBytes 4 contentLength

end AscHeap

/-- `AscType` of an Asc class: its layout, how it is read back, and the length its header
records, all of it by default. -/
class AscType (C : Type) where
  toAscBytes : C → Except String (List UInt8)
  fromAscBytes : List UInt8 → ExceptT String Option C
  contentLen : C → List UInt8 → Nat := fun _ bytes => bytes.length

/-- `AscIndexId`: the class id an object is allocated with. -/
class AscIndexId (C : Type) where
  indexAscTypeId : IndexForAscTypeId

namespace AscHeap

variable {C : Type} [AscType C]

/-- `AscPtr::alloc_obj`: the content padded to 16 bytes, behind its header; the pointer points
at the content. -/
def allocObj [AscIndexId C] (heap : AscHeap) (ascObj : C) :
    ExceptT String Option (AscHeap × Nat) := do
  let bytes ← hostResult (AscType.toAscBytes ascObj)
  let bytes := bytes ++ List.replicate (paddingTo16 bytes.length) 0
  let header := heap.generateHeader (AscIndexId.indexAscTypeId C)
    (AscType.contentLen ascObj bytes) bytes.length
  let some (heap, heapPtr) := heap.rawNew (header ++ bytes) | ExceptT.lift none
  -- `heap_ptr + header_len` is a `u32` sum
  if heapPtr + header.length < 2 ^ 32 then pure (heap, heapPtr + header.length)
  else ExceptT.lift none

/-- `AscPtr::read_ptr`: as many bytes as the header records, read as an object of class `C`. -/
def readPtr (C : Type) [AscType C] (heap : AscHeap) (ptr : Nat) : ExceptT String Option C := do
  let len ← hostResult (heap.readLen ptr)
  let bytes ← hostResult (heap.get ptr len)
  AscType.fromAscBytes bytes

end AscHeap

@[simp]
theorem hostResult_ok {α : Type} (a : α) : hostResult (.ok a) = pure a := rfl

@[simp]
theorem hostResult_error_bind {α β : Type} (message : String)
    (f : α → ExceptT String Option β) :
    (hostResult (.error message) >>= f) = hostResult (.error message) := rfl

@[simp]
theorem lift_none_bind {α β : Type} (f : α → ExceptT String Option β) :
    (ExceptT.lift none >>= f) = ExceptT.lift none := rfl

theorem hostResult_error_ne_pure {α : Type} (message : String) (a : α) :
    hostResult (.error message) ≠ pure a := by
  intro same
  simp only [hostResult, pure, ExceptT.pure, ExceptT.mk] at same
  cases same

theorem lift_none_ne_pure {α : Type} (a : α) :
    (ExceptT.lift none : ExceptT String Option α) ≠ pure a := by
  intro same
  simp only [ExceptT.lift, pure, ExceptT.pure, ExceptT.mk] at same
  cases same

theorem hostResult_eq_pure {α : Type} {result : Except String α} {a : α}
    (same : hostResult result = pure a) : result = .ok a := by
  simp only [hostResult, pure, ExceptT.pure, ExceptT.mk] at same
  cases same
  rfl

theorem pure_inj {α : Type} {a b : α} (same : (pure a : ExceptT String Option α) = pure b) :
    a = b := by
  simp only [pure, ExceptT.pure, ExceptT.mk] at same
  cases same
  rfl

/-- A bind that succeeds is a first step that succeeds and a rest that succeeds from it. -/
theorem bind_eq_pure {α β : Type} {x : ExceptT String Option α}
    {f : α → ExceptT String Option β} {b : β} (bound : (x >>= f) = pure b) :
    ∃ a, x = pure a ∧ f a = pure b := by
  have ran : (x >>= f).run = some (.ok b) := by rw [bound]; rfl
  rw [ExceptT.run_bind] at ran
  cases stepped : x.run with
  | none =>
      rw [stepped] at ran
      cases ran
  | some result =>
      rw [stepped] at ran
      cases result with
      | error message => cases ran
      | ok a => exact ⟨a, stepped, ran⟩

/-- A result that succeeded passes its value on, as `?` does. -/
@[simp]
theorem except_ok_bind {α β ε : Type} (a : α) (f : α → Except ε β) :
    (Except.ok a >>= f) = f a := rfl

/-! ## Objects in the heap -/

namespace AscHeap

/-- `ptr` points at `content`, behind a header whose `rt_size` is `recorded`. -/
def Stores (heap : AscHeap) (ptr recorded : Nat) (content : List UInt8) : Prop :=
  ∃ front back, heap.memory = front ++ LittleEndian.toBytes 4 recorded ++ content ++ back ∧
    front.length + 4 = ptr

/-- Bytes written stay where they are: the memory only grows at its end. -/
theorem Stores.mono {heap heap' : AscHeap} (grown : heap.memory <+: heap'.memory)
    {ptr recorded : Nat} {content : List UInt8} (stores : heap.Stores ptr recorded content) :
    heap'.Stores ptr recorded content := by
  obtain ⟨front, back, memory, located⟩ := stores
  obtain ⟨more, grown⟩ := grown
  exact ⟨front, back ++ more, by rw [← grown, memory]; simp, located⟩

/-- `get` of bytes inside a block of the memory reads them. -/
theorem get_of_eq_append {heap : AscHeap} {front block back : List UInt8}
    (memory : heap.memory = front ++ block ++ back) {offset size : Nat}
    (inside : offset + size ≤ block.length) :
    heap.get (front.length + offset) size = .ok ((block.drop offset).take size) := by
  have total : heap.memory.length = front.length + block.length + back.length := by
    rw [memory, List.length_append, List.length_append]
  have dropped : heap.memory.drop (front.length + offset) = block.drop offset ++ back := by
    rw [memory, List.append_assoc, ← List.drop_drop, List.drop_left,
      List.drop_append_of_le_length (by omega)]
  have taken : (block.drop offset ++ back).take size = (block.drop offset).take size :=
    List.take_append_of_le_length (by rw [List.length_drop]; omega)
  rw [get, if_pos (by omega), dropped, taken]

theorem Stores.four_le {heap : AscHeap} {ptr recorded : Nat} {content : List UInt8}
    (stores : heap.Stores ptr recorded content) : 4 ≤ ptr := by
  obtain ⟨front, _, _, located⟩ := stores
  omega

theorem Stores.readLen {heap : AscHeap} {ptr recorded : Nat} {content : List UInt8}
    (stores : heap.Stores ptr recorded content) :
    heap.readLen ptr = .ok (recorded % 2 ^ 32) := by
  obtain ⟨front, back, memory, rfl⟩ := stores
  have header : heap.get front.length 4 = .ok (LittleEndian.toBytes 4 recorded) := by
    simpa [List.take_of_length_le] using @get_of_eq_append heap front
      (LittleEndian.toBytes 4 recorded) (content ++ back) (by rw [memory, List.append_assoc]) 0 4
      (by simp)
  have notNull : front.length + 4 ≠ 0 := by omega
  have notBelow : ¬ front.length + 4 < 4 := by omega
  simp only [AscHeap.readLen, checkIsNotNull, if_neg notNull, if_neg notBelow, pure_bind,
    Nat.add_sub_cancel, header, except_ok_bind, LittleEndian.ofBytes_toBytes]
  rfl

theorem Stores.get {heap : AscHeap} {ptr recorded : Nat} {content : List UInt8}
    (stores : heap.Stores ptr recorded content) {size : Nat} (inside : size ≤ content.length) :
    heap.get ptr size = .ok (content.take size) := by
  obtain ⟨front, back, memory, rfl⟩ := stores
  simpa using @get_of_eq_append heap (front ++ LittleEndian.toBytes 4 recorded) content back
    memory 0 size (by simpa using inside)

theorem rawNew_eq_some {heap heap' : AscHeap} {bytes : List UInt8} {ptr : Nat}
    (allocated : heap.rawNew bytes = some (heap', ptr)) :
    heap'.memory = heap.memory ++ bytes ∧ ptr = heap.memory.length := by
  unfold rawNew at allocated
  split at allocated
  · cases allocated
    exact ⟨rfl, rfl⟩
  · cases allocated

@[simp]
theorem length_generateHeader (heap : AscHeap) (typeIdIndex : IndexForAscTypeId)
    (contentLength fullLength : Nat) :
    (heap.generateHeader typeIdIndex contentLength fullLength).length = 20 := by
  simp [generateHeader]

/-- An allocation appends a header and the padded content behind what the memory held, and
points at the content. -/
theorem allocObj_stores {C : Type} [AscType C] [AscIndexId C] {heap heap' : AscHeap}
    {ascObj : C} {ptr : Nat} (allocated : heap.allocObj ascObj = pure (heap', ptr)) :
    ∃ bytes, AscType.toAscBytes ascObj = .ok bytes ∧ heap.memory <+: heap'.memory ∧
      ptr < 2 ^ 32 ∧
      heap'.Stores ptr
        (AscType.contentLen ascObj (bytes ++ List.replicate (paddingTo16 bytes.length) 0))
        (bytes ++ List.replicate (paddingTo16 bytes.length) 0) := by
  unfold allocObj at allocated
  cases converted : AscType.toAscBytes ascObj with
  | error message =>
      rw [converted, hostResult_error_bind] at allocated
      exact absurd allocated (hostResult_error_ne_pure _ _)
  | ok bytes =>
      rw [converted, hostResult_ok, pure_bind] at allocated
      dsimp only at allocated
      split at allocated
      next final heapPtr appended =>
        split at allocated
        next below =>
          obtain ⟨same, rfl⟩ := Prod.mk.inj (pure_inj allocated)
          subst same
          obtain ⟨memory, rfl⟩ := rawNew_eq_some appended
          refine ⟨bytes, rfl, ⟨_, memory.symm⟩, by simpa using below, ?_⟩
          refine ⟨heap.memory ++ (LittleEndian.toBytes 4
            (4 + 4 + 4 + 4 + (bytes ++ List.replicate (paddingTo16 bytes.length) 0).length) ++
            LittleEndian.toBytes 4 0 ++ LittleEndian.toBytes 4 0 ++
            LittleEndian.toBytes 4 (heap.typeId (AscIndexId.indexAscTypeId C))), [], ?_, ?_⟩
          · rw [memory]
            simp [generateHeader]
          · simp
        next => exact absurd allocated (lift_none_ne_pure _)
      next => exact absurd allocated (lift_none_ne_pure _)

/-- Reading an object reads the content its header records. -/
theorem Stores.readPtr {C : Type} [AscType C] {heap : AscHeap} {ptr recorded : Nat}
    {content : List UInt8} (stores : heap.Stores ptr recorded content) (fits : recorded < 2 ^ 32)
    (inside : recorded ≤ content.length) :
    heap.readPtr C ptr = AscType.fromAscBytes (content.take recorded) := by
  rw [AscHeap.readPtr, stores.readLen, Nat.mod_eq_of_lt fits, hostResult_ok, pure_bind,
    stores.get inside, hostResult_ok, pure_bind]

end AscHeap

end GraphNode
