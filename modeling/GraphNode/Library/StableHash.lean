import Mathlib.Algebra.BigOperators.Group.List.Basic

/-!
# Stable hashing into a set hasher

The `stable-hash` crate hashes a value by writing its leaves, each at a sequence number: the
path of child indices that leads from the root to the leaf, through the fields and items of the
values around it.  A set hasher adds up the hashes of its writes in a commutative monoid, so the
order of the writes does not matter; its digest is finished into bytes, and it is serialized
and read back.  The hash of a value at a sequence number is what it adds to the digest.

The crate's impls are taken with the laws they satisfy (`Impls`).  An integer writes nothing
when it is zero, and a non-negative one writes at its own number whatever children were taken
from it.  A slice writes each item at the next child and then its length at its own number.  A
map hashes each entry from the root of a new hasher, the key at child 0 and the value at
child 1 as a pair is, writes the finished digest at child 1 of the map and the number of
entries at child 2.  Strings, byte strings and options are taken as they are.
-/

namespace StableHash

/-- A sequence number: the path of child indices from the root, and how many children of it
were taken. -/
structure SeqNo where
  path : List Nat
  child : Nat
  deriving DecidableEq, Repr

namespace SeqNo

/-- `SequenceNumber::root`. -/
def root : SeqNo := ⟨[], 0⟩

/-- `next_child`: the next child, and the number with that child taken. -/
def nextChild (s : SeqNo) : SeqNo × SeqNo :=
  (⟨s.path ++ [s.child], 0⟩, ⟨s.path, s.child + 1⟩)

/-- `skip`: `count` children taken without use. -/
def skip (s : SeqNo) (count : Nat) : SeqNo :=
  ⟨s.path, s.child + count⟩

@[simp]
theorem nextChild_fst (s : SeqNo) : s.nextChild.1 = ⟨s.path ++ [s.child], 0⟩ :=
  rfl

@[simp]
theorem nextChild_snd (s : SeqNo) : s.nextChild.2 = ⟨s.path, s.child + 1⟩ :=
  rfl

@[simp]
theorem skip_path (s : SeqNo) (count : Nat) : (s.skip count).path = s.path :=
  rfl

end SeqNo

/-- A set hasher with digests in `H`: a write adds the hash of its sequence number's path and its
bytes; a digest is finished into bytes, and serialized and read back. -/
structure SetHasher (H : Type) [AddCommMonoid H] where
  leaf : List Nat → List UInt8 → H
  finish : H → List UInt8
  toBytes : H → List UInt8
  fromBytes : List UInt8 → H
  fromBytes_toBytes : ∀ digest, fromBytes (toBytes digest) = digest

variable {H : Type} [AddCommMonoid H]

/-- `StableHasher::write`. -/
def SetHasher.write (hasher : SetHasher H) (digest : H) (s : SeqNo) (bytes : List UInt8) : H :=
  digest + hasher.leaf s.path bytes

/-- `finish_unordered`: the digest of another hasher is added in. -/
def SetHasher.finishUnordered (digest other : H) : H :=
  digest + other

/-- The crate's impls of `StableHash` that are used here, for a set hasher, with their laws. -/
structure Impls (H : Type) [AddCommMonoid H] extends SetHasher H where
  int : Int → SeqNo → H
  int_zero : ∀ s, int 0 s = 0
  int_of_nonneg : ∀ n s, 0 ≤ n → int n s = int n ⟨s.path, 0⟩
  str : String → SeqNo → H
  bytes : List UInt8 → SeqNo → H
  option : {β : Type} → (β → SeqNo → H) → Option β → SeqNo → H
  vec : {β : Type} → (β → SeqNo → H) → List β → SeqNo → H
  vec_eq : ∀ {β : Type} (item : β → SeqNo → H) (items : List β) (s : SeqNo),
    vec item items s =
      (items.mapIdx fun index value => item value ⟨s.path ++ [s.child + index], 0⟩).sum +
        int items.length (s.skip items.length)
  map : {κ ν : Type} → (κ → SeqNo → H) → (ν → SeqNo → H) → List (κ × ν) → SeqNo → H
  map_eq : ∀ {κ ν : Type} (key : κ → SeqNo → H) (value : ν → SeqNo → H)
    (entries : List (κ × ν)) (s : SeqNo),
    map key value entries s =
      (entries.map fun entry =>
        leaf (s.path ++ [1]) (finish (key entry.1 ⟨[0], 0⟩ + value entry.2 ⟨[1], 0⟩))).sum +
        int entries.length ⟨s.path ++ [2], 0⟩

namespace Impls

variable (impls : Impls H)

/-- `utils::stable_hash`: a value hashed at the root of a new hasher, finished. -/
def stableHash {β : Type} (hash : β → SeqNo → H) (value : β) : List UInt8 :=
  impls.finish (0 + hash value SeqNo.root)

/-- A length, a count or a block number is written at its number only. -/
theorem int_natCast (count : Nat) (s : SeqNo) : impls.int count s = impls.int count ⟨s.path, 0⟩ :=
  impls.int_of_nonneg count s (Int.natCast_nonneg count)

/-- A slice hashed at a fresh number: each item at its child, and the length. -/
theorem vec_fresh {β : Type} (item : β → SeqNo → H) (items : List β) (path : List Nat) :
    impls.vec item items ⟨path, 0⟩ =
      (items.mapIdx fun index value => item value ⟨path ++ [index], 0⟩).sum +
        impls.int items.length ⟨path, 0⟩ := by
  rw [impls.vec_eq, impls.int_natCast]
  simp [SeqNo.skip]

/-- An empty slice adds nothing: no item, and a length of zero. -/
@[simp]
theorem vec_nil {β : Type} (item : β → SeqNo → H) (s : SeqNo) : impls.vec item [] s = 0 := by
  rw [impls.vec_eq]
  simp [impls.int_zero]

end Impls

end StableHash
