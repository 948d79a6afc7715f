import GraphNode.Library.StableHash
import GraphNode.Library.IndexMap
import GraphNode.Library.MachineNumbers

/-!
# The proof of indexing

`graph/src/components/subgraph/proof_of_indexing`.  The proof of indexing of a block is the
stable hash of a `PoI` (`reference.rs`): for each causality region the events of every block,
then the subgraph id, the block hash and the indexer.  Indexing computes it online
(`online.rs`): the events of a block in a region are written to a `BlockEventStream` at the
sequence numbers the reference gives them, found by `traverse_seq_no`, the stream is paused onto
the digest stored for the region, and `ProofOfIndexingFinisher` adds each stored digest with the
number of blocks and the region's name, the other fields and the number of regions.

The hasher is the crate's `SetHasher` and the hash of an event is that of `event.rs`; both are
parameters, with the laws of `StableHash.Impls`.  A panic (an `unwrap`, an overflow with
overflow checks) is `none`.
-/

namespace GraphNode

open StableHash

variable {H E : Type} [AddCommMonoid H]

/-! ## The reference -/

namespace Reference

/-- `Block`: the events of a block in one causality region. -/
structure Block (E : Type) where
  events : List E

/-- `CausalityRegion`: its blocks, from the genesis block on. -/
structure CausalityRegion (E : Type) where
  blocks : List (Block E)

/-- `PoI`. -/
structure PoI (E : Type) where
  causalityRegions : IndexMap String (CausalityRegion E)
  subgraphId : String
  blockHash : List UInt8
  indexer : Option (List UInt8)

variable (impls : Impls H) (event : E → SeqNo → H)

/-- `StableHash for Block`: the events at the first child. -/
def Block.stableHash (block : Block E) (s : SeqNo) : H :=
  impls.vec event block.events s.nextChild.1

/-- `StableHash for CausalityRegion`: the blocks at the first child. -/
def CausalityRegion.stableHash (region : CausalityRegion E) (s : SeqNo) : H :=
  impls.vec (Block.stableHash impls event) region.blocks s.nextChild.1

end Reference

/-- `StableHash for DeploymentHash` (`data/subgraph/mod.rs`): the string at the first child. -/
def deploymentHashStableHash (impls : Impls H) (subgraphId : String) (s : SeqNo) : H :=
  impls.str subgraphId s.nextChild.1

namespace Reference

variable (impls : Impls H) (event : E → SeqNo → H)

/-- `StableHash for PoI`: the causality regions, the subgraph id, the block hash and the indexer,
each at the next child. -/
def PoI.stableHash (poi : PoI E) (s : SeqNo) : H :=
  let (regionsNo, s) := s.nextChild
  let (subgraphIdNo, s) := s.nextChild
  let (blockHashNo, s) := s.nextChild
  let (indexerNo, _) := s.nextChild
  impls.map impls.str (CausalityRegion.stableHash impls event) poi.causalityRegions.entries
      regionsNo +
    deploymentHashStableHash impls poi.subgraphId subgraphIdNo +
    impls.bytes poi.blockHash blockHashNo +
    impls.option impls.bytes poi.indexer indexerNo

end Reference

/-! ## The online proof of indexing -/

/-- `traverse_seq_no`: from the root, skip to each index in turn and take that child. -/
def traverseSeqNo (counts : List Nat) : SeqNo :=
  counts.foldl (fun s index => (s.skip index).nextChild.1) SeqNo.root

theorem foldl_traverse (counts path : List Nat) :
    counts.foldl (fun s index => (s.skip index).nextChild.1) (⟨path, 0⟩ : SeqNo) =
      ⟨path ++ counts, 0⟩ := by
  induction counts generalizing path with
  | nil => simp
  | cons index counts induction =>
      rw [List.foldl_cons, show ((⟨path, 0⟩ : SeqNo).skip index).nextChild.1 = ⟨path ++ [index], 0⟩
        by simp [SeqNo.skip], induction]
      simp

/-- `traverse_seq_no` takes the children of the path it is given, from the root. -/
@[simp]
theorem traverseSeqNo_eq (counts : List Nat) : traverseSeqNo counts = ⟨counts, 0⟩ :=
  foldl_traverse counts []

/-- `BlockEventStream`: the events of one block in one region, hashed as they come. -/
structure BlockEventStream (H : Type) where
  vecLength : Nat
  handlerStart : Nat
  seqNo : SeqNo
  digest : H

namespace BlockEventStream

/-- `BlockEventStream::new`: the events of the block go where the reference puts them, under
the value of an entry of the regions, its blocks, the block and its events.  A negative block
number fails the `unwrap`. -/
def new (blockNumber : Int) : Option (BlockEventStream H) :=
  if 0 ≤ blockNumber then some ⟨0, 0, traverseSeqNo [1, 0, blockNumber.toNat, 0], 0⟩ else none

/-- `pause`: the number of events is written, the digest stored before is added in, and the
digest is serialized. -/
def pause (impls : Impls H) (stream : BlockEventStream H) (prev : Option (List UInt8)) :
    List UInt8 :=
  let state := stream.digest + impls.int stream.vecLength stream.seqNo
  impls.toBytes (match prev with
    | some prev => SetHasher.finishUnordered state (impls.fromBytes prev)
    | none => state)

/-- `write`: one more event, at the next child. -/
def write (event : E → SeqNo → H) (stream : BlockEventStream H) (e : E) : BlockEventStream H :=
  let (child, seqNo) := stream.seqNo.nextChild
  { stream with vecLength := stream.vecLength + 1, seqNo, digest := stream.digest + event e child }

/-- `start_handler`. -/
def startHandler (stream : BlockEventStream H) : BlockEventStream H :=
  { stream with handlerStart := stream.vecLength }

/-- Events written one after the other: each at the next child, and counted. -/
theorem foldl_write (event : E → SeqNo → H) (stream : BlockEventStream H) (events : List E) :
    events.foldl (write event) stream =
      { stream with
        vecLength := stream.vecLength + events.length
        seqNo := ⟨stream.seqNo.path, stream.seqNo.child + events.length⟩
        digest := stream.digest + (events.mapIdx fun index e =>
          event e ⟨stream.seqNo.path ++ [stream.seqNo.child + index], 0⟩).sum } := by
  induction events generalizing stream with
  | nil => simp
  | cons e events induction =>
      rw [List.foldl_cons, induction]
      simp only [write, SeqNo.nextChild, List.length_cons, List.mapIdx_cons, List.sum_cons,
        add_assoc, Nat.add_comm 1, Nat.add_zero]

/-- A stream of block `blockNumber` paused after its events: what is stored reads back as the
reference hash of the block, added to what was stored before. -/
theorem fromBytes_pause (impls : Impls H) (event : E → SeqNo → H) (blockNumber : Nat)
    (events : List E) (prev : Option (List UInt8)) :
    impls.fromBytes ((events.foldl (write event)
        ⟨0, 0, traverseSeqNo [1, 0, blockNumber, 0], 0⟩).pause impls prev) =
      Reference.Block.stableHash impls event ⟨events⟩ ⟨[1, 0, blockNumber], 0⟩ +
        (prev.map impls.fromBytes).getD 0 := by
  have block : Reference.Block.stableHash impls event ⟨events⟩ ⟨[1, 0, blockNumber], 0⟩ =
      (events.mapIdx fun index e => event e ⟨[1, 0, blockNumber, 0] ++ [index], 0⟩).sum +
        impls.int events.length ⟨[1, 0, blockNumber, 0], 0⟩ := by
    rw [Reference.Block.stableHash, SeqNo.nextChild_fst, ← impls.vec_fresh]
    rfl
  rw [foldl_write, block]
  cases prev with
  | none => simp [pause, impls.fromBytes_toBytes, impls.int_natCast]
  | some prev =>
      simp [pause, SetHasher.finishUnordered, impls.fromBytes_toBytes, impls.int_natCast]

end BlockEventStream

/-- `ProofOfIndexing`: the streams of one block, by causality region. -/
structure ProofOfIndexing (H : Type) where
  blockNumber : Int
  perCausalityRegion : IndexMap String (BlockEventStream H)

namespace ProofOfIndexing

/-- `ProofOfIndexing::new`. -/
def new (blockNumber : Int) : ProofOfIndexing H :=
  ⟨blockNumber, IndexMap.empty⟩

/-- `with_causality_region`, for an edit of the stream: the region's stream is edited in place,
or a new stream for the block is edited and inserted. -/
def withCausalityRegion (poi : ProofOfIndexing H) (region : String)
    (f : BlockEventStream H → BlockEventStream H) : Option (ProofOfIndexing H) :=
  match poi.perCausalityRegion.get? region with
  | some _ => some { poi with perCausalityRegion := poi.perCausalityRegion.modify region f }
  | none => (BlockEventStream.new poi.blockNumber).map fun entry =>
      { poi with perCausalityRegion := poi.perCausalityRegion.insert region (f entry) }

/-- `ProofOfIndexing::write`: an event of a region. -/
def write (event : E → SeqNo → H) (poi : ProofOfIndexing H) (region : String) (e : E) :
    Option (ProofOfIndexing H) :=
  poi.withCausalityRegion region fun stream => stream.write event e

/-- `ProofOfIndexing::start_handler`. -/
def startHandler (poi : ProofOfIndexing H) (region : String) : Option (ProofOfIndexing H) :=
  poi.withCausalityRegion region BlockEventStream.startHandler

/-- `with_causality_region`, for a read of the stream: the region's stream is read, or a new
stream for the block is read and inserted. -/
def readCausalityRegion {T : Type} (poi : ProofOfIndexing H) (region : String)
    (f : BlockEventStream H → Option T) : Option (ProofOfIndexing H × T) :=
  match poi.perCausalityRegion.get? region with
  | some stream => (f stream).map fun result => (poi, result)
  | none => (BlockEventStream.new poi.blockNumber).bind fun entry =>
      (f entry).map fun result =>
        ({ poi with perCausalityRegion := poi.perCausalityRegion.insert region entry }, result)

/-- `write_deterministic_error`: a `DeterministicError` event that redacts the events the region
took since its handler started, `vec_length - handler_start`. -/
def writeDeterministicError (event : E → SeqNo → H) (deterministicError : Nat → E)
    (poi : ProofOfIndexing H) (region : String) : Option (ProofOfIndexing H) :=
  (poi.readCausalityRegion region fun entry => Nat.psub' entry.vecLength entry.handlerStart).bind
    fun (poi, redactedEvents) => poi.write event region (deterministicError redactedEvents)

/-- `take`. -/
def take (poi : ProofOfIndexing H) : IndexMap String (BlockEventStream H) :=
  poi.perCausalityRegion

variable (event : E → SeqNo → H) {poi : ProofOfIndexing H} {start : BlockEventStream H}

/-- An edit goes to the region's stream, or to a new stream for the block. -/
theorem withCausalityRegion_get? (fresh : BlockEventStream.new poi.blockNumber = some start)
    (region : String) (f : BlockEventStream H → BlockEventStream H) :
    ∃ edited, poi.withCausalityRegion region f = some edited ∧
      edited.blockNumber = poi.blockNumber ∧ ∀ key, edited.perCausalityRegion.get? key =
        if region = key then some (f ((poi.perCausalityRegion.get? region).getD start))
        else poi.perCausalityRegion.get? key := by
  unfold withCausalityRegion
  cases found : poi.perCausalityRegion.get? region with
  | some stream =>
      refine ⟨{ poi with perCausalityRegion := poi.perCausalityRegion.modify region f }, rfl, rfl,
        fun key => ?_⟩
      rw [IndexMap.get?_modify]
      by_cases same : region = key
      · subst same
        simp [found]
      · simp [same]
  | none =>
      refine ⟨{ poi with perCausalityRegion := poi.perCausalityRegion.insert region (f start) },
        by rw [fresh]; rfl, rfl, fun key => ?_⟩
      rw [IndexMap.get?_insert]
      rfl

/-- A read sees the region's stream, or a new stream for the block, which is then inserted. -/
theorem readCausalityRegion_get? {T : Type} (fresh : BlockEventStream.new poi.blockNumber = some start)
    (region : String) (f : BlockEventStream H → Option T) :
    ∃ touched : ProofOfIndexing H, poi.readCausalityRegion region f =
        (f ((poi.perCausalityRegion.get? region).getD start)).map (fun result => (touched, result)) ∧
      touched.blockNumber = poi.blockNumber ∧ ∀ key, touched.perCausalityRegion.get? key =
        if region = key then some ((poi.perCausalityRegion.get? region).getD start)
        else poi.perCausalityRegion.get? key := by
  unfold readCausalityRegion
  cases found : poi.perCausalityRegion.get? region with
  | some stream =>
      refine ⟨poi, rfl, rfl, fun key => ?_⟩
      by_cases same : region = key
      · subst same
        simp [found]
      · simp [same]
  | none =>
      refine ⟨{ poi with perCausalityRegion := poi.perCausalityRegion.insert region start },
        by rw [fresh]; rfl, rfl, fun key => ?_⟩
      rw [IndexMap.get?_insert]
      rfl

/-- An event goes to the region's stream, or to a new stream for the block. -/
theorem write_get? (fresh : BlockEventStream.new poi.blockNumber = some start) (region : String)
    (e : E) :
    ∃ written, poi.write event region e = some written ∧
      written.blockNumber = poi.blockNumber ∧ ∀ key, written.perCausalityRegion.get? key =
        if region = key then some (((poi.perCausalityRegion.get? region).getD start).write event e)
        else poi.perCausalityRegion.get? key :=
  withCausalityRegion_get? fresh region fun stream => stream.write event e

/-- The events of one region written in turn: the region's stream, or a new one when it had
none and there is an event, takes them all. -/
theorem foldlM_write (fresh : BlockEventStream.new poi.blockNumber = some start) (region : String)
    (events : List E) :
    ∃ written, events.foldlM (fun poi e => poi.write event region e) poi = some written ∧
      written.blockNumber = poi.blockNumber ∧ ∀ key, written.perCausalityRegion.get? key =
        if region = key ∧ events ≠ [] then
          some (events.foldl (BlockEventStream.write event)
            ((poi.perCausalityRegion.get? region).getD start))
        else poi.perCausalityRegion.get? key := by
  induction events generalizing poi with
  | nil => exact ⟨poi, rfl, rfl, fun key => by simp⟩
  | cons e events induction =>
      obtain ⟨first, wrote, sameBlock, found⟩ := write_get? event fresh region e
      obtain ⟨written, rest, sameBlock', foundRest⟩ := induction (sameBlock ▸ fresh)
      refine ⟨written, by rw [List.foldlM_cons, wrote]; exact rest, sameBlock'.trans sameBlock,
        fun key => ?_⟩
      simp only [foundRest, found, if_true]
      by_cases same : region = key
      · subst same
        cases events <;> simp
      · simp [same]

end ProofOfIndexing

/-- `ProofOfIndexingFinisher`. -/
structure ProofOfIndexingFinisher (H : Type) where
  blockNumber : Int
  state : H
  causalityCount : Nat

namespace ProofOfIndexingFinisher

variable (impls : Impls H)

/-- `ProofOfIndexingFinisher::new`: the subgraph id, the block hash and the indexer, at the
children of the root the reference gives them. -/
def new (blockHash : List UInt8) (blockNumber : Int) (subgraphId : String)
    (indexer : Option (List UInt8)) : ProofOfIndexingFinisher H :=
  let state := 0 + deploymentHashStableHash impls subgraphId (traverseSeqNo [1])
  let state := state + impls.bytes blockHash (traverseSeqNo [2])
  let state := state + impls.option impls.bytes indexer (traverseSeqNo [3])
  ⟨blockNumber, state, 0⟩

/-- `add_causality_region`: the region's stored digest with the number of blocks (the `i32`
`block_number + 1`) and the name, finished, is written as a member of the regions. -/
def addCausalityRegion (overflowChecks : Bool) (finisher : ProofOfIndexingFinisher H)
    (name : String) (region : List UInt8) : Option (ProofOfIndexingFinisher H) :=
  (I32.ofExact overflowChecks (finisher.blockNumber + 1)).map fun blocks =>
    let state := impls.fromBytes region + impls.int blocks (traverseSeqNo [1, 0])
    let state := state + impls.str name (traverseSeqNo [0])
    { finisher with
      state := impls.write finisher.state (traverseSeqNo [0, 1]) (impls.finish state)
      causalityCount := finisher.causalityCount + 1 }

/-- `finish`: the number of regions, and the digest finished. -/
def finish (finisher : ProofOfIndexingFinisher H) : List UInt8 :=
  impls.finish (finisher.state + impls.int finisher.causalityCount (traverseSeqNo [0, 2]))

variable {impls} {overflowChecks : Bool} {finisher : ProofOfIndexingFinisher H}

/-- The digest a region's stored digest is finished into, as a member of the regions. -/
theorem addCausalityRegion_eq (fits : I32.Fits (finisher.blockNumber + 1)) (name : String)
    (region : List UInt8) :
    finisher.addCausalityRegion impls overflowChecks name region = some
      { finisher with
        state := finisher.state + impls.leaf [0, 1] (impls.finish (impls.fromBytes region +
          impls.int (finisher.blockNumber + 1) ⟨[1, 0], 0⟩ + impls.str name ⟨[0], 0⟩))
        causalityCount := finisher.causalityCount + 1 } := by
  simp [addCausalityRegion, I32.ofExact_of_fits overflowChecks fits, SetHasher.write]

/-- The regions' stored digests added in turn: one member each, counted. -/
theorem foldlM_addCausalityRegion {blockNumber : Int} (fits : I32.Fits (blockNumber + 1))
    (entries : List (String × List UInt8)) (state : H) (count : Nat) :
    entries.foldlM (fun (finisher : ProofOfIndexingFinisher H) entry =>
        finisher.addCausalityRegion impls overflowChecks entry.1 entry.2)
        ⟨blockNumber, state, count⟩ =
      some ⟨blockNumber, state + (entries.map fun entry => impls.leaf [0, 1]
          (impls.finish (impls.fromBytes entry.2 + impls.int (blockNumber + 1) ⟨[1, 0], 0⟩ +
            impls.str entry.1 ⟨[0], 0⟩))).sum,
        count + entries.length⟩ := by
  induction entries generalizing state count with
  | nil => simp
  | cons entry entries induction =>
      rw [List.foldlM_cons, addCausalityRegion_eq fits, Option.bind_eq_bind, Option.bind_some]
      rw [induction]
      simp only [List.map_cons, List.sum_cons, List.length_cons, add_assoc, Nat.add_comm 1]

end ProofOfIndexingFinisher

/-! ## Online against the reference: `check_equal` -/

section CheckEqual

variable (overflowChecks : Bool) (impls : Impls H) (event : E → SeqNo → H)
  (reference : Reference.PoI E)

/-- One block of `check_equal`: the events of the block in each region are written to a proof of
indexing for the block, and each stream it took is paused onto the digest stored for its region.
A region without the block fails the index. -/
def checkEqualBlock (db : IndexMap String (List UInt8)) (blockI : Nat) :
    Option (IndexMap String (List UInt8)) :=
  (I32.ofExact true blockI).bind fun blockNumber =>
    (reference.causalityRegions.entries.foldlM (fun stream entry =>
        entry.2.blocks[blockI]?.bind fun block =>
          block.events.foldlM (fun stream e => stream.write event entry.1 e) stream)
      (ProofOfIndexing.new blockNumber)).map fun stream =>
      stream.take.entries.foldl
        (fun db entry => db.insert entry.1 (entry.2.pause impls (db.get? entry.1))) db

/-- The number of blocks `check_equal` runs: as many as the first region has, and one when there
is no region. -/
def checkEqualBlockCount : Nat :=
  match reference.causalityRegions.entries with
  | [] => 1
  | entry :: _ => entry.2.blocks.length

/-- The online side of `check_equal`: the blocks one after the other, then the finisher for the
last of them over the stored digests. -/
def checkEqualOnline : Option (List UInt8) :=
  let blockCount := checkEqualBlockCount reference
  ((List.range blockCount).foldlM (checkEqualBlock impls event reference) IndexMap.empty).bind
    fun db => (Nat.psub' blockCount 1).bind fun last => (I32.ofExact true last).bind
      fun blockNumber =>
        (db.entries.foldlM
            (fun (finisher : ProofOfIndexingFinisher H) entry =>
              finisher.addCausalityRegion impls overflowChecks entry.1 entry.2)
            (ProofOfIndexingFinisher.new impls reference.blockHash blockNumber reference.subgraphId
              reference.indexer)).map
          (ProofOfIndexingFinisher.finish impls)

end CheckEqual

end GraphNode
