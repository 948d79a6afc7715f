import GraphNode.Subgraph.ProofOfIndexing

/-!
# The online proof of indexing against the reference

`check_equal` (`proof_of_indexing/mod.rs`) feeds the events of a `PoI` through the online proof of
indexing block by block, stores each region's paused digest, finishes the stored digests for the
last block and compares the result with the stable hash of the `PoI`.

After `count` blocks, the digest stored for a region reads back as the reference hash of its
blocks so far (`StoredDigests`); empty blocks add nothing to either side, as an empty slice
writes nothing.  So the two agree when every region has an event in some block.  A region with
no event at all never gets a stream, and the online side never adds it, while the reference
hashes it and counts it.
-/

namespace GraphNode

open StableHash

variable {H E : Type} [AddCommMonoid H] (impls : Impls H) (event : E → SeqNo → H)

namespace Reference

/-- The hash of the blocks of a region before block `count`, each at its index. -/
def CausalityRegion.digestBefore (region : CausalityRegion E) (count : Nat) : H :=
  ((region.blocks.take count).mapIdx fun index block =>
    block.stableHash impls event ⟨[1, 0, index], 0⟩).sum

/-- Whether a region has no event before block `count`. -/
def CausalityRegion.silentBefore (region : CausalityRegion E) (count : Nat) : Bool :=
  (region.blocks.take count).all fun block => block.events.isEmpty

variable {impls event} {region : CausalityRegion E} {count : Nat}

/-- The blocks before `count` add nothing when they have no event. -/
theorem CausalityRegion.digestBefore_of_silent (silent : region.silentBefore count = true) :
    region.digestBefore impls event count = 0 := by
  refine List.sum_eq_zero fun hash member => ?_
  obtain ⟨index, within, rfl⟩ := List.mem_mapIdx.mp member
  have empty := List.all_eq_true.mp silent _ (List.getElem_mem within)
  rw [Block.stableHash, List.isEmpty_iff.mp empty, impls.vec_nil]

theorem CausalityRegion.digestBefore_succ (within : count < region.blocks.length) :
    region.digestBefore impls event (count + 1) =
      region.digestBefore impls event count +
        region.blocks[count].stableHash impls event ⟨[1, 0, count], 0⟩ := by
  rw [digestBefore, digestBefore, List.take_add_one, List.getElem?_eq_getElem within,
    Option.toList_some, List.mapIdx_append, List.sum_append, List.length_take,
    Nat.min_eq_left within.le]
  simp

theorem CausalityRegion.silentBefore_succ (within : count < region.blocks.length) :
    region.silentBefore (count + 1) =
      (region.silentBefore count && region.blocks[count].events.isEmpty) := by
  rw [silentBefore, silentBefore, List.take_add_one, List.getElem?_eq_getElem within,
    Option.toList_some, List.all_append]
  simp

/-- A region with an event in one of its first `count` blocks is not silent before `count`. -/
theorem CausalityRegion.silentBefore_eq_false (counted : region.blocks.length ≤ count)
    (written : ∃ block ∈ region.blocks, block.events ≠ []) : region.silentBefore count = false := by
  obtain ⟨block, member, loud⟩ := written
  rw [silentBefore, List.take_of_length_le counted]
  simpa using ⟨block, member, loud⟩

/-- The hash of a region whose blocks number `count`: its blocks, and their number. -/
theorem CausalityRegion.stableHash_eq (counted : region.blocks.length = count) :
    region.stableHash impls event ⟨[1], 0⟩ =
      region.digestBefore impls event count + impls.int count ⟨[1, 0], 0⟩ := by
  rw [CausalityRegion.stableHash, SeqNo.nextChild_fst, impls.vec_fresh, digestBefore,
    List.take_of_length_le counted.le, counted]
  rfl

/-- `stable_hash::<SetHasher>` of a `PoI`: a member for each region, their number, and the
other fields. -/
theorem PoI.stableHash_root (poi : PoI E) :
    poi.stableHash impls event SeqNo.root =
      (poi.causalityRegions.entries.map fun entry => impls.leaf [0, 1]
        (impls.finish (impls.str entry.1 ⟨[0], 0⟩ + entry.2.stableHash impls event ⟨[1], 0⟩))).sum +
        impls.int poi.causalityRegions.entries.length ⟨[0, 2], 0⟩ +
      deploymentHashStableHash impls poi.subgraphId ⟨[1], 0⟩ +
      impls.bytes poi.blockHash ⟨[2], 0⟩ +
      impls.option impls.bytes poi.indexer ⟨[3], 0⟩ := by
  simp only [PoI.stableHash, SeqNo.root, SeqNo.nextChild]
  rw [impls.map_eq]
  rfl

/-- The same, for regions of `count` blocks each: each member by the digest of its blocks. -/
theorem PoI.stableHash_root_of_counted (poi : PoI E)
    (counted : ∀ entry ∈ poi.causalityRegions.entries, entry.2.blocks.length = count) :
    poi.stableHash impls event SeqNo.root =
      (poi.causalityRegions.entries.map fun entry => impls.leaf [0, 1] (impls.finish
        (entry.2.digestBefore impls event count + impls.int count ⟨[1, 0], 0⟩ +
          impls.str entry.1 ⟨[0], 0⟩))).sum +
        impls.int poi.causalityRegions.entries.length ⟨[0, 2], 0⟩ +
      deploymentHashStableHash impls poi.subgraphId ⟨[1], 0⟩ +
      impls.bytes poi.blockHash ⟨[2], 0⟩ +
      impls.option impls.bytes poi.indexer ⟨[3], 0⟩ := by
  have members : (poi.causalityRegions.entries.map fun entry => impls.leaf [0, 1]
      (impls.finish (impls.str entry.1 ⟨[0], 0⟩ + entry.2.stableHash impls event ⟨[1], 0⟩))) =
      poi.causalityRegions.entries.map fun entry => impls.leaf [0, 1] (impls.finish
        (entry.2.digestBefore impls event count + impls.int count ⟨[1, 0], 0⟩ +
          impls.str entry.1 ⟨[0], 0⟩)) :=
    List.map_congr_left fun entry member => by
      rw [CausalityRegion.stableHash_eq (counted entry member), add_comm (impls.str _ _)]
  rw [PoI.stableHash_root, members]

end Reference

/-! ## The digests stored block after block -/

/-- What `check_equal` has stored after `count` blocks: for each region with an event by then, a
digest that reads back as the hash of its blocks so far. -/
def StoredDigests (reference : Reference.PoI E) (count : Nat) (db : IndexMap String (List UInt8)) :
    Prop :=
  ∀ key, (db.get? key).map impls.fromBytes =
    (reference.causalityRegions.get? key).bind fun region =>
      if region.silentBefore count then none else some (region.digestBefore impls event count)

/-- The stream a region has after the writes of block `blockI`, if it has an event there. -/
def blockStream (region : Reference.CausalityRegion E) (blockI : Nat) :
    Option (BlockEventStream H) :=
  (region.blocks[blockI]?).bind fun block =>
    if block.events = [] then none
    else some (block.events.foldl (BlockEventStream.write event)
      ⟨0, 0, traverseSeqNo [1, 0, blockI, 0], 0⟩)

variable {impls event}

/-- Pausing the streams of a block onto what is stored: each key with a stream gets its paused
digest, the others keep theirs. -/
theorem get?_foldl_pause {streams : List (String × BlockEventStream H)}
    (distinct : KeyedList.Distinct Prod.fst streams) (db : IndexMap String (List UInt8))
    (key : String) :
    (streams.foldl (fun db entry => db.insert entry.1 (entry.2.pause impls (db.get? entry.1)))
        db).get? key =
      match KeyedList.find Prod.fst streams key with
      | some entry => some (entry.2.pause impls (db.get? key))
      | none => db.get? key := by
  induction streams generalizing db with
  | nil => rfl
  | cons entry streams induction =>
      obtain ⟨fresh, distinct⟩ := List.nodup_cons.mp distinct
      rw [List.foldl_cons, induction distinct, KeyedList.find_cons, IndexMap.get?_insert]
      by_cases same : entry.1 = key
      · have absent : KeyedList.find Prod.fst streams key = none :=
          KeyedList.find_eq_none_of_not_mem (same ▸ fresh)
        simp [absent, same]
      · cases KeyedList.find Prod.fst streams key <;> simp [same]

/-- The same, for the streams a proof of indexing took. -/
theorem get?_foldl_pause_take (streams : IndexMap String (BlockEventStream H))
    (db : IndexMap String (List UInt8)) (key : String) :
    (streams.entries.foldl
        (fun db entry => db.insert entry.1 (entry.2.pause impls (db.get? entry.1))) db).get? key =
      match streams.get? key with
      | some stream => some (stream.pause impls (db.get? key))
      | none => db.get? key := by
  rw [get?_foldl_pause streams.distinct]
  simp only [IndexMap.get?]
  cases KeyedList.find Prod.fst streams.entries key <;> rfl

/-- Once every region has had an event, each stored digest reads back as the digest of the
region's blocks. -/
theorem StoredDigests.get?_eq {reference : Reference.PoI E} {count : Nat}
    {db : IndexMap String (List UInt8)} (stored : StoredDigests impls event reference count db)
    (heard : ∀ entry ∈ reference.causalityRegions.entries, entry.2.silentBefore count = false)
    (key : String) :
    (db.get? key).map impls.fromBytes = (reference.causalityRegions.get? key).map fun region =>
      region.digestBefore impls event count := by
  rw [stored key]
  cases regionIs : reference.causalityRegions.get? key with
  | none => rfl
  | some region => simp [heard _ ((IndexMap.mem_entries_iff _ key region).mpr regionIs)]

variable (event) in
/-- The writes of block `blockI`, region after region: each region with an event in the block
gets a new stream with its events, and a region without one gets none. -/
theorem foldlM_regions (blockI : Nat) {entries : List (String × Reference.CausalityRegion E)}
    (distinct : KeyedList.Distinct Prod.fst entries)
    (within : ∀ entry ∈ entries, blockI < entry.2.blocks.length) {poi : ProofOfIndexing H}
    (numbered : poi.blockNumber = blockI)
    (absent : ∀ entry ∈ entries, poi.perCausalityRegion.get? entry.1 = none) :
    ∃ written, entries.foldlM (fun stream entry =>
        entry.2.blocks[blockI]?.bind fun block =>
          block.events.foldlM (fun stream e => stream.write event entry.1 e) stream) poi =
        some written ∧ ∀ key, written.perCausalityRegion.get? key =
          match KeyedList.find Prod.fst entries key with
          | some entry => blockStream event entry.2 blockI
          | none => poi.perCausalityRegion.get? key := by
  have fresh : BlockEventStream.new poi.blockNumber =
      some (⟨0, 0, traverseSeqNo [1, 0, blockI, 0], 0⟩ : BlockEventStream H) := by
    simp [BlockEventStream.new, numbered]
  induction entries generalizing poi with
  | nil => exact ⟨poi, rfl, fun key => rfl⟩
  | cons entry entries induction =>
      obtain ⟨unique, distinct⟩ := List.nodup_cons.mp distinct
      obtain ⟨block, blockIs⟩ : ∃ block, entry.2.blocks[blockI]? = some block :=
        ⟨_, List.getElem?_eq_getElem (within entry List.mem_cons_self)⟩
      obtain ⟨first, wrote, sameBlock, found⟩ := ProofOfIndexing.foldlM_write event fresh entry.1
        block.events
      have absentRest : ∀ other ∈ entries, first.perCausalityRegion.get? other.1 = none := by
        intro other member
        have different : entry.1 ≠ other.1 := fun same =>
          unique (same ▸ List.mem_map_of_mem member)
        rw [found, if_neg (fun both => different both.1)]
        exact absent other (List.mem_cons_of_mem _ member)
      obtain ⟨written, rest, foundRest⟩ := induction distinct
        (fun other member => within other (List.mem_cons_of_mem _ member))
        (sameBlock.trans numbered) absentRest (sameBlock ▸ fresh)
      refine ⟨written, ?_, fun key => ?_⟩
      · rw [List.foldlM_cons, blockIs, Option.bind_some, wrote, Option.bind_eq_bind,
          Option.bind_some]
        exact rest
      · rw [foundRest, KeyedList.find_cons, found, absent entry List.mem_cons_self]
        by_cases same : entry.1 = key
        · subst same
          have none : KeyedList.find Prod.fst entries entry.1 = none :=
            KeyedList.find_eq_none_of_not_mem unique
          by_cases empty : block.events = [] <;>
            simp [none, blockStream, blockIs, empty, absent entry List.mem_cons_self]
        · cases KeyedList.find Prod.fst entries key <;> simp [same]

/-! ## `check_equal`, block after block -/

section CheckEqual

variable {reference : Reference.PoI E}

omit [AddCommMonoid H] in
/-- A block number that fits an `i32`. -/
theorem fits_of_le {blockI : Nat} (fits : (blockI : Int) ≤ I32.maxValue) : I32.Fits blockI :=
  ⟨by simp only [I32.minValue]; omega, fits⟩

/-- The step lemma: one block of `check_equal` keeps the stored digests up to date. -/
theorem checkEqualBlock_stored {db : IndexMap String (List UInt8)} {blockI : Nat}
    (fits : (blockI : Int) ≤ I32.maxValue)
    (within : ∀ entry ∈ reference.causalityRegions.entries, blockI < entry.2.blocks.length)
    (stored : StoredDigests impls event reference blockI db) :
    ∃ db', checkEqualBlock impls event reference db blockI = some db' ∧
      StoredDigests impls event reference (blockI + 1) db' := by
  obtain ⟨written, wrote, found⟩ := foldlM_regions event blockI reference.causalityRegions.distinct
    within (show (ProofOfIndexing.new blockI : ProofOfIndexing H).blockNumber = blockI from rfl)
    fun _ _ => rfl
  refine ⟨_, by rw [checkEqualBlock, I32.ofExact_of_fits true (fits_of_le fits), Option.bind_some,
    wrote, Option.map_some], fun key => ?_⟩
  rw [ProofOfIndexing.take, get?_foldl_pause_take, found]
  have storedKey := stored key
  have regionOf : reference.causalityRegions.get? key =
      (KeyedList.find Prod.fst reference.causalityRegions.entries key).map Prod.snd := rfl
  rw [regionOf] at storedKey ⊢
  cases regionIs : KeyedList.find Prod.fst reference.causalityRegions.entries key with
  | none =>
      simp only [regionIs, Option.map_none, Option.bind_none] at storedKey ⊢
      simpa [ProofOfIndexing.new] using storedKey
  | some entry =>
      obtain ⟨name, region⟩ := entry
      have inside : blockI < region.blocks.length := within _ (KeyedList.mem_of_find regionIs)
      simp only [regionIs, Option.map_some, Option.bind_some] at storedKey ⊢
      rw [Reference.CausalityRegion.silentBefore_succ inside,
        Reference.CausalityRegion.digestBefore_succ inside]
      by_cases empty : region.blocks[blockI].events = []
      · -- no stream: the stored digest stays, and the block adds nothing
        have noStream : blockStream event region blockI = none := by
          simp [blockStream, List.getElem?_eq_getElem inside, empty]
        simp [noStream, storedKey, empty, Reference.Block.stableHash]
      · have stream : blockStream event region blockI =
            some (region.blocks[blockI].events.foldl (BlockEventStream.write event)
              ⟨0, 0, traverseSeqNo [1, 0, blockI, 0], 0⟩) := by
          simp [blockStream, List.getElem?_eq_getElem inside, empty]
        simp only [stream, Option.map_some]
        rw [BlockEventStream.fromBytes_pause, storedKey]
        by_cases silent : region.silentBefore blockI = true
        · simp [silent, Reference.CausalityRegion.digestBefore_of_silent silent, empty]
        · simp [silent, add_comm]

/-- The run lemma: the blocks before `count`, one after the other, leave the digests stored. -/
theorem foldlM_checkEqualBlock {count : Nat} (fits : (count : Int) ≤ I32.maxValue)
    (within : ∀ entry ∈ reference.causalityRegions.entries, count ≤ entry.2.blocks.length) :
    ∃ db, (List.range count).foldlM (checkEqualBlock impls event reference) IndexMap.empty =
      some db ∧ StoredDigests impls event reference count db := by
  induction count with
  | zero =>
      refine ⟨IndexMap.empty, rfl, fun key => ?_⟩
      cases reference.causalityRegions.get? key <;>
        simp [Reference.CausalityRegion.silentBefore]
  | succ count induction =>
      obtain ⟨db, ran, stored⟩ := induction (by omega) fun entry member =>
        (Nat.le_succ count).trans (within entry member)
      obtain ⟨db', step, stored'⟩ := checkEqualBlock_stored (by omega)
        (fun entry member => within entry member) stored
      exact ⟨db', by rw [List.range_succ, List.foldlM_append, ran, Option.bind_eq_bind,
        Option.bind_some, List.foldlM_cons, step]; rfl, stored'⟩

/-- The blocks `check_equal` runs: one more than the number of the last, which is at most `n`
when every region has `n + 1` blocks. -/
theorem checkEqualBlockCount_eq {n : Nat}
    (lengths : ∀ entry ∈ reference.causalityRegions.entries, entry.2.blocks.length = n + 1) :
    ∃ last, checkEqualBlockCount reference = last + 1 ∧ last ≤ n ∧
      ∀ entry ∈ reference.causalityRegions.entries, entry.2.blocks.length = last + 1 := by
  unfold checkEqualBlockCount
  split
  next empty => exact ⟨0, rfl, Nat.zero_le n, by simp [empty]⟩
  next first rest entriesIs =>
    exact ⟨n, lengths first (entriesIs ▸ List.mem_cons_self), le_rfl, lengths⟩

end CheckEqual

/-- The online proof of indexing of `check_equal` is the stable hash of the reference when every
region has an event. -/
theorem checkEqualOnline_eq_reference (overflowChecks : Bool) (impls : Impls H)
    (event : E → SeqNo → H) (reference : Reference.PoI E) (n : Nat)
    (fits : (n : Int) < I32.maxValue)
    (lengths : ∀ entry ∈ reference.causalityRegions.entries, entry.2.blocks.length = n + 1)
    (written : ∀ entry ∈ reference.causalityRegions.entries,
      ∃ block ∈ entry.2.blocks, block.events ≠ []) :
    checkEqualOnline overflowChecks impls event reference =
      some (impls.stableHash (Reference.PoI.stableHash impls event) reference) := by
  obtain ⟨last, counted, lastLe, allCounted⟩ := checkEqualBlockCount_eq lengths
  obtain ⟨db, ran, stored⟩ : ∃ db, (List.range (last + 1)).foldlM
      (checkEqualBlock impls event reference) IndexMap.empty = some db ∧
        StoredDigests impls event reference (last + 1) db :=
    foldlM_checkEqualBlock (by omega) fun entry member => (allCounted entry member).ge
  have readsBack := stored.get?_eq fun entry member =>
    Reference.CausalityRegion.silentBefore_eq_false (allCounted entry member).le
      (written entry member)
  have members : (db.entries.map fun entry => impls.leaf [0, 1] (impls.finish
        (impls.fromBytes entry.2 + impls.int ((last : Int) + 1) ⟨[1, 0], 0⟩ +
          impls.str entry.1 ⟨[0], 0⟩))).sum =
      (reference.causalityRegions.entries.map fun entry => impls.leaf [0, 1] (impls.finish
        (entry.2.digestBefore impls event (last + 1) + impls.int ((last : Int) + 1) ⟨[1, 0], 0⟩ +
          impls.str entry.1 ⟨[0], 0⟩))).sum :=
    IndexMap.sum_entries_of_get? readsBack fun name digest => impls.leaf [0, 1]
      (impls.finish (digest + impls.int ((last : Int) + 1) ⟨[1, 0], 0⟩ + impls.str name ⟨[0], 0⟩))
  have blockFits : I32.Fits ((last : Int) + 1) := by
    have fitsCast := fits_of_le (show ((last + 1 : Nat) : Int) ≤ I32.maxValue by omega)
    push_cast at fitsCast
    exact fitsCast
  unfold checkEqualOnline
  simp only [counted]
  rw [ran, Option.bind_some, show Nat.psub' (last + 1) 1 = some last by simp [Nat.psub'],
    Option.bind_some, I32.ofExact_of_fits true (fits_of_le (by omega)), Option.bind_some]
  simp only [ProofOfIndexingFinisher.new]
  rw [ProofOfIndexingFinisher.foldlM_addCausalityRegion blockFits]
  simp only [Option.map_some, ProofOfIndexingFinisher.finish, Impls.stableHash,
    Reference.PoI.stableHash_root_of_counted reference allCounted, Nat.cast_add, Nat.cast_one,
    traverseSeqNo_eq, members, IndexMap.length_entries_of_get? readsBack, zero_add]
  congr 2
  abel

/-- A set hasher whose digest counts the leaves written, finished into as many zero bytes; its
impls write what the crate's laws say, an integer as one leaf unless it is zero. -/
def countingImpls : Impls Nat where
  leaf _ _ := 1
  finish digest := List.replicate digest 0
  toBytes digest := List.replicate digest 0
  fromBytes bytes := bytes.length
  fromBytes_toBytes _ := List.length_replicate
  int n _ := if n = 0 then 0 else 1
  int_zero _ := rfl
  int_of_nonneg _ _ _ := rfl
  str _ _ := 1
  bytes _ _ := 1
  option item value s := (value.map fun v => item v s).getD 0
  vec item items s :=
    (items.mapIdx fun index value => item value ⟨s.path ++ [s.child + index], 0⟩).sum +
      if (items.length : Int) = 0 then 0 else 1
  vec_eq _ _ _ := rfl
  map _ _ entries _ := (entries.map fun _ => 1).sum + if (entries.length : Int) = 0 then 0 else 1
  map_eq _ _ _ _ := rfl

/-- Two regions of two blocks each, with events in different blocks. -/
def twoRegionReference : Reference.PoI Unit :=
  ⟨(IndexMap.empty.insert "ethereum/mainnet" ⟨[⟨[()]⟩, ⟨[]⟩]⟩).insert "offchain"
    ⟨[⟨[]⟩, ⟨[(), ()]⟩]⟩, "QmSubgraph", [1], none⟩

theorem checkEqualOnline_eq_reference_twoRegions :
    (1 : Int) < I32.maxValue ∧
    (∀ entry ∈ twoRegionReference.causalityRegions.entries, entry.2.blocks.length = 1 + 1) ∧
    (∀ entry ∈ twoRegionReference.causalityRegions.entries,
      ∃ block ∈ entry.2.blocks, block.events ≠ []) ∧
    checkEqualOnline false countingImpls (fun _ _ => 1) twoRegionReference =
      some (countingImpls.stableHash (Reference.PoI.stableHash countingImpls fun _ _ => 1)
        twoRegionReference) :=
  ⟨by decide, by decide, by decide, checkEqualOnline_eq_reference false countingImpls
    (fun _ _ => 1) twoRegionReference 1 (by decide) (by decide) (by decide)⟩

/-- A region whose one block has no event. -/
def silentReference : Reference.PoI Unit :=
  ⟨IndexMap.empty.insert "ethereum/mainnet" ⟨[⟨[]⟩]⟩, "QmSubgraph", [1], none⟩

/-- Without an event a region never gets a stream, so the finisher neither hashes it nor counts
it, while the reference does both: two leaves online against four. -/
theorem checkEqualOnline_drops_silentRegion :
    checkEqualOnline false countingImpls (fun _ _ => 1) silentReference ≠
      some (countingImpls.stableHash (Reference.PoI.stableHash countingImpls fun _ _ => 1)
        silentReference) := by
  decide

end GraphNode
