import GraphNode.Blockchain.PollingBlockStream

/-!
# The polling block stream moves the subgraph pointer coherently

Against chain stores and adapters that answer as `ChainView.Honest` says (scans return blocks of
the range in ascending order, `parent_ptr` the parent, `ancestor_block(head, k)` the block `k`
below `head`, and every pointer is a block of the chain), every run of `poll_next` returns events
that move the subgraph pointer coherently from the start block, in every build
(`pollNext_coherent`): each `ProcessBlock` carries a block past the pointer, which becomes the
pointer, and each `Revert` goes to the pointer's parent.  The invariant behind it is
`PollingBlockStream.Consistent`, kept by each iteration of the loop.

With overflow checks, the range sizes stay at least 1 (`PollingBlockStream.SizesPositive`), so
every range scanned far from a chain head below `BLOCK_NUMBER_MAX` starts right after the
pointer, is nonempty, and ends by the reorg threshold and before the next data source start
block (`pollNext_scans_in_range`).  Without overflow checks the `i32` product
`previous_block_range_size * 10` wraps: after twelve scans that find no block, with
`max_block_range_size = i32::MAX`, the range size is negative and the next scan's `to` lies
before its `from` (`pollNext_scans_inverted_range`); with overflow checks the same run panics at
the eleventh scan.
-/

namespace GraphNode

/-! ## What the stream is to keep -/

/-- A block number past the subgraph pointer; with no pointer, any block number. -/
def Above : Option BlockPtr → Int → Prop
  | none, _ => True
  | some ptr, number => ptr.number < number

/-- Blocks that can be yielded one after the other from the pointer `current`: each past the
pointer the one before it left. -/
def Ascending : Option BlockPtr → List BlockWithTriggers → Prop
  | _, [] => True
  | current, block :: blocks => Above current block.ptr.number ∧ Ascending (some block.ptr) blocks

/-- The answers of the chain store and the adapter that the stream relies on: pointers are blocks
of the chain, `scan_triggers` returns blocks of the range in ascending order, `parent_ptr` the
parent, `ancestor_block(head, k)` the block `k` below `head`, and `triggers_in_block` the block
it was given. -/
structure ChainView.Honest (parentOf : BlockPtr → Option BlockPtr) (chain : ChainView) :
    Prop where
  chainHeadPtr {head : BlockPtr} : chain.chainHeadPtr = .ok (some head) → head.Valid
  scanTriggers {fromBlock toBlock : Int} {blocks : List BlockWithTriggers} :
    chain.scanTriggers fromBlock toBlock = .ok blocks →
      (blocks.map (·.ptr.number)).IsChain (· < ·) ∧
        ∀ block ∈ blocks,
          block.ptr.Valid ∧ fromBlock ≤ block.ptr.number ∧ block.ptr.number ≤ toBlock
  parentPtr {ptr parent : BlockPtr} :
    chain.parentPtr ptr = .ok (some parent) → parent.Valid ∧ parentOf ptr = some parent
  ancestorBlock {head : BlockPtr} {offset : Int} {block : ChainBlock} :
    chain.ancestorBlock head offset = .ok (some block) → block.ptr.number = head.number - offset
  triggersInBlock {block : ChainBlock} {triggers : BlockWithTriggers} :
    chain.triggersInBlock block = .ok triggers →
      triggers.ptr.Valid ∧ triggers.ptr.number = block.ptr.number

/-- Events that move the subgraph pointer coherently from `current` on: a block is past the
pointer and becomes it, a revert goes to the pointer's parent, and an error leaves it. -/
def Coherent (parentOf : BlockPtr → Option BlockPtr) :
    Option BlockPtr → List (Except String BlockStreamEvent) → Prop
  | _, [] => True
  | current, .ok (.processBlock block) :: items =>
    Above current block.ptr.number ∧ Coherent parentOf (some block.ptr) items
  | current, .ok (.revert parent) :: items =>
    (∃ ptr, current = some ptr ∧ parentOf ptr = some parent) ∧
      Coherent parentOf (some parent) items
  | current, .error _ :: items => Coherent parentOf current items

/-- How one iteration's output moves the subgraph pointer from `before` to `after`: a block past
it becomes the pointer, a revert goes to its parent, and every other output leaves it. -/
def Output.Moves (parentOf : BlockPtr → Option BlockPtr) (before : Option BlockPtr) :
    Output → Option BlockPtr → Prop
  | .item (.ok (.processBlock block)), after =>
    Above before block.ptr.number ∧ after = some block.ptr
  | .item (.ok (.revert parent)), after =>
    (∃ ptr, before = some ptr ∧ parentOf ptr = some parent) ∧ after = some parent
  | _, after => after = before

/-- What every stream keeps: a reconciliation runs on the stream's own context, the pointer is a
block of the chain, and the blocks left to yield are blocks that ascend from the pointer. -/
structure PollingBlockStream.Consistent (stream : PollingBlockStream) : Prop where
  reconciliation {ctx : PollingBlockStreamContext} :
    stream.state = .reconciliation ctx → ctx = stream.ctx
  current : ∀ ptr ∈ stream.ctx.currentBlock, ptr.Valid
  yielding {blocks : List BlockWithTriggers} :
    stream.state = .yieldingBlocks blocks →
      Ascending stream.ctx.currentBlock blocks ∧ ∀ block ∈ blocks, block.ptr.Valid

/-- What every stream keeps with overflow checks: a reconciliation runs on the stream's own
context, and the last range size and the maximum one are at least 1. -/
structure PollingBlockStream.SizesPositive (stream : PollingBlockStream) : Prop where
  reconciliation {ctx : PollingBlockStreamContext} :
    stream.state = .reconciliation ctx → ctx = stream.ctx
  previous : 1 ≤ stream.ctx.previousBlockRangeSize
  maximum : 1 ≤ stream.ctx.maxBlockRangeSize

/-! ## Blocks ascend from the pointer -/

theorem ascending_some_iff (ptr : BlockPtr) (blocks : List BlockWithTriggers) :
    Ascending (some ptr) blocks ↔ (ptr.number :: blocks.map (·.ptr.number)).IsChain (· < ·) := by
  induction blocks generalizing ptr with
  | nil => simp [Ascending]
  | cons block blocks ascending =>
    rw [Ascending, ascending, List.map_cons, List.isChain_cons_cons, Above]

/-- Blocks in ascending order, all past the pointer, ascend from it. -/
theorem ascending_of_isChain {current : Option BlockPtr} {blocks : List BlockWithTriggers}
    (ordered : (blocks.map (·.ptr.number)).IsChain (· < ·))
    (past : ∀ block ∈ blocks, Above current block.ptr.number) : Ascending current blocks := by
  cases blocks with
  | nil => trivial
  | cons block blocks =>
    refine ⟨past block (List.mem_cons_self ..), ?_⟩
    rw [ascending_some_iff]
    simpa using ordered

namespace PollingBlockStreamContext

variable {overflowChecks : Bool} {ctx : PollingBlockStreamContext} {chain : ChainView}

/-- A step that processes blocks yields blocks of the chain in ascending order from a pointer
that is one. -/
theorem getNextStep_ascending {parentOf : BlockPtr → Option BlockPtr}
    (honest : chain.Honest parentOf) (valid : ∀ ptr ∈ ctx.currentBlock, ptr.Valid)
    {blocks : List BlockWithTriggers} {size : Int}
    (computed : (ctx.getNextStep overflowChecks chain).run =
      some (.ok (.processDescendantBlocks blocks size))) :
    Ascending ctx.currentBlock blocks ∧ ∀ block ∈ blocks, block.ptr.Valid := by
  obtain ⟨head, headIs, behind, ⟨fromBlock, toBlock, ranged, answered⟩ |
    ⟨ptr, offset, ancestor, block, current, offsetIs, answered, triggered, rfl, -⟩⟩ :=
    getNextStep_processDescendantBlocks computed
  · obtain ⟨ordered, inRange⟩ := honest.scanTriggers answered
    refine ⟨ascending_of_isChain ordered fun block listed => ?_, fun block listed =>
      (inRange block listed).1⟩
    have first := scanRange_fromBlock ranged (honest.chainHeadPtr headIs) fun ptr listed =>
      ⟨valid ptr listed, behind ptr listed⟩
    have after := (inRange block listed).2.1
    cases current : ctx.currentBlock with
    | none => trivial
    | some ptr =>
      simp only [current, Option.elim] at first
      simp only [Above]
      omega
  · -- near the head the block is the one after the pointer, whose distance to the head is exact
    have validPtr := valid ptr current
    have validHead := honest.chainHeadPtr headIs
    have below := behind ptr current
    have fits : I32.Fits (head.number - ptr.number) :=
      fits_of_valid (by omega) (by have := validHead.2; have := validPtr.1; omega)
    have fits' : I32.Fits (head.number - ptr.number - 1) :=
      fits_of_valid (by omega) (by have := validHead.2; have := validPtr.1; omega)
    simp only [I32.ofExact_of_fits _ fits, Option.bind_some, I32.ofExact_of_fits _ fits',
      Option.some.injEq] at offsetIs
    have number := honest.ancestorBlock answered
    obtain ⟨validBlock, same⟩ := honest.triggersInBlock triggered
    refine ⟨?_, by simpa using validBlock⟩
    simp only [Ascending, current, Above, and_true]
    omega

end PollingBlockStreamContext

/-! ## Every run moves the pointer coherently -/

namespace PollingBlockStream

variable {overflowChecks : Bool} {stream next : PollingBlockStream} {output : Output}

theorem pollStep_coherent {parentOf : BlockPtr → Option BlockPtr} {wake : Wake}
    (consistent : stream.Consistent)
    (honest : ∀ chain, wake = .ready chain → chain.Honest parentOf)
    (stepped : stream.pollStep overflowChecks wake = some (next, output)) :
    next.Consistent ∧ output.Moves parentOf stream.ctx.currentBlock next.ctx.currentBlock := by
  have own : ∀ {ctx}, next.state = .reconciliation ctx → ctx = next.ctx :=
    pollStep_reconciliation consistent.reconciliation stepped
  rcases pollStep_cases stepped with
    ⟨-, rfl, rfl⟩ | ⟨ctx, chain, reconciling, rfl, ⟨error, -, failing⟩ | ⟨step, computed, answered⟩⟩ |
      ⟨block, blocks, yielding, rfl, rfl⟩ | ⟨rfl, rfl⟩ | ⟨rfl, quiet⟩
  · exact ⟨⟨own, consistent.current, nofun⟩, rfl⟩
  · obtain ⟨rfl, ⟨secs, waiting⟩, ctxIs⟩ := failed_eq failing
    refine ⟨⟨own, by simpa [ctxIs] using consistent.current, fun yielding => ?_⟩, ?_⟩
    · simp [waiting] at yielding
    · simp [Output.Moves, ctxIs]
  · have same := consistent.reconciliation reconciling
    rcases reconciled_cases answered with
      ⟨blocks, size, _, rfl, rfl, -, rfl⟩ | ⟨rfl, rfl, rfl⟩ |
        ⟨parent, rfl, rfl, rfl⟩ | ⟨rfl, rfl, rfl⟩
    · -- the blocks a step processes ascend from the pointer, which has not moved
      have ascending := PollingBlockStreamContext.getNextStep_ascending (honest chain rfl)
        (same ▸ consistent.current) computed
      rw [same] at ascending
      refine ⟨⟨own, consistent.current, fun yielding => ?_⟩, rfl⟩
      simp only [BlockStreamState.yieldingBlocks.injEq] at yielding
      exact yielding ▸ ascending
    · exact ⟨⟨own, consistent.current, nofun⟩, rfl⟩
    · obtain ⟨ptr, current, found⟩ := PollingBlockStreamContext.getNextStep_revert computed
      obtain ⟨validParent, parentIs⟩ := (honest chain rfl).parentPtr found
      refine ⟨⟨own, by simpa using validParent, nofun⟩, ⟨ptr, same ▸ current, parentIs⟩, rfl⟩
    · exact ⟨consistent, rfl⟩
  · obtain ⟨ascending, valid⟩ := consistent.yielding yielding
    refine ⟨⟨own, by simpa using valid block (List.mem_cons_self ..), fun yielding' => ?_⟩,
      ascending.1, rfl⟩
    simp only [BlockStreamState.yieldingBlocks.injEq] at yielding'
    exact yielding' ▸ ⟨ascending.2, fun block listed => valid block (List.mem_cons_of_mem _ listed)⟩
  · exact ⟨⟨own, consistent.current, nofun⟩, rfl⟩
  · exact ⟨consistent, by rcases quiet with rfl | ⟨_, rfl⟩ <;> rfl⟩

/-- An output that moves the pointer as `Moves` says extends coherent items. -/
theorem coherent_cons {parentOf : BlockPtr → Option BlockPtr} {before after : Option BlockPtr}
    {outputs : List Output} (moves : output.Moves parentOf before after)
    (rest : Coherent parentOf after (Output.items outputs)) :
    Coherent parentOf before (Output.items (output :: outputs)) := by
  rcases output with _ | _ | error | parent | block
  all_goals simp only [Output.Moves] at moves
  · exact moves ▸ rest
  · exact moves ▸ rest
  · exact moves ▸ rest
  · exact ⟨moves.1, moves.2 ▸ rest⟩
  · exact ⟨moves.1, moves.2 ▸ rest⟩

/-- The run lemma: from a consistent stream, every run against honest chains returns coherent
events. -/
theorem run_coherent {parentOf : BlockPtr → Option BlockPtr} (wakes : List Wake)
    (consistent : stream.Consistent)
    (honest : ∀ chain, Wake.ready chain ∈ wakes → chain.Honest parentOf) :
    Coherent parentOf stream.ctx.currentBlock (Output.items (stream.run overflowChecks wakes).1) := by
  induction wakes generalizing stream with
  | nil => trivial
  | cons wake wakes coherent =>
    cases stepped : stream.pollStep overflowChecks wake with
    | none =>
      rw [run_cons_of_panic stepped]
      trivial
    | some result =>
      obtain ⟨next, output⟩ := result
      obtain ⟨consistent', moves⟩ := pollStep_coherent consistent
        (fun chain woken => honest chain (woken ▸ List.mem_cons_self ..)) stepped
      rw [run_cons_of_step stepped]
      exact coherent_cons moves
        (coherent consistent' fun chain listed => honest chain (List.mem_cons_of_mem _ listed))

theorem consistent_new (startBlocks : List Int) (reorgThreshold maxBlockRangeSize : Int)
    (targetTriggersPerBlockRange : Nat) {startBlock : Option BlockPtr}
    (valid : ∀ ptr ∈ startBlock, ptr.Valid) :
    (new startBlocks reorgThreshold maxBlockRangeSize targetTriggersPerBlockRange
      startBlock).Consistent :=
  ⟨nofun, valid, nofun⟩

/-- Every run of a new stream on an honest chain moves the subgraph pointer coherently: each block
is past the pointer, and each revert goes to its parent. -/
theorem pollNext_coherent (parentOf : BlockPtr → Option BlockPtr) (startBlocks : List Int)
    (reorgThreshold maxBlockRangeSize : Int) (targetTriggersPerBlockRange : Nat)
    (startBlock : Option BlockPtr) (valid : ∀ ptr ∈ startBlock, ptr.Valid) (wakes : List Wake)
    (honest : ∀ chain, Wake.ready chain ∈ wakes → chain.Honest parentOf) :
    Coherent parentOf startBlock (Output.items ((new startBlocks reorgThreshold maxBlockRangeSize
      targetTriggersPerBlockRange startBlock).run overflowChecks wakes).1) :=
  run_coherent wakes (consistent_new _ _ _ _ valid) honest

/-- A chain whose head is block 1000 and whose scans find the genesis block alone. -/
def genesisScans : ChainView where
  chainHeadPtr := .ok (some ⟨[], 1000⟩)
  isOnMainChain _ := .ok true
  parentPtr _ := .ok none
  scanTriggers fromBlock toBlock :=
    if fromBlock = 0 ∧ 0 ≤ toBlock then .ok [⟨⟨[7], 0⟩, 2⟩] else .ok []
  ancestorBlock _ _ := .ok none
  triggersInBlock _ := .error "no block"

/-- A new stream scans the genesis block and yields it. -/
theorem pollNext_coherent_genesis :
    genesisScans.Honest (fun _ => none) ∧
      Coherent (fun _ => none) none (Output.items ((new [] 250 2000 1000 none).run true
        [.pending, .ready genesisScans, .pending, .pending]).1) := by
  have honest : genesisScans.Honest (fun _ => none) := by
    constructor
    · intro head answered
      cases answered
      decide
    · intro fromBlock toBlock blocks answered
      simp only [genesisScans] at answered
      split at answered
      · cases answered
        refine ⟨List.isChain_singleton _, ?_⟩
        simp only [List.mem_singleton, forall_eq]
        exact ⟨by decide, by omega, by omega⟩
      · cases answered
        exact ⟨List.isChain_nil, nofun⟩
    · intro ptr parent answered
      cases answered
    · intro head offset block answered
      cases answered
    · intro block triggers answered
      cases answered
  refine ⟨honest, pollNext_coherent (fun _ => none) [] 250 2000 1000 none (by simp) _
    fun chain listed => ?_⟩
  simp only [List.mem_cons, reduceCtorEq, Wake.ready.injEq, List.mem_nil_iff, or_false,
    false_or] at listed
  exact listed ▸ honest

/-! ## With overflow checks, every scanned range is in range -/

/-- With overflow checks, every iteration keeps the range sizes at least 1. -/
theorem pollStep_true_sizesPositive {wake : Wake} (positive : stream.SizesPositive)
    (stepped : stream.pollStep true wake = some (next, output)) : next.SizesPositive := by
  have own : ∀ {ctx}, next.state = .reconciliation ctx → ctx = next.ctx :=
    pollStep_reconciliation positive.reconciliation stepped
  rcases pollStep_cases stepped with
    ⟨-, -, rfl⟩ | ⟨ctx, chain, reconciling, -, ⟨error, -, failing⟩ | ⟨step, computed, answered⟩⟩ |
      ⟨_, _, -, -, rfl⟩ | ⟨-, rfl⟩ | ⟨rfl, -⟩
  · exact ⟨own, positive.previous, positive.maximum⟩
  · obtain ⟨-, -, ctxIs⟩ := failed_eq failing
    exact ⟨own, by simpa [ctxIs] using positive.previous, by simpa [ctxIs] using positive.maximum⟩
  · have same := positive.reconciliation reconciling
    rcases reconciled_cases answered with
      ⟨blocks, size, maxBlockRangeSize, rfl, -, reduced, rfl⟩ | ⟨-, -, rfl⟩ |
        ⟨_, -, -, rfl⟩ | ⟨-, -, rfl⟩
    · -- the new range size is the one `get_next_step` computed on the stream's own context
      rw [same] at computed
      have sized := PollingBlockStreamContext.getNextStep_true_rangeSize positive.previous
        positive.maximum computed
      have shrunk := reducedMaxBlockRangeSize_cases reduced
      refine ⟨own, sized, ?_⟩
      have := positive.maximum
      simp only
      omega
    all_goals exact ⟨own, positive.previous, positive.maximum⟩
  all_goals exact ⟨own, positive.previous, positive.maximum⟩

/-- The run lemma with overflow checks: every stream reached keeps the range sizes at least 1,
and the start blocks and the reorg threshold it started with. -/
theorem run_true_sizesPositive (wakes : List Wake) (positive : stream.SizesPositive)
    {final : PollingBlockStream} (ran : (stream.run true wakes).2 = some final) :
    final.SizesPositive ∧ final.ctx.startBlocks = stream.ctx.startBlocks ∧
      final.ctx.reorgThreshold = stream.ctx.reorgThreshold := by
  induction wakes generalizing stream with
  | nil =>
    cases ran
    exact ⟨positive, rfl, rfl⟩
  | cons wake wakes reached =>
    cases stepped : stream.pollStep true wake with
    | none =>
      rw [run_cons_of_panic stepped] at ran
      cases ran
    | some result =>
      obtain ⟨next, output⟩ := result
      rw [run_cons_of_step stepped] at ran
      obtain ⟨sized, starts, threshold⟩ := reached (pollStep_true_sizesPositive positive stepped) ran
      obtain ⟨starts', threshold'⟩ := pollStep_frame stepped
      exact ⟨sized, starts.trans starts', threshold.trans threshold'⟩

/-- With overflow checks, every range a run of a new stream scans far from the head starts right
after the pointer, is nonempty and stays within its bounds. -/
theorem pollNext_scans_in_range (startBlocks : List Int) (reorgThreshold maxBlockRangeSize : Int)
    (targetTriggersPerBlockRange : Nat) (startBlock : Option BlockPtr)
    (positive : 1 ≤ maxBlockRangeSize) (wakes : List Wake) {stream : PollingBlockStream}
    (ran : ((new startBlocks reorgThreshold maxBlockRangeSize targetTriggersPerBlockRange
      startBlock).run true wakes).2 = some stream)
    {ctx : PollingBlockStreamContext} (reconciling : stream.state = .reconciliation ctx)
    {head : BlockPtr} (far : ctx.FarFrom true head) (belowMax : head.number < blockNumberMax)
    {fromBlock toBlock size : Int}
    (computed : ctx.scanRange true head = some (fromBlock, toBlock, size)) :
    fromBlock = stream.ctx.currentBlock.elim 0 (·.number + 1) ∧ fromBlock ≤ toBlock ∧
      toBlock ≤ head.number - min reorgThreshold head.number ∧
      ∀ start ∈ startBlocks, fromBlock < start → toBlock < start := by
  have started : (new startBlocks reorgThreshold maxBlockRangeSize targetTriggersPerBlockRange
      startBlock).SizesPositive := ⟨nofun, le_rfl, positive⟩
  obtain ⟨sized, starts, threshold⟩ := run_true_sizesPositive wakes started ran
  have same := sized.reconciliation reconciling
  subst same
  have spec := PollingBlockStreamContext.scanRange_true_spec sized.previous sized.maximum far
    belowMax computed
  rw [starts, threshold] at spec
  exact spec

/-- The first scan of a new stream with no start block, 1000 blocks below the head. -/
theorem pollNext_scans_in_range_firstScan :
    (new [] 250 2000 1000 none).ctx.scanRange true ⟨[], 1000⟩ = some (0, 0, 1) ∧
      (0 : Int) = (none : Option BlockPtr).elim 0 (·.number + 1) ∧ (0 : Int) ≤ 0 ∧
      (0 : Int) ≤ 1000 - min 250 1000 ∧
      ∀ start ∈ ([] : List Int), (0 : Int) < start → (0 : Int) < start := by
  have ran : ((new [] 250 2000 1000 none).run true [.pending]).2 =
      some { new [] 250 2000 1000 none with
        state := .reconciliation (new [] 250 2000 1000 none).ctx } := rfl
  have far : (new [] 250 2000 1000 none).ctx.FarFrom true ⟨[], 1000⟩ := by
    simp [PollingBlockStreamContext.FarFrom, new]
  have computed :
      (new [] 250 2000 1000 none).ctx.scanRange true ⟨[], 1000⟩ = some (0, 0, 1) := by
    decide +kernel
  exact ⟨computed, pollNext_scans_in_range [] 250 2000 1000 none (by decide) [.pending] ran rfl
    far (by decide) computed⟩

/-- A chain store and adapter whose head is block 1000 and whose scans find no block. -/
def emptyScans : ChainView where
  chainHeadPtr := .ok (some ⟨[], 1000⟩)
  isOnMainChain _ := .ok true
  parentPtr _ := .ok none
  scanTriggers _ _ := .ok []
  ancestorBlock _ _ := .ok none
  triggersInBlock _ := .error "no block"

/-- `count` reconciliations against `emptyScans`, each of which begins, scans and yields
nothing. -/
def emptyScanCycles (count : Nat) : List Wake :=
  (List.replicate count [.pending, .ready emptyScans, .pending]).flatten

/-- Without overflow checks the range size of a stream that finds no block wraps negative after
twelve scans, so a scan ends before it starts; with them the run panics. -/
theorem pollNext_scans_inverted_range :
    emptyScans.Honest (fun _ => none) ∧
      ((new [] 250 blockNumberMax 1000 none).run false (emptyScanCycles 12)).2.map
          (fun stream => (stream.state, stream.ctx.currentBlock,
            stream.ctx.scanRange false ⟨[], 1000⟩)) =
        some (.beginReconciliation, none, some (0, -727379969, -727379968)) ∧
      ((new [] 250 blockNumberMax 1000 none).run true (emptyScanCycles 11)).2 = none := by
  refine ⟨?_, by decide +kernel, by decide +kernel⟩
  constructor
  · intro head answered
    cases answered
    decide
  · intro fromBlock toBlock blocks answered
    cases answered
    exact ⟨List.isChain_nil, nofun⟩
  · intro ptr parent answered
    cases answered
  · intro head offset block answered
    cases answered
  · intro block triggers answered
    cases answered

end PollingBlockStream

end GraphNode
