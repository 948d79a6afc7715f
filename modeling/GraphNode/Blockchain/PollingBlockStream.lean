import GraphNode.Library.MachineNumbers
import GraphNode.Library.Fallible
import GraphNode.Store.BlockRange
import GraphNode.GraphQL.QueryCache

/-!
# The polling block stream

`graph/src/blockchain/polling_block_stream.rs`.  The stream keeps a subgraph pointer
(`current_block`) and moves it towards the chain head.  `get_next_step` compares the pointer with
the head: far from the head it asks the adapter whether the pointer is on the main chain and
scans a range of block numbers, whose size adapts to the triggers of the last scan; near the head
it walks back from the head to the block after the pointer.  `poll_next` runs the state machine
`BlockStreamState` around it, yielding the scanned blocks one by one and reverting to parents.

Each call of `get_next_step` reads one `ChainView`: what the chain store and the adapter answer
to its calls.  `pollStep` is one iteration of the loop of `poll_next`, woken by what the polled
future, delay or chain head update stream reports; a run is a list of such wakes.  A future's
`Retry` keeps it running, and its completion is the last of its `get_next_step` calls.  The `i32`
and `u32` arithmetic panics with overflow checks and wraps without them (`overflowChecks`), and
`f64` values are exact (`F64`).  The stores, the filter, the logger, the ids and the
`test_reorg` fail point, which is false in a normal build, are left out.
-/

namespace GraphNode

/-- A pointer to a block of a chain: block numbers count from the genesis block 0 and are
`i32`s, so they lie in `[0, BLOCK_NUMBER_MAX]`. -/
def BlockPtr.Valid (ptr : BlockPtr) : Prop :=
  0 ≤ ptr.number ∧ ptr.number ≤ blockNumberMax

instance (ptr : BlockPtr) : Decidable ptr.Valid :=
  inferInstanceAs (Decidable (0 ≤ ptr.number ∧ ptr.number ≤ blockNumberMax))

/-- A block of the chain store as `get_next_step` reads it: its pointer and its `parent_hash`. -/
structure ChainBlock where
  ptr : BlockPtr
  parentHash : Option (List UInt8)
  deriving DecidableEq

/-- `BlockWithTriggers`, as far as the stream reads it: the block's pointer and the number of its
triggers. -/
structure BlockWithTriggers where
  ptr : BlockPtr
  triggerCount : Nat
  deriving DecidableEq

/-- `BlockStreamEvent` of a polling stream, whose cursor is always `FirehoseCursor::None`. -/
inductive BlockStreamEvent where
  | revert (ptr : BlockPtr)
  | processBlock (block : BlockWithTriggers)
  deriving DecidableEq

/-- What the chain store and the triggers adapter answer to the calls of one `get_next_step`:
`chain_head_ptr`, `is_on_main_chain`, `parent_ptr`, `scan_triggers`, `ancestor_block` and
`triggers_in_block`.  Each call may fail. -/
structure ChainView where
  chainHeadPtr : Except String (Option BlockPtr)
  isOnMainChain : BlockPtr → Except String Bool
  parentPtr : BlockPtr → Except String (Option BlockPtr)
  scanTriggers : Int → Int → Except String (List BlockWithTriggers)
  ancestorBlock : BlockPtr → Int → Except String (Option ChainBlock)
  triggersInBlock : ChainBlock → Except String BlockWithTriggers

/-- `ReconciliationStep`. -/
inductive ReconciliationStep where
  | revert (ptr : BlockPtr)
  | processDescendantBlocks (blocks : List BlockWithTriggers) (rangeSize : Int)
  | retry
  | done
  deriving DecidableEq

/-- `PollingBlockStreamContext`, without the stores, the filter, the logger and the ids that the
stream only passes on. -/
structure PollingBlockStreamContext where
  reorgThreshold : Int
  startBlocks : List Int
  previousTriggersPerBlock : F64
  previousBlockRangeSize : Int
  maxBlockRangeSize : Int
  targetTriggersPerBlockRange : Nat
  currentBlock : Option BlockPtr
  deriving DecidableEq

namespace PollingBlockStreamContext

variable (overflowChecks : Bool)

/-- `parent_ptr`: the adapter's answer, where `expect("genesis block can't be reverted")` panics
on none. -/
def parentPtr (chain : ChainView) (ptr : BlockPtr) : ExceptT String Option BlockPtr := do
  let some parent ← liftExcept (chain.parentPtr ptr) | ExceptT.lift none
  pure parent

/-- The first data source start block after `fromBlock`, and `BLOCK_NUMBER_MAX` for none. -/
def nextStartBlock (startBlocks : List Int) (fromBlock : Int) : Int :=
  ((startBlocks.filter (fromBlock < ·)).min?).getD blockNumberMax

/-- The range size `get_next_step` aims at: the size that would give the target number of
triggers at the last scan's triggers per block, at least 1 and at most `upperLimit`, which is
used as it is after a scan without triggers. -/
def rangeSize (ctx : PollingBlockStreamContext) (upperLimit : Int) : Int :=
  if ctx.previousTriggersPerBlock.isZero then upperLimit
  else ((F64.div (F64.ofInt ctx.targetTriggersPerBlockRange) ctx.previousTriggersPerBlock).max
    (.finite 1)).min (F64.ofInt upperLimit) |>.toInt 32

/-- The range that `get_next_step` scans far from the chain head `head`: `from`, `to` and the
range size. -/
def scanRange (ctx : PollingBlockStreamContext) (head : BlockPtr) : Option (Int × Int × Int) := do
  let reorgThreshold := min ctx.reorgThreshold head.number
  let fromBlock ← ctx.currentBlock.elim (pure 0) fun ptr =>
    I32.ofExact overflowChecks (ptr.number + 1)
  let nextStartBlock := nextStartBlock ctx.startBlocks fromBlock
  let toLimit := min (← I32.ofExact overflowChecks (head.number - reorgThreshold))
    (← I32.ofExact overflowChecks (nextStartBlock - 1))
  let rangeSizeUpperLimit :=
    min ctx.maxBlockRangeSize (← I32.ofExact overflowChecks (ctx.previousBlockRangeSize * 10))
  let rangeSize := ctx.rangeSize rangeSizeUpperLimit
  let toBlock := min (← I32.ofExact overflowChecks
    ((← I32.ofExact overflowChecks (fromBlock + rangeSize)) - 1)) toLimit
  pure (fromBlock, toBlock, rangeSize)

/-- The far branch once the subgraph pointer is on the main chain: scan the blocks of
`scanRange`. -/
def scan (ctx : PollingBlockStreamContext) (chain : ChainView) (head : BlockPtr) :
    ExceptT String Option ReconciliationStep := do
  let (fromBlock, toBlock, rangeSize) ← ExceptT.lift (ctx.scanRange overflowChecks head)
  let blocks ← liftExcept (chain.scanTriggers fromBlock toBlock)
  pure (.processDescendantBlocks blocks rangeSize)

/-- The branch near the chain head: one block forward if the subgraph pointer is the parent of
the head's ancestor one block past it, else back to the pointer's parent. -/
def stepNear (chain : ChainView) (head ptr : BlockPtr) :
    ExceptT String Option ReconciliationStep := do
  let offset ← ExceptT.lift (I32.ofExact overflowChecks
    ((← ExceptT.lift (I32.ofExact overflowChecks (head.number - ptr.number))) - 1))
  match ← liftExcept (chain.ancestorBlock head offset) with
  | none => pure .retry
  | some headAncestor =>
    if headAncestor.parentHash = some ptr.hash then
      let block ← liftExcept (chain.triggersInBlock headAncestor)
      pure (.processDescendantBlocks [block] 1)
    else
      pure (.revert (← parentPtr chain ptr))

/-- `get_next_step`. -/
def getNextStep (ctx : PollingBlockStreamContext) (chain : ChainView) :
    ExceptT String Option ReconciliationStep := do
  let some head ← liftExcept chain.chainHeadPtr | pure .done
  let reorgThreshold := min ctx.reorgThreshold head.number
  match ctx.currentBlock with
  | none => ctx.scan overflowChecks chain head
  | some ptr =>
    if head.number ≤ ptr.number then pure .done
    else do
      let behind ← ExceptT.lift (I32.ofExact overflowChecks (head.number - ptr.number))
      if reorgThreshold < behind then
        if ← liftExcept (chain.isOnMainChain ptr) then ctx.scan overflowChecks chain head
        else pure (.revert (← parentPtr chain ptr))
      else stepNear overflowChecks chain head ptr

/-- No subgraph pointer, or one below the chain head `head` by more than the reorg threshold, as
`head_ptr.number - subgraph_ptr.number` computes it: then `get_next_step` scans by block
numbers. -/
def FarFrom (ctx : PollingBlockStreamContext) (head : BlockPtr) : Prop :=
  ∀ ptr ∈ ctx.currentBlock, ptr.number < head.number ∧
    ∃ behind, I32.ofExact overflowChecks (head.number - ptr.number) = some behind ∧
      min ctx.reorgThreshold head.number < behind

end PollingBlockStreamContext

/-- `STARTING_PREVIOUS_TRIGGERS_PER_BLOCK`: a high number forces a slow start. -/
def startingPreviousTriggersPerBlock : F64 := .finite 1000000

/-- `BlockStreamState`.  A reconciliation holds the context its `next_blocks` future was started
on, and a retry the seconds it sleeps. -/
inductive BlockStreamState where
  | beginReconciliation
  | reconciliation (ctx : PollingBlockStreamContext)
  | yieldingBlocks (blocks : List BlockWithTriggers)
  | retryAfterDelay (secs : Nat)
  | idle
  deriving DecidableEq

/-- `PollingBlockStream`, without its chain head update stream, whose answers come with each
poll. -/
structure PollingBlockStream where
  state : BlockStreamState
  consecutiveErrCount : UInt32
  ctx : PollingBlockStreamContext
  deriving DecidableEq

/-- What the future, delay or stream polled by one iteration of `poll_next`'s loop reports.  On a
reconciliation, `ready chain` is one iteration of the loop of `next_blocks`: `get_next_step`
against `chain`.  A future and a delay never end, so `ended` reads there as pending. -/
inductive Wake where
  | pending
  | ready (chain : ChainView)
  | ended

/-- What one iteration of `poll_next`'s loop does: go on with the loop, return `Poll::Pending`, or
return the item `Poll::Ready(Some(item))`. -/
inductive Output where
  | continue
  | pending
  | item (item : Except String BlockStreamEvent)
  deriving DecidableEq

namespace PollingBlockStream

variable (overflowChecks : Bool)

/-- `PollingBlockStream::new`. -/
def new (startBlocks : List Int) (reorgThreshold maxBlockRangeSize : Int)
    (targetTriggersPerBlockRange : Nat) (startBlock : Option BlockPtr) : PollingBlockStream :=
  ⟨.beginReconciliation, 0,
    ⟨reorgThreshold, startBlocks, startingPreviousTriggersPerBlock, 1, maxBlockRangeSize,
      targetTriggersPerBlockRange, startBlock⟩⟩

/-- The maximum range size once blocks arrive: after a single error, reducing the range size is
taken to have fixed it, and the maximum shrinks by a tenth, to no less than 10. -/
def reducedMaxBlockRangeSize (stream : PollingBlockStream) : Option Int :=
  if stream.consecutiveErrCount = 1 then
    (I32.ofExact overflowChecks (stream.ctx.maxBlockRangeSize * 9)).map fun nine =>
      max (nine.tdiv 10) 10
  else some stream.ctx.maxBlockRangeSize

/-- The `Reconciliation` arm when `next_blocks` has returned the step; `Retry` keeps the future
running. -/
def reconciled (stream : PollingBlockStream) :
    ReconciliationStep → Option (PollingBlockStream × Output)
  | .processDescendantBlocks blocks blockRangeSize => do
    let maxBlockRangeSize ← stream.reducedMaxBlockRangeSize overflowChecks
    let totalTriggers := (blocks.map (·.triggerCount)).sum
    pure (⟨.yieldingBlocks blocks, 0,
      { stream.ctx with
        maxBlockRangeSize
        previousTriggersPerBlock := F64.div (.ofInt totalTriggers) (.ofInt blockRangeSize)
        previousBlockRangeSize := blockRangeSize }⟩, .continue)
  | .done => some ({ stream with state := .idle, consecutiveErrCount := 0 }, .continue)
  | .revert parentPtr =>
    some ({ stream with
      state := .beginReconciliation
      ctx := { stream.ctx with currentBlock := some parentPtr } }, .item (.ok (.revert parentPtr)))
  | .retry => some (stream, .continue)

/-- The `Reconciliation` arm when `next_blocks` has failed: reset the triggers per block, count
the error and sleep `(5 * consecutive_err_count).max(120)` seconds. -/
def failed (stream : PollingBlockStream) (error : String) :
    Option (PollingBlockStream × Output) := do
  let consecutiveErrCount ← U32.ofExact overflowChecks (stream.consecutiveErrCount.toNat + 1)
  let secs := max (← U32.ofExact overflowChecks (5 * consecutiveErrCount.toNat)).toNat 120
  pure (⟨.retryAfterDelay secs, consecutiveErrCount,
    { stream.ctx with previousTriggersPerBlock := startingPreviousTriggersPerBlock }⟩,
    .item (.error error))

/-- One iteration of the loop of `poll_next`: the arm of the current state. -/
def pollStep (stream : PollingBlockStream) (wake : Wake) : Option (PollingBlockStream × Output) :=
  match stream.state, wake with
  | .beginReconciliation, _ =>
    some ({ stream with state := .reconciliation stream.ctx }, .continue)
  | .reconciliation ctx, .ready chain =>
    match (ctx.getNextStep overflowChecks chain).run with
    | none => none
    | some (.error error) => stream.failed overflowChecks error
    | some (.ok step) => stream.reconciled overflowChecks step
  | .reconciliation _, _ => some (stream, .pending)
  | .yieldingBlocks [], _ => some ({ stream with state := .beginReconciliation }, .continue)
  | .yieldingBlocks (block :: blocks), _ =>
    some ({ stream with
      state := .yieldingBlocks blocks
      ctx := { stream.ctx with currentBlock := some block.ptr } }, .item (.ok (.processBlock block)))
  | .retryAfterDelay _, .ready _ => some ({ stream with state := .beginReconciliation }, .continue)
  | .retryAfterDelay _, _ => some (stream, .pending)
  | .idle, .ready _ => some ({ stream with state := .beginReconciliation }, .continue)
  | .idle, .ended => some (stream, .item (.error "chain head update stream ended unexpectedly"))
  | .idle, .pending => some (stream, .pending)

/-- Iterations of `poll_next`'s loop, woken as the list says: the outputs up to the first panic,
and the stream after the last one unless one panicked. -/
def run (stream : PollingBlockStream) : List Wake → List Output × Option PollingBlockStream
  | [] => ([], some stream)
  | wake :: wakes =>
    match stream.pollStep overflowChecks wake with
    | none => ([], none)
    | some (next, output) =>
      let (outputs, final) := next.run wakes
      (output :: outputs, final)

end PollingBlockStream

/-- The items a run of the stream returns. -/
def Output.items : List Output → List (Except String BlockStreamEvent)
  | [] => []
  | .item result :: outputs => result :: items outputs
  | _ :: outputs => items outputs

/-! ## `get_next_step` taken apart -/

/-- A block number, or anything between 0 and `BLOCK_NUMBER_MAX`, is an `i32`. -/
theorem fits_of_valid {n : Int} (low : 0 ≤ n) (high : n ≤ blockNumberMax) : I32.Fits n := by
  unfold I32.Fits I32.minValue I32.maxValue
  unfold blockNumberMax at high
  omega

namespace PollingBlockStreamContext

open Fallible

variable {overflowChecks : Bool} {ctx : PollingBlockStreamContext} {chain : ChainView}

theorem parentPtr_eq_ok {ptr parent : BlockPtr}
    (computed : (parentPtr chain ptr).run = some (.ok parent)) :
    chain.parentPtr ptr = .ok (some parent) := by
  obtain ⟨answer, answered, rest⟩ := run_bind_eq_ok.mp computed
  simp only [run_liftExcept, Option.some.injEq] at answered
  cases answer with
  | none => simp at rest
  | some found => simp_all

theorem scan_eq_ok {head : BlockPtr} {step : ReconciliationStep}
    (computed : (ctx.scan overflowChecks chain head).run = some (.ok step)) :
    ∃ fromBlock toBlock rangeSize blocks,
      ctx.scanRange overflowChecks head = some (fromBlock, toBlock, rangeSize) ∧
      chain.scanTriggers fromBlock toBlock = .ok blocks ∧
      step = .processDescendantBlocks blocks rangeSize := by
  obtain ⟨⟨fromBlock, toBlock, rangeSize⟩, ranged, rest⟩ := run_bind_eq_ok.mp computed
  obtain ⟨blocks, scanned, done⟩ := run_bind_eq_ok.mp rest
  simp only [run_liftExcept, Option.some.injEq] at scanned
  simp at done
  exact ⟨fromBlock, toBlock, rangeSize, blocks, run_lift_eq_ok.mp ranged, scanned, done.symm⟩

/-- Everything the branch near the head can do. -/
theorem stepNear_cases {head ptr : BlockPtr} {step : ReconciliationStep}
    (computed : (stepNear overflowChecks chain head ptr).run = some (.ok step)) :
    ∃ offset, (I32.ofExact overflowChecks (head.number - ptr.number)).bind
        (fun behind => I32.ofExact overflowChecks (behind - 1)) = some offset ∧
      ((chain.ancestorBlock head offset = .ok none ∧ step = .retry) ∨
        ∃ ancestor, chain.ancestorBlock head offset = .ok (some ancestor) ∧
          ((ancestor.parentHash = some ptr.hash ∧
              ∃ block, chain.triggersInBlock ancestor = .ok block ∧
                step = .processDescendantBlocks [block] 1) ∨
            (ancestor.parentHash ≠ some ptr.hash ∧
              ∃ parent, (parentPtr chain ptr).run = some (.ok parent) ∧
                step = .revert parent))) := by
  obtain ⟨behind, behindIs, rest⟩ := run_bind_eq_ok.mp computed
  obtain ⟨offset, offsetIs, rest⟩ := run_bind_eq_ok.mp rest
  refine ⟨offset, ?_, ?_⟩
  · simp only [run_lift_eq_ok] at behindIs offsetIs
    simp [behindIs, offsetIs]
  · obtain ⟨answer, answered, rest⟩ := run_bind_eq_ok.mp rest
    simp only [run_liftExcept, Option.some.injEq] at answered
    cases answer with
    | none =>
      simp at rest
      exact .inl ⟨answered, rest.symm⟩
    | some ancestor =>
      refine .inr ⟨ancestor, answered, ?_⟩
      simp only at rest
      split at rest
      · obtain ⟨block, triggered, rest⟩ := run_bind_eq_ok.mp rest
        simp at triggered rest
        exact .inl ⟨‹_›, block, triggered, rest.symm⟩
      · obtain ⟨parent, found, rest⟩ := run_bind_eq_ok.mp rest
        simp at rest
        exact .inr ⟨‹_›, parent, found, rest.symm⟩

/-- Everything `get_next_step` can return: done, a scan or a revert far from the head, or the
branch near it. -/
theorem getNextStep_cases {step : ReconciliationStep}
    (computed : (ctx.getNextStep overflowChecks chain).run = some (.ok step)) :
    step = .done ∨
      ∃ head, chain.chainHeadPtr = .ok (some head) ∧
        ((ctx.FarFrom overflowChecks head ∧
            ((ctx.scan overflowChecks chain head).run = some (.ok step) ∨
              ∃ ptr parent, ctx.currentBlock = some ptr ∧
                (parentPtr chain ptr).run = some (.ok parent) ∧ step = .revert parent)) ∨
          ∃ ptr, ctx.currentBlock = some ptr ∧ ptr.number < head.number ∧
            (stepNear overflowChecks chain head ptr).run = some (.ok step)) := by
  obtain ⟨answer, answered, rest⟩ := run_bind_eq_ok.mp computed
  simp only [run_liftExcept, Option.some.injEq] at answered
  cases answer with
  | none =>
    simp at rest
    exact .inl rest.symm
  | some head =>
    simp only at rest
    split at rest
    · rename_i current
      exact .inr ⟨head, answered, .inl ⟨by simp [FarFrom, current], .inl rest⟩⟩
    · rename_i ptr current
      split at rest
      · simp at rest
        exact .inl rest.symm
      · have behind : ptr.number < head.number := by omega
        refine .inr ⟨head, answered, ?_⟩
        obtain ⟨difference, differenceIs, rest⟩ := run_bind_eq_ok.mp rest
        rw [run_lift_eq_ok] at differenceIs
        split at rest
        · have far : ctx.FarFrom overflowChecks head := by
            intro found listed
            rw [current, Option.mem_some_iff] at listed
            subst listed
            exact ⟨behind, difference, differenceIs, ‹_›⟩
          obtain ⟨onMain, -, rest⟩ := run_bind_eq_ok.mp rest
          split at rest
          · exact .inl ⟨far, .inl rest⟩
          · obtain ⟨parent, found, rest⟩ := run_bind_eq_ok.mp rest
            simp at rest
            exact .inl ⟨far, .inr ⟨ptr, parent, current, found, rest.symm⟩⟩
        · exact .inr ⟨ptr, current, behind, rest⟩

/-- What a step that processes blocks read: a scan of `scanRange`, or near the head the block
after the pointer. -/
theorem getNextStep_processDescendantBlocks {blocks : List BlockWithTriggers} {size : Int}
    (computed : (ctx.getNextStep overflowChecks chain).run =
      some (.ok (.processDescendantBlocks blocks size))) :
    ∃ head, chain.chainHeadPtr = .ok (some head) ∧
      (∀ ptr ∈ ctx.currentBlock, ptr.number < head.number) ∧
      ((∃ fromBlock toBlock, ctx.scanRange overflowChecks head = some (fromBlock, toBlock, size) ∧
          chain.scanTriggers fromBlock toBlock = .ok blocks) ∨
        ∃ ptr offset ancestor block, ctx.currentBlock = some ptr ∧
          (I32.ofExact overflowChecks (head.number - ptr.number)).bind
            (fun behind => I32.ofExact overflowChecks (behind - 1)) = some offset ∧
          chain.ancestorBlock head offset = .ok (some ancestor) ∧
          chain.triggersInBlock ancestor = .ok block ∧ blocks = [block] ∧ size = 1) := by
  have scanned : ∀ head, (ctx.scan overflowChecks chain head).run =
      some (.ok (.processDescendantBlocks blocks size)) →
      ∃ fromBlock toBlock, ctx.scanRange overflowChecks head = some (fromBlock, toBlock, size) ∧
        chain.scanTriggers fromBlock toBlock = .ok blocks := by
    intro head scanning
    obtain ⟨fromBlock, toBlock, rangeSize, found, ranged, answered, same⟩ := scan_eq_ok scanning
    cases same
    exact ⟨fromBlock, toBlock, ranged, answered⟩
  rcases getNextStep_cases computed with
    done | ⟨head, headIs, ⟨far, scanning | ⟨_, _, -, -, same⟩⟩ | ⟨ptr, current, behind, near⟩⟩
  · cases done
  · exact ⟨head, headIs, fun ptr listed => (far ptr listed).1, .inl (scanned head scanning)⟩
  · cases same
  · refine ⟨head, headIs, by simpa [current], .inr ?_⟩
    obtain ⟨offset, offsetIs, retry | ⟨ancestor, answered, ⟨-, block, triggered, same⟩ |
      ⟨-, _, -, same⟩⟩⟩ := stepNear_cases near
    · cases retry.2
    · cases same
      exact ⟨ptr, offset, ancestor, block, current, offsetIs, answered, triggered, rfl, rfl⟩
    · cases same

/-- A revert goes to what `parent_ptr` answers for the pointer. -/
theorem getNextStep_revert {parent : BlockPtr}
    (computed : (ctx.getNextStep overflowChecks chain).run = some (.ok (.revert parent))) :
    ∃ ptr, ctx.currentBlock = some ptr ∧ chain.parentPtr ptr = .ok (some parent) := by
  rcases getNextStep_cases computed with
    done | ⟨head, -, ⟨-, scanning | ⟨ptr, found, current, revert, same⟩⟩ |
      ⟨ptr, current, -, near⟩⟩
  · cases done
  · obtain ⟨_, _, _, _, -, -, same⟩ := scan_eq_ok scanning
    cases same
  · cases same
    exact ⟨ptr, current, parentPtr_eq_ok revert⟩
  · obtain ⟨_, -, retry | ⟨_, -, ⟨-, _, -, same⟩ | ⟨-, found, revert, same⟩⟩⟩ :=
      stepNear_cases near
    · cases retry.2
    · cases same
    · cases same
      exact ⟨ptr, current, parentPtr_eq_ok revert⟩

/-! ## The scanned range -/

theorem nextStartBlock_le {startBlocks : List Int} {fromBlock start : Int}
    (listed : start ∈ startBlocks) (after : fromBlock < start) :
    nextStartBlock startBlocks fromBlock ≤ start := by
  have kept : start ∈ startBlocks.filter (fromBlock < ·) :=
    List.mem_filter.mpr ⟨listed, by simpa⟩
  obtain ⟨first, isMin⟩ := Option.isSome_iff_exists.mp (List.isSome_min?_of_mem kept)
  rw [nextStartBlock, isMin, Option.getD_some]
  exact (List.min?_eq_some_iff.mp isMin).2 start kept

theorem lt_nextStartBlock (startBlocks : List Int) {fromBlock : Int}
    (belowMax : fromBlock < blockNumberMax) : fromBlock < nextStartBlock startBlocks fromBlock := by
  unfold nextStartBlock
  cases first : (startBlocks.filter (fromBlock < ·)).min? with
  | none => exact belowMax
  | some start =>
    have kept := List.min?_mem first
    simpa using (List.mem_filter.mp kept).2

/-- `scanRange` step by step. -/
theorem scanRange_eq_some {head : BlockPtr} {fromBlock toBlock size : Int}
    (computed : ctx.scanRange overflowChecks head = some (fromBlock, toBlock, size)) :
    (ctx.currentBlock.elim (some 0) fun ptr => I32.ofExact overflowChecks (ptr.number + 1)) =
        some fromBlock ∧
      ∃ headLimit startLimit upperTen sum last,
        I32.ofExact overflowChecks (head.number - min ctx.reorgThreshold head.number) =
          some headLimit ∧
        I32.ofExact overflowChecks (nextStartBlock ctx.startBlocks fromBlock - 1) =
          some startLimit ∧
        I32.ofExact overflowChecks (ctx.previousBlockRangeSize * 10) = some upperTen ∧
        size = ctx.rangeSize (min ctx.maxBlockRangeSize upperTen) ∧
        I32.ofExact overflowChecks (fromBlock + size) = some sum ∧
        I32.ofExact overflowChecks (sum - 1) = some last ∧
        toBlock = min last (min headLimit startLimit) := by
  simp only [scanRange, Option.bind_eq_bind, Option.bind_eq_some_iff] at computed
  obtain ⟨first, firstIs, headLimit, headIs, startLimit, startIs, upperTen, upperIs, sum, sumIs,
    last, lastIs, done⟩ := computed
  simp only [pure, Option.some.injEq, Prod.mk.injEq] at done
  obtain ⟨rfl, rfl, rfl⟩ := done
  exact ⟨firstIs, headLimit, startLimit, upperTen, sum, last, headIs, startIs, upperIs, rfl, sumIs,
    lastIs, rfl⟩

/-- The first block scanned is the one after the subgraph pointer, in every build, when the
pointer is a block below the chain head. -/
theorem scanRange_fromBlock {head : BlockPtr} {fromBlock toBlock size : Int}
    (computed : ctx.scanRange overflowChecks head = some (fromBlock, toBlock, size))
    (validHead : head.Valid)
    (behind : ∀ ptr ∈ ctx.currentBlock, ptr.Valid ∧ ptr.number < head.number) :
    fromBlock = ctx.currentBlock.elim 0 (·.number + 1) := by
  have first := (scanRange_eq_some computed).1
  cases current : ctx.currentBlock with
  | none => simp_all
  | some ptr =>
    obtain ⟨valid, below⟩ := behind ptr current
    have fits : I32.Fits (ptr.number + 1) :=
      fits_of_valid (by have := valid.1; omega) (by have := validHead.2; omega)
    simp only [current, Option.elim, I32.ofExact_of_fits _ fits, Option.some.injEq] at first
    exact first.symm

/-- With overflow checks a scanned range is computed exactly. -/
theorem scanRange_true_eq {head : BlockPtr} {fromBlock toBlock size : Int}
    (computed : ctx.scanRange true head = some (fromBlock, toBlock, size)) :
    fromBlock = ctx.currentBlock.elim 0 (·.number + 1) ∧
      I32.Fits (ctx.previousBlockRangeSize * 10) ∧
      size = ctx.rangeSize (min ctx.maxBlockRangeSize (ctx.previousBlockRangeSize * 10)) ∧
      toBlock = min (fromBlock + size - 1)
        (min (head.number - min ctx.reorgThreshold head.number)
          (nextStartBlock ctx.startBlocks fromBlock - 1)) := by
  obtain ⟨first, headLimit, startLimit, upperTen, sum, last, headIs, startIs, upperIs, sizeIs,
    sumIs, lastIs, toIs⟩ := scanRange_eq_some computed
  obtain ⟨-, rfl⟩ := I32.ofExact_true_eq_some headIs
  obtain ⟨-, rfl⟩ := I32.ofExact_true_eq_some startIs
  obtain ⟨fits, rfl⟩ := I32.ofExact_true_eq_some upperIs
  obtain ⟨-, rfl⟩ := I32.ofExact_true_eq_some sumIs
  obtain ⟨-, rfl⟩ := I32.ofExact_true_eq_some lastIs
  have exactFirst : fromBlock = ctx.currentBlock.elim 0 (·.number + 1) := by
    cases current : ctx.currentBlock with
    | none => simp_all
    | some ptr =>
      simp only [current, Option.elim] at first
      exact (I32.ofExact_true_eq_some first).2
  exact ⟨exactFirst, fits, sizeIs, toIs⟩

/-- The range size is between 1 and its upper limit. -/
theorem rangeSize_between {upperLimit : Int} (positive : 1 ≤ upperLimit)
    (fits : upperLimit ≤ I32.maxValue) :
    1 ≤ ctx.rangeSize upperLimit ∧ ctx.rangeSize upperLimit ≤ upperLimit := by
  unfold rangeSize
  split
  · exact ⟨positive, le_rfl⟩
  · have clamped := @F64.toInt_clamp 32 1 upperLimit
      (F64.div (F64.ofInt ctx.targetTriggersPerBlockRange) ctx.previousTriggersPerBlock)
      positive (by norm_num) (by simpa [I32.maxValue] using fits)
    simpa [F64.ofInt] using clamped

/-- With overflow checks, a scan's range size is at least 1. -/
theorem scanRange_true_rangeSize {head : BlockPtr} {fromBlock toBlock size : Int}
    (previous : 1 ≤ ctx.previousBlockRangeSize) (maximum : 1 ≤ ctx.maxBlockRangeSize)
    (computed : ctx.scanRange true head = some (fromBlock, toBlock, size)) : 1 ≤ size := by
  obtain ⟨-, fits, sizeIs, -⟩ := scanRange_true_eq computed
  rw [sizeIs]
  refine (rangeSize_between (by omega) ?_).1
  exact (min_le_right _ _).trans fits.2

/-- With overflow checks, a scan far from the head starts right after the pointer and covers a
nonempty range bounded by the reorg threshold and the next start block. -/
theorem scanRange_true_spec {head : BlockPtr} {fromBlock toBlock size : Int}
    (previous : 1 ≤ ctx.previousBlockRangeSize) (maximum : 1 ≤ ctx.maxBlockRangeSize)
    (far : ctx.FarFrom true head) (belowMax : head.number < blockNumberMax)
    (computed : ctx.scanRange true head = some (fromBlock, toBlock, size)) :
    fromBlock = ctx.currentBlock.elim 0 (·.number + 1) ∧ fromBlock ≤ toBlock ∧
      toBlock ≤ head.number - min ctx.reorgThreshold head.number ∧
      ∀ start ∈ ctx.startBlocks, fromBlock < start → toBlock < start := by
  obtain ⟨first, -, -, toIs⟩ := scanRange_true_eq computed
  have positive := scanRange_true_rangeSize previous maximum computed
  -- The reorg threshold leaves room past the pointer: that is what being far from the head means.
  have roomBeforeHead : fromBlock ≤ head.number - min ctx.reorgThreshold head.number := by
    cases current : ctx.currentBlock with
    | none =>
      simp only [current, Option.elim] at first
      omega
    | some ptr =>
      obtain ⟨-, behind, computedBehind, distance⟩ := far ptr current
      rw [(I32.ofExact_true_eq_some computedBehind).2] at distance
      simp only [current, Option.elim] at first
      omega
  have belowStart : fromBlock < nextStartBlock ctx.startBlocks fromBlock := by
    apply lt_nextStartBlock
    cases current : ctx.currentBlock with
    | none =>
      simp only [current, Option.elim] at first
      unfold blockNumberMax
      omega
    | some ptr =>
      have behind := (far ptr current).1
      simp only [current, Option.elim] at first
      omega
  refine ⟨first, by omega, by omega, fun start listed after => ?_⟩
  have := nextStartBlock_le listed after
  omega

/-- With overflow checks, a step that processes blocks has a range size of at least 1. -/
theorem getNextStep_true_rangeSize {blocks : List BlockWithTriggers} {size : Int}
    (previous : 1 ≤ ctx.previousBlockRangeSize) (maximum : 1 ≤ ctx.maxBlockRangeSize)
    (computed : (ctx.getNextStep true chain).run =
      some (.ok (.processDescendantBlocks blocks size))) :
    1 ≤ size := by
  obtain ⟨head, -, -, ⟨fromBlock, toBlock, ranged, -⟩ | ⟨_, _, _, _, -, -, -, -, -, rfl⟩⟩ :=
    getNextStep_processDescendantBlocks computed
  · exact scanRange_true_rangeSize previous maximum ranged
  · exact le_rfl

end PollingBlockStreamContext

/-! ## The loop of `poll_next` taken apart -/

namespace PollingBlockStream

variable {overflowChecks : Bool} {stream next : PollingBlockStream} {output : Output}

/-- The maximum range size only ever shrinks to 10 or more. -/
theorem reducedMaxBlockRangeSize_cases {maxBlockRangeSize : Int}
    (computed : stream.reducedMaxBlockRangeSize overflowChecks = some maxBlockRangeSize) :
    maxBlockRangeSize = stream.ctx.maxBlockRangeSize ∨ 10 ≤ maxBlockRangeSize := by
  unfold reducedMaxBlockRangeSize at computed
  split at computed
  · obtain ⟨_, -, rfl⟩ := Option.map_eq_some_iff.mp computed
    exact .inr (le_max_right _ _)
  · exact .inl (Option.some.inj computed).symm

/-- What `reconciled` does with each step. -/
theorem reconciled_cases {step : ReconciliationStep}
    (computed : stream.reconciled overflowChecks step = some (next, output)) :
    (∃ blocks size maxBlockRangeSize, step = .processDescendantBlocks blocks size ∧
        output = .continue ∧
        stream.reducedMaxBlockRangeSize overflowChecks = some maxBlockRangeSize ∧
        next = ⟨.yieldingBlocks blocks, 0, { stream.ctx with
          maxBlockRangeSize
          previousTriggersPerBlock :=
            F64.div (.ofInt (blocks.map (·.triggerCount)).sum) (.ofInt size)
          previousBlockRangeSize := size }⟩) ∨
      (step = .done ∧ output = .continue ∧
        next = { stream with state := .idle, consecutiveErrCount := 0 }) ∨
      (∃ parent, step = .revert parent ∧ output = .item (.ok (.revert parent)) ∧
        next = { stream with
          state := .beginReconciliation
          ctx := { stream.ctx with currentBlock := some parent } }) ∨
      (step = .retry ∧ output = .continue ∧ next = stream) := by
  cases step with
  | processDescendantBlocks blocks size =>
    simp only [reconciled, Option.bind_eq_bind, Option.bind_eq_some_iff] at computed
    obtain ⟨maxBlockRangeSize, reduced, done⟩ := computed
    simp only [pure, Option.some.injEq, Prod.mk.injEq] at done
    exact .inl ⟨blocks, size, maxBlockRangeSize, rfl, done.2.symm, reduced, done.1.symm⟩
  | done =>
    simp only [reconciled, Option.some.injEq, Prod.mk.injEq] at computed
    exact .inr (.inl ⟨rfl, computed.2.symm, computed.1.symm⟩)
  | revert parent =>
    simp only [reconciled, Option.some.injEq, Prod.mk.injEq] at computed
    exact .inr (.inr (.inl ⟨parent, rfl, computed.2.symm, computed.1.symm⟩))
  | retry =>
    simp only [reconciled, Option.some.injEq, Prod.mk.injEq] at computed
    exact .inr (.inr (.inr ⟨rfl, computed.2.symm, computed.1.symm⟩))

/-- A failed reconciliation keeps the subgraph pointer and the range sizes, and returns the
error. -/
theorem failed_eq {error : String}
    (computed : stream.failed overflowChecks error = some (next, output)) :
    output = .item (.error error) ∧ (∃ secs, next.state = .retryAfterDelay secs) ∧
      next.ctx = { stream.ctx with previousTriggersPerBlock := startingPreviousTriggersPerBlock } := by
  simp only [failed, Option.bind_eq_bind, Option.bind_eq_some_iff] at computed
  obtain ⟨_, -, _, -, done⟩ := computed
  simp only [pure, Option.some.injEq, Prod.mk.injEq] at done
  obtain ⟨rfl, rfl⟩ := done
  exact ⟨rfl, ⟨_, rfl⟩, rfl⟩

/-- Everything one iteration of `poll_next`'s loop can do. -/
theorem pollStep_cases {wake : Wake}
    (stepped : stream.pollStep overflowChecks wake = some (next, output)) :
    (stream.state = .beginReconciliation ∧ output = .continue ∧
        next = { stream with state := .reconciliation stream.ctx }) ∨
      (∃ ctx chain, stream.state = .reconciliation ctx ∧ wake = .ready chain ∧
        ((∃ error, (ctx.getNextStep overflowChecks chain).run = some (.error error) ∧
            stream.failed overflowChecks error = some (next, output)) ∨
          ∃ step, (ctx.getNextStep overflowChecks chain).run = some (.ok step) ∧
            stream.reconciled overflowChecks step = some (next, output))) ∨
      (∃ block blocks, stream.state = .yieldingBlocks (block :: blocks) ∧
        output = .item (.ok (.processBlock block)) ∧
        next = { stream with
          state := .yieldingBlocks blocks
          ctx := { stream.ctx with currentBlock := some block.ptr } }) ∨
      (output = .continue ∧ next = { stream with state := .beginReconciliation }) ∨
      (next = stream ∧ (output = .pending ∨ ∃ error, output = .item (.error error))) := by
  unfold pollStep at stepped
  split at stepped
  next started =>
    simp only [Option.some.injEq, Prod.mk.injEq] at stepped
    exact .inl ⟨started, stepped.2.symm, stepped.1.symm⟩
  next ctx chain reconciling =>
    refine .inr (.inl ⟨ctx, chain, reconciling, rfl, ?_⟩)
    split at stepped
    next => cases stepped
    next error failing => exact .inl ⟨error, failing, stepped⟩
    next step computed => exact .inr ⟨step, computed, stepped⟩
  next =>
    simp only [Option.some.injEq, Prod.mk.injEq] at stepped
    exact .inr (.inr (.inr (.inr ⟨stepped.1.symm, .inl stepped.2.symm⟩)))
  next =>
    simp only [Option.some.injEq, Prod.mk.injEq] at stepped
    exact .inr (.inr (.inr (.inl ⟨stepped.2.symm, stepped.1.symm⟩)))
  next block blocks yielding =>
    simp only [Option.some.injEq, Prod.mk.injEq] at stepped
    exact .inr (.inr (.inl ⟨block, blocks, yielding, stepped.2.symm, stepped.1.symm⟩))
  all_goals
    simp only [Option.some.injEq, Prod.mk.injEq] at stepped
    obtain ⟨rfl, rfl⟩ := stepped
    first
      | exact .inr (.inr (.inr (.inl ⟨rfl, rfl⟩)))
      | exact .inr (.inr (.inr (.inr ⟨rfl, .inl rfl⟩)))
      | exact .inr (.inr (.inr (.inr ⟨rfl, .inr ⟨_, rfl⟩⟩)))

/-- A reconciliation runs on the stream's own context, after every iteration. -/
theorem pollStep_reconciliation {wake : Wake}
    (own : ∀ {ctx}, stream.state = .reconciliation ctx → ctx = stream.ctx)
    (stepped : stream.pollStep overflowChecks wake = some (next, output))
    {ctx : PollingBlockStreamContext} (reconciling : next.state = .reconciliation ctx) :
    ctx = next.ctx := by
  rcases pollStep_cases stepped with
    ⟨-, -, rfl⟩ | ⟨_, _, -, -, ⟨error, -, failing⟩ | ⟨step, -, computed⟩⟩ |
      ⟨_, _, -, -, rfl⟩ | ⟨-, rfl⟩ | ⟨rfl, -⟩
  · exact (BlockStreamState.reconciliation.inj reconciling).symm
  · obtain ⟨-, ⟨secs, waiting⟩, -⟩ := failed_eq failing
    simp [waiting] at reconciling
  · rcases reconciled_cases computed with
      ⟨_, _, _, -, -, -, rfl⟩ | ⟨-, -, rfl⟩ | ⟨_, -, -, rfl⟩ | ⟨-, -, rfl⟩
    · simp at reconciling
    · simp at reconciling
    · simp at reconciling
    · exact own reconciling
  · simp at reconciling
  · simp at reconciling
  · exact own reconciling

/-- The start blocks and the reorg threshold never change. -/
theorem pollStep_frame {wake : Wake}
    (stepped : stream.pollStep overflowChecks wake = some (next, output)) :
    next.ctx.startBlocks = stream.ctx.startBlocks ∧
      next.ctx.reorgThreshold = stream.ctx.reorgThreshold := by
  rcases pollStep_cases stepped with
    ⟨-, -, rfl⟩ | ⟨_, _, -, -, ⟨error, -, failing⟩ | ⟨step, -, computed⟩⟩ |
      ⟨_, _, -, -, rfl⟩ | ⟨-, rfl⟩ | ⟨rfl, -⟩
  · exact ⟨rfl, rfl⟩
  · obtain ⟨-, -, ctxIs⟩ := failed_eq failing
    simp [ctxIs]
  · rcases reconciled_cases computed with
      ⟨_, _, _, -, -, -, rfl⟩ | ⟨-, -, rfl⟩ | ⟨_, -, -, rfl⟩ | ⟨-, -, rfl⟩ <;> exact ⟨rfl, rfl⟩
  all_goals exact ⟨rfl, rfl⟩

theorem run_cons_of_panic {wake : Wake} {wakes : List Wake}
    (panics : stream.pollStep overflowChecks wake = none) :
    stream.run overflowChecks (wake :: wakes) = ([], none) := by
  simp [run, panics]

theorem run_cons_of_step {wake : Wake} {wakes : List Wake}
    (stepped : stream.pollStep overflowChecks wake = some (next, output)) :
    stream.run overflowChecks (wake :: wakes) =
      (output :: (next.run overflowChecks wakes).1, (next.run overflowChecks wakes).2) := by
  simp [run, stepped]

end PollingBlockStream

end GraphNode
