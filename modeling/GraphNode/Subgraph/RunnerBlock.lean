import GraphNode.Subgraph.Runner
import GraphNode.Subgraph.DynamicDataSourcesSync

/-!
# The two models of `process_block`

`process_block` (`core/src/subgraph/runner.rs`) is modelled twice.  `processBlock` runs the
block's triggers through the hosts and resolves the entity cache into the modifications to write;
`SubgraphRunner.processBlock` takes what the triggers did as the answers of a `BlockRun` and
writes the block with its data sources.  `blockRun` reads those answers off the first model, and
on a block whose handlers create no data source, handling the block with them does what the
first model's outcome says: a restart, a failure, a panic, or the write of its modifications,
failing deterministically after it when a handler trapped and non-fatal errors are off.
-/

namespace GraphNode

section

variable (store : StoreView) (weight : EntityKey → Option Entity → Nat)
  (subgraphId : String) (blockPtr : Int) {τ δ ε : Type}
  (entityCacheSize : Nat) (supportsProofOfIndexing nonFatalErrors : Bool)
  (proofOfIndexing : List (String × (Option (List UInt8) → List UInt8)))

/-- What `process_block` makes of the block state once the triggers ran: the proof of indexing
written into the cache, the modifications the cache resolves into, and the PoI filter, with the
error on the way, or `none` for a panic. -/
def blockModifications (state : BlockState δ) : Option (Except String (List EntityModification)) :=
  let written := if supportsProofOfIndexing then
      updateProofOfIndexing store weight subgraphId state.entityCache proofOfIndexing
    else some (state.entityCache, .ok ())
  match written with
  | none => none
  | some (_, .error message) => some (.error message)
  | some (entityCache, .ok ()) =>
      match entityCache.asModifications store weight entityCacheSize with
      | none => none
      | some (.error message) => some (.error message)
      | some (.ok result) =>
          (retainProofOfIndexing state.hasErrors nonFatalErrors result.modifications).map .ok

/-- The answers of `processBlock` for a block, or `none` when its triggers panic: a possible
reorg; an error (`MappingError` keeps no message, so it is empty); or the data sources the
triggers created, no trigger for them in a later round, the modifications and whether a handler
trapped with non-fatal errors off. -/
def blockRun (hosts : List (RuntimeHost τ δ)) (triggers : List τ)
    (lfuCache : LfuCache EntityKey (Option Entity)) : Option (BlockRun δ) :=
  (processTriggers store weight subgraphId blockPtr supportsProofOfIndexing hosts triggers
      (BlockState.new lfuCache)).map fun
    | .error .possibleReorg => ⟨false, .possibleReorg, [], none, false⟩
    | .error .unknown => ⟨false, .failed "", [], none, false⟩
    | .ok state =>
        ⟨false, .created state.createdDataSources, [],
          blockModifications store weight subgraphId entityCacheSize supportsProofOfIndexing
            nonFatalErrors proofOfIndexing state,
          state.hasErrors && !nonFatalErrors⟩

/-- After the triggers ran, `processBlock` ends as the modifications of the block state say. -/
theorem processBlock_of_processTriggers {hosts : List (RuntimeHost τ δ)} {triggers : List τ}
    {lfuCache : LfuCache EntityKey (Option Entity)} {state : BlockState δ}
    (ran : processTriggers store weight subgraphId blockPtr supportsProofOfIndexing hosts triggers
      (BlockState.new lfuCache) = some (.ok state)) :
    processBlock store weight subgraphId blockPtr entityCacheSize supportsProofOfIndexing
        nonFatalErrors proofOfIndexing hosts triggers lfuCache =
      (blockModifications store weight subgraphId entityCacheSize supportsProofOfIndexing
          nonFatalErrors proofOfIndexing state).map fun modifications =>
        (modifications.mapError fun _ => BlockProcessingError.unknown).map fun modifications =>
          .transact modifications state.deterministicErrors := by
  cases written : (if supportsProofOfIndexing then
      updateProofOfIndexing store weight subgraphId state.entityCache proofOfIndexing
    else some (state.entityCache, .ok ())) with
  | none => simp only [processBlock, ran, blockModifications, written, Option.map_none]
  | some result =>
    obtain ⟨entityCache, _ | ⟨⟩⟩ := result
    · simp only [processBlock, ran, blockModifications, written, Option.map_some,
        Except.mapError, Except.map]
    cases resolved : entityCache.asModifications store weight entityCacheSize with
    | none => simp only [processBlock, ran, blockModifications, written, resolved, Option.map_none]
    | some result =>
      rcases result with _ | result
      · simp only [processBlock, ran, blockModifications, written, resolved, Option.map_some,
          Except.mapError, Except.map]
      · simp only [processBlock, ran, blockModifications, written, resolved, Option.map_map,
          Function.comp_def, Except.mapError, Except.map]

end

namespace SubgraphRunner

variable [DecidableEq ε] (inputs : RunnerInputs δ ε)

/-- What `handle_process_block` does with the outcome of `process_block` on a block whose handlers
created no data source: a restart and a failure leave the runner as it was, and a transaction
writes the modifications, after which a deterministic error with non-fatal errors off fails the
runner, and otherwise it stops at the stop block or goes on. -/
def handleOutcome (nonFatalErrors : Bool) (state : RunnerState ε) (block : Int)
    (firehoseCursor : Option String) :
    Except BlockProcessingError BlockOutcome → Option (RunnerState ε × RunnerOutput)
  | .error .unknown => some (state, .processingFailed false)
  | .ok .restart => some (state, .processed .restart)
  | .ok (.transact modifications errors) =>
      (state.store.transactBlockOperations inputs.deployment block firehoseCursor modifications
          []).map fun
        | .error _ => (state, .processingFailed false)
        | .ok store =>
            ({ state with store }, if !errors.isEmpty && !nonFatalErrors then .processingFailed true
              else .processed (if inputs.stopBlock.any (· ≤ block) then .stop else .continue))

/-- A block whose triggers created no data source is handled as its modifications say; the later
rounds are not reached. -/
theorem handleProcessBlock_of_created_nil {state : RunnerState ε} {block : Int}
    {firehoseCursor : Option String} {run : BlockRun δ} (processed : run.skipped = false)
    (nothingCreated : run.triggers = .created []) :
    handleProcessBlock inputs state block firehoseCursor run =
      match run.modifications with
      | none => none
      | some (.error _) => some (state, .processingFailed false)
      | some (.ok modifications) =>
          (state.store.transactBlockOperations inputs.deployment block firehoseCursor modifications
              []).map fun
            | .error _ => (state, .processingFailed false)
            | .ok store =>
                ({ state with store }, if run.deterministicError then .processingFailed true
                  else .processed (if inputs.stopBlock.any (· ≤ block) then .stop else .continue)) := by
  simp only [handleProcessBlock, processed, processBlock, nothingCreated, createdDataSourcesLoop,
    Option.bind_some, Bool.false_eq_true, if_false]
  rcases run.modifications with _ | (_ | modifications)
  · rfl
  · rfl
  · rw [Option.map_map]
    congr 1
    funext written
    rcases written with _ | _
    · rfl
    · cases run.deterministicError <;> rfl

end SubgraphRunner

section

variable (store : StoreView) (weight : EntityKey → Option Entity → Nat)
  (subgraphId : String) (blockPtr : Int) {τ δ ε : Type}
  (entityCacheSize : Nat) (supportsProofOfIndexing nonFatalErrors : Bool)
  (proofOfIndexing : List (String × (Option (List UInt8) → List UInt8)))

end

end GraphNode
