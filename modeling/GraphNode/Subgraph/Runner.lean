import GraphNode.Subgraph.BlockState
import GraphNode.Store.EntityCacheModifications
import GraphNode.Store.EntityCacheHandler

/-!
# Processing the triggers of a block

`SubgraphRunner::process_block` (`core/src/subgraph/runner.rs`) runs each trigger of a block
through the runtime hosts that match it (`process_trigger_in_runtime_hosts`,
`core/src/subgraph/instance.rs`); each host runs its handler in a handler scope of the block
state (`WasmInstance::invoke_handler`, `runtime/wasm/src/module/mod.rs`).  A deterministic trap
discards the handler's changes and records a `SubgraphError`; the other ways a handler fails end
the block with a `MappingError`.  Once the triggers ran, the proof of indexing is written into
the cache, the cache is resolved into modifications, and when an error happened and non-fatal
errors are off, only the modifications of the PoI entity are kept.

A host is its `match_and_decode`: the mapping trigger it decodes, if any, is the handler's name,
the calls the handler makes on the entity cache, the data sources it creates and how its WASM
call ends.  A panic (an `assert!`, an `unwrap`) is `none`.
-/

namespace GraphNode

/-- `MappingError`, without the error it carries. -/
inductive MappingError where
  | possibleReorg
  | unknown
  deriving DecidableEq, Repr

/-- How the WASM call of a handler ends, as the match in `invoke_handler` sorts it: a trap while
a reorg may have happened, a timeout, a deterministic trap (one of the listed trap codes, or a
host trap flagged deterministic) with its message, or any other trap. -/
inductive HandlerEnd where
  | completed
  | possibleReorg
  | timeout
  | deterministicTrap (message : String)
  | nonDeterministicTrap
  deriving DecidableEq, Repr

/-- The ending that `invoke_handler` records as a `SubgraphError`. -/
def HandlerEnd.isDeterministic : HandlerEnd → Bool
  | .deterministicTrap _ => true
  | _ => false

/-- A trigger as a host decoded it for its mapping. -/
structure MappingTrigger (δ : Type) where
  handler : String
  calls : List CacheCall
  dataSources : List δ
  ending : HandlerEnd

/-- A runtime host, as its `match_and_decode`: the trigger does not match (`none`), is decoded
for a handler, or fails to decode. -/
abbrev RuntimeHost (τ δ : Type) := τ → Except MappingError (Option (MappingTrigger δ))

/-- `BlockProcessingError`, without the error it carries. -/
inductive BlockProcessingError where
  | unknown
  deriving DecidableEq, Repr

/-- What `process_block` does with the block: restart the block stream, or transact the
modifications and record the deterministic errors. -/
inductive BlockOutcome where
  | restart
  | transact (modifications : List EntityModification) (errors : List SubgraphError)

/-- `POI_OBJECT`, the entity type of the proof of indexing. -/
def poiObject : String := "Poi$"

/-- `EntityType::is_poi` of a modification's key. -/
def EntityModification.isPoi (modification : EntityModification) : Bool :=
  modification.entityKey.entityType == poiObject

section

variable (store : StoreView) (weight : EntityKey → Option Entity → Nat)
  (subgraphId : String) (blockPtr : Int) {τ δ : Type}

/-- The handler's own work inside its scope: its calls on the entity cache and the data sources
it creates. -/
def runHandler (state : BlockState δ) (trigger : MappingTrigger δ) : Option (BlockState δ) :=
  (state.entityCache.run store weight trigger.calls).bind fun entityCache =>
    trigger.dataSources.foldlM BlockState.pushCreatedDataSource { state with entityCache }

/-- `WasmInstance::invoke_handler`: every way out of the call closes the handler scope, and only
a deterministic trap keeps the block going with the handler's changes discarded. -/
def invokeHandler (state : BlockState δ) (trigger : MappingTrigger δ) :
    Option (Except MappingError (BlockState δ)) :=
  (state.enterHandler.bind fun entered => runHandler store weight entered trigger).bind fun ran =>
    match trigger.ending with
    | .completed => ran.exitHandler.map .ok
    | .possibleReorg => ran.exitHandler.map fun _ => .error .possibleReorg
    | .timeout => ran.exitHandler.map fun _ => .error .unknown
    | .nonDeterministicTrap => ran.exitHandler.map fun _ => .error .unknown
    | .deterministicTrap message =>
        (ran.exitHandlerAndDiscardChangesDueToError
          ⟨subgraphId, message, some blockPtr, some trigger.handler, true⟩).map .ok

/-- The loop of `process_trigger_in_runtime_hosts` over the hosts, in order; a host that fails
to decode or whose handler fails ends the loop with its error. -/
def runHosts (trigger : τ) :
    List (RuntimeHost τ δ) → BlockState δ → Option (Except MappingError (BlockState δ))
  | [], state => some (.ok state)
  | host :: hosts, state =>
      match host trigger with
      | .error error => some (.error error)
      | .ok none => runHosts trigger hosts state
      | .ok (some mappingTrigger) =>
          (invokeHandler store weight subgraphId blockPtr state mappingTrigger).bind fun
            | .error error => some (.error error)
            | .ok state => runHosts trigger hosts state

/-- `process_trigger_in_runtime_hosts`: with a proof of indexing, the trigger may add at most one
deterministic error, as the `assert!` after the loop demands. -/
def processTriggerInRuntimeHosts (proofOfIndexing : Bool) (hosts : List (RuntimeHost τ δ))
    (trigger : τ) (state : BlockState δ) : Option (Except MappingError (BlockState δ)) :=
  let errorCount := state.deterministicErrors.length
  (runHosts store weight subgraphId blockPtr trigger hosts state).bind fun
    | .error error => some (.error error)
    | .ok state =>
        if proofOfIndexing ∧ state.deterministicErrors.length ≠ errorCount then
          if state.deterministicErrors.length = errorCount + 1 then some (.ok state) else none
        else some (.ok state)

/-- `process_triggers`: the triggers one after the other on one block state. -/
def processTriggers (proofOfIndexing : Bool) (hosts : List (RuntimeHost τ δ)) :
    List τ → BlockState δ → Option (Except MappingError (BlockState δ))
  | [], state => some (.ok state)
  | trigger :: triggers, state =>
      (processTriggerInRuntimeHosts store weight subgraphId blockPtr proofOfIndexing hosts trigger
          state).bind fun
        | .error error => some (.error error)
        | .ok state => processTriggers proofOfIndexing hosts triggers state

/-- One causality region of `update_proof_of_indexing`: the digest stored on the region's PoI
entity is read through the cache, the region's stream is finished on it (`pause`) and the new
digest is set.  A stored PoI entity without a bytes digest is the `panic!`; `none` is also a
panic of the cache. -/
def updateRegionProofOfIndexing (cache : EntityCache) (region : String)
    (pause : Option (List UInt8) → List UInt8) : Option (EntityCache × Except String Unit) :=
  let key : EntityKey := ⟨subgraphId, poiObject, region⟩
  match cache.get store weight key with
  | none => none
  | some (cache, .error message) => some (cache, .error message)
  | some (cache, .ok stored) =>
      let previous : Option (Option (List UInt8)) := match stored with
        | none => some none
        | some entity => match entity["digest"]? with
          | some (.bytes digest) => some (some digest)
          | _ => none
      previous.bind fun previous =>
        cache.set store weight key
          (((∅ : Entity).insert "id" (.string region)).insert "digest" (.bytes (pause previous)))

/-- `update_proof_of_indexing`: every causality region of the proof of indexing, stopping at the
first error. -/
def updateProofOfIndexing (cache : EntityCache) :
    List (String × (Option (List UInt8) → List UInt8)) → Option (EntityCache × Except String Unit)
  | [] => some (cache, .ok ())
  | (region, pause) :: regions =>
      (updateRegionProofOfIndexing store weight subgraphId cache region pause).bind fun
        | (cache, .error message) => some (cache, .error message)
        | (cache, .ok ()) => updateProofOfIndexing cache regions

/-- The filter of `process_block` after an error with non-fatal errors off: only the PoI
modifications are kept, and there must be exactly one. -/
def retainProofOfIndexing (hasErrors nonFatalErrors : Bool)
    (modifications : List EntityModification) : Option (List EntityModification) :=
  if hasErrors ∧ !nonFatalErrors then
    let kept := modifications.filter EntityModification.isPoi
    if kept.length = 1 then some kept else none
  else some modifications

/-- `process_block` up to the write: the triggers of the block, then the proof of indexing (one
stream per causality region, when the store supports it), the modifications of the cache and the
PoI filter.  The data sources the handlers create are left in the block state. -/
def processBlock (entityCacheSize : Nat) (supportsProofOfIndexing nonFatalErrors : Bool)
    (proofOfIndexing : List (String × (Option (List UInt8) → List UInt8)))
    (hosts : List (RuntimeHost τ δ)) (triggers : List τ)
    (lfuCache : LfuCache EntityKey (Option Entity)) :
    Option (Except BlockProcessingError BlockOutcome) :=
  match processTriggers store weight subgraphId blockPtr supportsProofOfIndexing hosts triggers
      (BlockState.new lfuCache) with
  | none => none
  | some (.error .unknown) => some (.error .unknown)
  -- a possible reorg restarts the block stream without writing anything
  | some (.error .possibleReorg) => some (.ok .restart)
  | some (.ok state) =>
      let written := if supportsProofOfIndexing then
          updateProofOfIndexing store weight subgraphId state.entityCache proofOfIndexing
        else some (state.entityCache, .ok ())
      match written with
      | none => none
      | some (_, .error _) => some (.error .unknown)
      | some (entityCache, .ok ()) =>
          match entityCache.asModifications store weight entityCacheSize with
          | none => none
          | some (.error _) => some (.error .unknown)
          | some (.ok result) =>
              (retainProofOfIndexing state.hasErrors nonFatalErrors result.modifications).map
                fun modifications => .ok (.transact modifications state.deterministicErrors)

/-! ## Deterministic errors per trigger -/

/-- Whether a host decodes the trigger for a handler that traps deterministically. -/
def trapsDeterministically (trigger : τ) (host : RuntimeHost τ δ) : Bool :=
  match host trigger with
  | .ok (some mappingTrigger) => mappingTrigger.ending.isDeterministic
  | _ => false

theorem deterministicErrors_of_runHandler {state ran : BlockState δ} {trigger : MappingTrigger δ}
    (worked : runHandler store weight state trigger = some ran) :
    ran.deterministicErrors = state.deterministicErrors := by
  rw [runHandler, Option.bind_eq_some_iff] at worked
  obtain ⟨_, _, created⟩ := worked
  rw [BlockState.deterministicErrors_of_pushes created]

/-- A handler that only calls host exports runs to its end: its data sources join the
handler's. -/
theorem runHandler_hostExports {state : BlockState δ} (inside : state.inHandler = true)
    {trigger : MappingTrigger δ} (hosts : ∀ call ∈ trigger.calls, call.isHostExport) :
    ∃ ran, runHandler store weight state trigger = some ran ∧ ran.inHandler = true ∧
      ran.entityCache.inHandler = state.entityCache.inHandler ∧
      ran.createdDataSources = state.createdDataSources ∧
      ran.handlerCreatedDataSources = state.handlerCreatedDataSources ++ trigger.dataSources := by
  obtain ⟨current, ranCache⟩ := EntityCache.run_hostExports store weight state.entityCache hosts
  obtain ⟨pushed, created, stillInside, sameCache, sameCreated, appended⟩ :=
    @BlockState.pushes_of_inHandler δ { state with
      entityCache := { (trigger.calls.flatMap (CacheCall.issued store)).foldl
        (fun cache entry => cache.entityOp entry.1 entry.2) state.entityCache with current } }
      inside trigger.dataSources
  refine ⟨pushed, ?_, stillInside, by simp [sameCache], sameCreated, appended⟩
  rw [runHandler, ranCache, Option.bind_some]
  exact created

/-- The step lemma: a handler that returns to the block adds at most one error, and only when it
traps deterministically. -/
theorem invokeHandler_deterministicErrors {state final : BlockState δ}
    {trigger : MappingTrigger δ}
    (invoked : invokeHandler store weight subgraphId blockPtr state trigger = some (.ok final)) :
    ∃ added, final.deterministicErrors = state.deterministicErrors ++ added ∧
      added.length ≤ if trigger.ending.isDeterministic then 1 else 0 := by
  rw [invokeHandler, Option.bind_eq_some_iff] at invoked
  obtain ⟨ran, worked, ended⟩ := invoked
  rw [Option.bind_eq_some_iff] at worked
  obtain ⟨entered, opened, worked⟩ := worked
  have unchanged : ran.deterministicErrors = state.deterministicErrors := by
    rw [deterministicErrors_of_runHandler store weight worked,
      BlockState.deterministicErrors_of_enterHandler opened]
  cases ending : trigger.ending with
  | completed =>
      rw [ending, Option.map_eq_some_iff] at ended
      obtain ⟨exited, closed, same⟩ := ended
      cases same
      exact ⟨[], by rw [BlockState.deterministicErrors_of_exitHandler closed, unchanged,
        List.append_nil], by simp⟩
  | deterministicTrap message =>
      rw [ending, Option.map_eq_some_iff] at ended
      obtain ⟨exited, closed, same⟩ := ended
      cases same
      exact ⟨_, by rw [BlockState.deterministicErrors_of_discard closed, unchanged],
        by simp [HandlerEnd.isDeterministic]⟩
  | possibleReorg | timeout | nonDeterministicTrap =>
      rw [ending, Option.map_eq_some_iff] at ended
      obtain ⟨_, _, same⟩ := ended
      cases same

/-- The run lemma over the hosts: the errors a trigger adds number at most the hosts that trap
deterministically on it, by induction on the hosts. -/
theorem runHosts_deterministicErrors (trigger : τ) :
    ∀ (hosts : List (RuntimeHost τ δ)) (state final : BlockState δ),
      runHosts store weight subgraphId blockPtr trigger hosts state = some (.ok final) →
      ∃ added, final.deterministicErrors = state.deterministicErrors ++ added ∧
        added.length ≤ hosts.countP (trapsDeterministically trigger)
  | [], state, final, ran => by
      cases ran
      exact ⟨[], by simp, by simp⟩
  | host :: hosts, state, final, ran => by
      rw [List.countP_cons]
      simp only [runHosts] at ran
      cases decoded : host trigger with
      | error error =>
          rw [decoded] at ran
          cases ran
      | ok mappingTrigger =>
          rw [decoded] at ran
          cases mappingTrigger with
          | none =>
              obtain ⟨added, grown, bound⟩ := runHosts_deterministicErrors trigger hosts state final ran
              exact ⟨added, grown, by omega⟩
          | some mappingTrigger =>
              rw [Option.bind_eq_some_iff] at ran
              obtain ⟨result, invoked, ran⟩ := ran
              cases result with
              | error error => cases ran
              | ok next =>
                  obtain ⟨first, grownFirst, boundFirst⟩ :=
                    invokeHandler_deterministicErrors store weight subgraphId blockPtr invoked
                  obtain ⟨rest, grownRest, boundRest⟩ :=
                    runHosts_deterministicErrors trigger hosts next final ran
                  have counted : trapsDeterministically trigger host =
                      mappingTrigger.ending.isDeterministic := by
                    simp [trapsDeterministically, decoded]
                  refine ⟨first ++ rest, by rw [grownRest, grownFirst, List.append_assoc], ?_⟩
                  rw [List.length_append, counted]
                  cases deterministic : mappingTrigger.ending.isDeterministic <;>
                    simp only [deterministic, Bool.false_eq_true, ↓reduceIte] at boundFirst ⊢ <;>
                    omega

/-- When at most one host traps deterministically on a trigger, the `assert!` of
`process_trigger_in_runtime_hosts` holds: the trigger is the loop over its hosts. -/
theorem processTriggerInRuntimeHosts_eq_runHosts (proofOfIndexing : Bool)
    {hosts : List (RuntimeHost τ δ)} {trigger : τ}
    (atMostOne : hosts.countP (trapsDeterministically trigger) ≤ 1) (state : BlockState δ) :
    processTriggerInRuntimeHosts store weight subgraphId blockPtr proofOfIndexing hosts trigger
        state =
      runHosts store weight subgraphId blockPtr trigger hosts state := by
  simp only [processTriggerInRuntimeHosts]
  cases ran : runHosts store weight subgraphId blockPtr trigger hosts state with
  | none => rfl
  | some result =>
      cases result with
      | error error => rfl
      | ok final =>
          obtain ⟨added, grown, bound⟩ :=
            runHosts_deterministicErrors store weight subgraphId blockPtr trigger hosts state final
              ran
          have lengths : final.deterministicErrors.length =
              state.deterministicErrors.length + added.length := by
            rw [grown, List.length_append]
          simp only [Option.bind_some]
          split
          next changed => rw [if_pos (by have := changed.2; omega)]
          next => rfl

end

/-! ## Deterministic errors that crash the block -/

/-- A host whose handler traps deterministically on every trigger, before any call. -/
def trappingHost : RuntimeHost Unit Unit :=
  fun _ => .ok (some ⟨"handleTransfer", [], [], .deterministicTrap "unreachable"⟩)

/-- A store without entities. -/
def emptyStore : StoreView :=
  StoreView.ofState "deployment" (fun _ => none) (fun key => .ok (.string key.entityId))
    (fun _ => false) (fun _ _ => .ok ())

/-- One trapping host keeps the `assert!` of `process_trigger_in_runtime_hosts`. -/
theorem processTriggerInRuntimeHosts_eq_runHosts_trapping :
    [trappingHost].countP (trapsDeterministically ()) ≤ 1 ∧
      processTriggerInRuntimeHosts emptyStore (fun _ _ => 1) "deployment" 1 true [trappingHost] ()
          (BlockState.new LfuCache.new) =
        runHosts emptyStore (fun _ _ => 1) "deployment" 1 () [trappingHost]
          (BlockState.new LfuCache.new) :=
  ⟨by decide, processTriggerInRuntimeHosts_eq_runHosts emptyStore (fun _ _ => 1) "deployment" 1
    true (by decide) _⟩

/-- Two hosts trapping on one trigger fail the `assert!` of `process_trigger_in_runtime_hosts`,
and without a PoI table that of `process_block`. -/
theorem deterministic_traps_panic_processBlock :
    processTriggerInRuntimeHosts emptyStore (fun _ _ => 1) "deployment" 1 true
        [trappingHost, trappingHost] () (BlockState.new LfuCache.new) = none ∧
      processBlock emptyStore (fun _ _ => 1) "deployment" 1 0 true false
        [("ethereum/mainnet", fun _ => [])] [trappingHost, trappingHost] [()] LfuCache.new =
          none ∧
      processBlock emptyStore (fun _ _ => 1) "deployment" 1 0 false false []
        [trappingHost] [()] LfuCache.new = none :=
  ⟨rfl, rfl, rfl⟩

/-! ## Handler scopes -/

section

variable (store : StoreView) (weight : EntityKey → Option Entity → Nat) {δ : Type}

/-- A handler scope is atomic: discarded, it leaves the cache's updates as they were; exited, it
leaves what its calls would leave made outside a handler. -/
theorem handler_scope_atomic {current : LfuCache EntityKey (Option Entity)}
    {earlier : List CacheCall} {cache : EntityCache}
    (reached : (EntityCache.withCurrent current).run store weight earlier = some cache)
    (closed : cache.inHandler = false) {calls : List CacheCall}
    (hosts : ∀ call ∈ calls, call.isHostExport) :
    (∃ discarded, cache.run store weight
        (.enterHandler :: calls ++ [.exitHandlerAndDiscardChanges]) = some discarded ∧
      discarded.updates = cache.updates) ∧
    (∃ handled direct, cache.run store weight (.enterHandler :: calls ++ [.exitHandler]) =
        some handled ∧ cache.run store weight calls = some direct ∧
      ∀ key, opFor handled.updates key = opFor direct.updates key) ∧
    ∀ (state : BlockState δ) (trigger : MappingTrigger δ), state.entityCache = cache →
      state.inHandler = false → trigger.calls = calls →
      (∀ error, ∃ discarded, ((state.enterHandler.bind fun entered =>
          runHandler store weight entered trigger).bind fun ran =>
            ran.exitHandlerAndDiscardChangesDueToError error) = some discarded ∧
        discarded.createdDataSources = state.createdDataSources) ∧
      ∃ exited, ((state.enterHandler.bind fun entered =>
          runHandler store weight entered trigger).bind BlockState.exitHandler) = some exited ∧
        exited.createdDataSources = state.createdDataSources ++ trigger.dataSources := by
  have simulates := (Simulates.withCurrent current).run reached
  have drained := (EntityCache.drained_withCurrent current).run store weight reached
  refine ⟨EntityCache.run_discard_updates store weight cache closed hosts,
    EntityCache.run_exitHandler_opFor store weight cache closed drained
      simulates.updates.distinct hosts, ?_⟩
  intro state trigger sameCache stateClosed sameCalls
  obtain ⟨entered, opened, inside, enteredCache, enteredCreated, enteredHandler⟩ :=
    BlockState.enterHandler_of_closed stateClosed (by rw [sameCache]; exact closed)
  obtain ⟨ran, worked, ranInside, ranCache, ranCreated, ranHandler⟩ :=
    runHandler_hostExports store weight inside (by rw [sameCalls]; exact hosts)
  have cacheInside : ran.entityCache.inHandler = true := by
    rw [ranCache, enteredCache]
  have pending := state.drained stateClosed
  rw [opened, Option.bind_some, worked]
  simp only [Option.bind_some]
  constructor
  · intro error
    obtain ⟨discarded, dropped, discardedCreated⟩ :=
      BlockState.discard_createdDataSources ranInside cacheInside error
    exact ⟨discarded, dropped, by rw [discardedCreated, ranCreated, enteredCreated]⟩
  · obtain ⟨exited, closedAgain, exitedCreated⟩ :=
      BlockState.exitHandler_createdDataSources ranInside cacheInside
    refine ⟨exited, closedAgain, ?_⟩
    rw [exitedCreated, ranCreated, ranHandler, enteredCreated, enteredHandler, pending,
      List.nil_append]

end

/-- The calls of a handler that removes one entity. -/
def removeThing : List CacheCall := [.remove resetKey]

/-- One removal in a handler that creates one data source, from a fresh cache. -/
theorem handler_scope_atomic_removeThing :
    ((EntityCache.withCurrent LfuCache.new).run emptyStore (fun _ _ => 1) [] =
        some (EntityCache.withCurrent LfuCache.new) ∧
      (EntityCache.withCurrent LfuCache.new).inHandler = false ∧
      ∀ call ∈ removeThing, call.isHostExport) ∧
    ((∃ discarded, (EntityCache.withCurrent LfuCache.new).run emptyStore (fun _ _ => 1)
        (.enterHandler :: removeThing ++ [.exitHandlerAndDiscardChanges]) = some discarded ∧
      discarded.updates = (EntityCache.withCurrent LfuCache.new).updates) ∧
    (∃ handled direct, (EntityCache.withCurrent LfuCache.new).run emptyStore (fun _ _ => 1)
        (.enterHandler :: removeThing ++ [.exitHandler]) = some handled ∧
      (EntityCache.withCurrent LfuCache.new).run emptyStore (fun _ _ => 1) removeThing =
        some direct ∧
      ∀ key, opFor handled.updates key = opFor direct.updates key) ∧
    ∀ (state : BlockState Unit) (trigger : MappingTrigger Unit),
      state.entityCache = EntityCache.withCurrent LfuCache.new →
      state.inHandler = false → trigger.calls = removeThing →
      (∀ error, ∃ discarded, ((state.enterHandler.bind fun entered =>
          runHandler emptyStore (fun _ _ => 1) entered trigger).bind fun ran =>
            ran.exitHandlerAndDiscardChangesDueToError error) = some discarded ∧
        discarded.createdDataSources = state.createdDataSources) ∧
      ∃ exited, ((state.enterHandler.bind fun entered =>
          runHandler emptyStore (fun _ _ => 1) entered trigger).bind BlockState.exitHandler) =
            some exited ∧
        exited.createdDataSources = state.createdDataSources ++ trigger.dataSources) :=
  ⟨⟨rfl, rfl, by decide⟩, @handler_scope_atomic emptyStore (fun _ _ => 1) Unit LfuCache.new [] _
    rfl rfl removeThing (by decide)⟩

end GraphNode
