import GraphNode.Subgraph.BlockState
import GraphNode.Subgraph.DynamicDataSourcesSync
import GraphNode.Blockchain.FirehoseBlockStream

/-!
# Unfailing a deployment when its runner starts

A block whose handlers fail deterministically is written all the same, with the data sources
they created, and `handle_process_block` then records the error as the deployment's fatal error
(`fail_subgraph`).  When the runner starts again, `start_subgraph_inner` builds the hosts from the
data sources stored, and only then does `SubgraphRunner::run` call `unfail_deterministic_error`,
which reverts a deployment whose fatal error is at its head to the head's parent, deleting the
data sources the head created (`DeploymentStore::unfail_deterministic_error`).

So the restarted runner holds hosts for data sources its store no longer has.  When the block is
processed again its handlers create them again, `add_dynamic_data_source` finds each duplicated by
the host it already has, and none is written: a later restart loses them.
-/

namespace GraphNode

variable {δ ι : Type}

/-! ## The deployment's errors -/

/-- `SubgraphHealth`. -/
inductive SubgraphHealth where
  | healthy
  | unhealthy
  | failed
  deriving DecidableEq, Repr

/-- `UnfailOutcome`. -/
inductive UnfailOutcome where
  | noop
  | unfailed
  deriving DecidableEq, Repr

/-- `BLOCK_UNVERSIONED`. -/
def blockUnversioned : Int := -1

/-- What `subgraph_deployment` and `subgraph_error` keep of a deployment's errors: its health, the
error its `fatal_error` names, and its rows of `subgraph_error`.  The id of an error is the stable
hash of its fields, so an error stands for its id. -/
structure DeploymentErrors where
  health : SubgraphHealth
  fatalError : Option SubgraphError
  errors : List SubgraphError
  deriving DecidableEq, Repr

namespace DeploymentErrors

/-- The lower bound of the block range `insert_subgraph_error` gives an error. -/
def blockNum (error : SubgraphError) : Int :=
  error.blockPtr.getD blockUnversioned

/-- `insert_subgraph_error`: it asserts that an error without a block is not deterministic, and
does nothing for an error that is there already. -/
def insertSubgraphError (errors : DeploymentErrors) (error : SubgraphError) :
    Option DeploymentErrors :=
  if error.blockPtr.isNone && error.deterministic then none
  else some { errors with
    errors := if error ∈ errors.errors then errors.errors else errors.errors ++ [error] }

/-- `update_deployment_status`. -/
def updateDeploymentStatus (errors : DeploymentErrors) (health : SubgraphHealth)
    (fatalError : Option SubgraphError) : DeploymentErrors :=
  { errors with health, fatalError }

/-- `deployment::fail`: the error is inserted and becomes the fatal error of a failed
deployment. -/
def fail (errors : DeploymentErrors) (error : SubgraphError) : Option DeploymentErrors := do
  let errors ← errors.insertSubgraphError error
  pure (errors.updateDeploymentStatus .failed (some error))

/-- `has_non_fatal_errors` at a block: a deterministic error whose block range holds the
block. -/
def hasNonFatalErrors (errors : DeploymentErrors) (block : Int) : Bool :=
  errors.errors.any fun error => error.deterministic && blockNum error ≤ block

/-- `check_health`: a healthy deployment with errors at the block becomes unhealthy and an
unhealthy one without becomes healthy; a failed one stays failed. -/
def checkHealth (errors : DeploymentErrors) (block : Int) : DeploymentErrors :=
  let (new, old) : SubgraphHealth × SubgraphHealth :=
    if errors.hasNonFatalErrors block then (.unhealthy, .healthy) else (.healthy, .unhealthy)
  if errors.health = old then { errors with health := new } else errors

/-- `revert_subgraph_errors`: the errors from `reverted_block` on are deleted, and the health is
checked at the block before. -/
def revertSubgraphErrors (errors : DeploymentErrors) (revertedBlock : Int) : DeploymentErrors :=
  let kept := errors.errors.filter fun error => blockNum error < revertedBlock
  checkHealth { errors with errors := kept } (revertedBlock - 1)

/-- `ErrorDetail::fatal`: the error `fatal_error` names, joined with the rows of
`subgraph_error`. -/
def fatal (errors : DeploymentErrors) : Option SubgraphError :=
  errors.fatalError.filter fun error => error ∈ errors.errors

/-- An error `fail` records is the deployment's fatal error. -/
theorem fail_fatal {errors failed : DeploymentErrors} {error : SubgraphError}
    (recorded : errors.fail error = some failed) : failed.fatal = some error := by
  unfold fail insertSubgraphError at recorded
  split at recorded
  · cases recorded
  · obtain rfl := Option.some.inj recorded
    have listed : error ∈ (if error ∈ errors.errors then errors.errors
        else errors.errors ++ [error]) := by
      split
      · assumption
      · exact List.mem_append_right _ (List.mem_singleton_self error)
    simp [fatal, updateDeploymentStatus, listed]

end DeploymentErrors

/-! ## The store's side of the unfail -/

/-- `WritableStore::new`: the block pointer and cursor kept in memory start as the
deployment's. -/
def WritableStore.new (store : DeploymentState) : WritableStore :=
  ⟨store.head, store.firehoseCursor, store⟩

namespace SubgraphStore

/-- `SubgraphStore::writable`, as `start_subgraph_inner` calls it: a new `WritableStore` over the
deployment. -/
def openWritable (store : SubgraphStore δ) : SubgraphStore δ :=
  { store with writable := WritableStore.new store.writable.store }

/-- `DeploymentStore::revert_block_operations` as `unfail_deterministic_error` calls it: the
deployment rewinds, and `Layout::revert_metadata` deletes the data sources and the errors
recorded after the block.  The block pointer kept in memory stays. -/
def revertDeployment (store : SubgraphStore δ) (errors : DeploymentErrors) (deployment : String)
    (blockPtrTo : Int) (firehoseCursor : Option String) :
    Option (Except StoreError (SubgraphStore δ × DeploymentErrors)) :=
  (store.writable.store.revertBlockOperations deployment blockPtrTo firehoseCursor).map fun
    | .error error => .error error
    | .ok deployed =>
      .ok ({ writable := { store.writable with store := deployed }
             dynamicDataSources := Dynds.revert store.dynamicDataSources (blockPtrTo + 1) },
        errors.revertSubgraphErrors (blockPtrTo + 1))

/-- `WritableStore::unfail_deterministic_error` over `DeploymentStore::unfail_deterministic_error`:
a deployment whose fatal error is deterministic and at the head `current_ptr` reverts to
`parent_ptr`, with the cursor reset to the empty string, and its health becomes what the errors
at the parent say; the block pointer kept in memory follows.  Anything else is a no-op. -/
def unfailDeterministicError (store : SubgraphStore δ) (errors : DeploymentErrors)
    (deployment : String) (currentPtr parentPtr : Int) :
    Option (Except StoreError (SubgraphStore δ × DeploymentErrors × UnfailOutcome)) :=
  match errors.fatal with
  | none => some (.ok (store, errors, .noop))
  | some subgraphError =>
    if !subgraphError.deterministic then some (.ok (store, errors, .noop))
    else
      let prevHealth : SubgraphHealth :=
        if errors.hasNonFatalErrors parentPtr then .unhealthy else .healthy
      -- the error's block hash against the head's: a block pointer is its number here
      if subgraphError.blockPtr = some currentPtr then
        (store.revertDeployment errors deployment parentPtr (some "")).map fun
          | .error error => .error error
          | .ok (reverted, errors) =>
            .ok ({ reverted with writable := { reverted.writable with blockPtr := some parentPtr } },
              errors.updateDeploymentStatus prevHealth none, .unfailed)
      else some (.ok (store, errors, .noop))

variable {store store' : SubgraphStore δ} {errors errors' : DeploymentErrors}
  {deployment : String}

/-- A revert of the deployment moves the head and deletes the later data sources, but leaves the
block pointer and cursor in memory. -/
theorem revertDeployment_eq_ok {blockPtrTo : Int} {firehoseCursor : Option String}
    (reverted : store.revertDeployment errors deployment blockPtrTo firehoseCursor =
      some (.ok (store', errors'))) :
    store'.writable.blockPtr = store.writable.blockPtr ∧
      store'.writable.store.head = some blockPtrTo ∧
      store'.dynamicDataSources = Dynds.revert store.dynamicDataSources (blockPtrTo + 1) ∧
      store'.writable.blockCursor = store.writable.blockCursor ∧
      store'.writable.store.firehoseCursor =
        firehoseCursor.or store.writable.store.firehoseCursor := by
  unfold revertDeployment at reverted
  cases deployed : store.writable.store.revertBlockOperations deployment blockPtrTo
      firehoseCursor with
  | none => simp [deployed] at reverted
  | some result =>
    cases result with
    | error => simp [deployed] at reverted
    | ok deploymentState =>
      simp only [deployed, Option.map_some, Option.some.injEq, Except.ok.injEq] at reverted
      obtain ⟨rfl, -⟩ := Prod.mk.inj reverted
      obtain ⟨-, rewound⟩ := DeploymentState.revertBlockOperations_eq_ok deployed
      obtain ⟨layout, count, -, rfl⟩ := DeploymentState.rewindWithConn_eq_ok rewound
      exact ⟨rfl, rfl, rfl, rfl, rfl⟩

/-- An unfail puts the deployment back at the parent and resets the stored cursor, while the
cursor in memory stays. -/
theorem unfailDeterministicError_of_fatal {currentPtr parentPtr : Int} {error : SubgraphError}
    {outcome : UnfailOutcome} (failedAt : errors.fatal = some error)
    (deterministic : error.deterministic = true) (atHead : error.blockPtr = some currentPtr)
    (unfailed : store.unfailDeterministicError errors deployment currentPtr parentPtr =
      some (.ok (store', errors', outcome))) :
    outcome = .unfailed ∧ store'.writable.blockPtr = some parentPtr ∧
      store'.writable.store.head = some parentPtr ∧
      store'.dynamicDataSources = Dynds.revert store.dynamicDataSources (parentPtr + 1) ∧
      store'.writable.blockCursor = store.writable.blockCursor ∧
      store'.writable.store.firehoseCursor = some "" := by
  simp only [unfailDeterministicError, failedAt, deterministic, atHead, Bool.not_true,
    Bool.false_eq_true, if_false, if_true] at unfailed
  obtain ⟨result, reverted, same⟩ := Option.map_eq_some_iff.mp unfailed
  rcases result with _ | ⟨reverted', errors₁⟩
  · cases same
  · simp only [Except.ok.injEq, Prod.mk.injEq] at same
    obtain ⟨rfl, -, rfl⟩ := same
    obtain ⟨-, head, rows, cursorKept, cursorReset⟩ := revertDeployment_eq_ok reverted
    exact ⟨rfl, rfl, head, rows, cursorKept, cursorReset⟩

end SubgraphStore

/-! ## The start of the runner -/

/-- How the start of `SubgraphRunner::run` fails: in the triggers adapter's `parent_ptr`, or in
the store. -/
inductive StartError where
  | parentPtr (message : String)
  | store (error : StoreError)

namespace SubgraphRunner

/-- The start of `SubgraphRunner::run`, before the block stream: a deployment with a block pointer
whose parent the triggers adapter gives (`parent_ptr`) is unfailed, and the outcome dropped. -/
def unfailOnStart (deployment : String) (parentPtr : Int → Except String (Option Int))
    (store : SubgraphStore δ) (errors : DeploymentErrors) :
    Option (Except StartError (SubgraphStore δ × DeploymentErrors)) :=
  match store.writable.blockPtr with
  | none => some (.ok (store, errors))
  | some currentPtr =>
    match parentPtr currentPtr with
    | .error message => some (.error (.parentPtr message))
    | .ok none => some (.ok (store, errors))
    | .ok (some parent) =>
      (store.unfailDeterministicError errors deployment currentPtr parent).map fun
        | .error error => .error (.store error)
        | .ok (store, errors, _) => .ok (store, errors)

/-- The error `handle_process_block` records with `fail_subgraph` when the processing of a block
fails deterministically: of the deployment, at the block, with no handler. -/
def failedBlockError (deployment message : String) (block : Int) : SubgraphError :=
  ⟨deployment, message, some block, none, true⟩

/-- A start on a store failed at its block pointer unfails it to the parent, resetting the stored
cursor but not the one in memory. -/
theorem unfailOnStart_of_fatal {deployment : String} {parentPtr : Int → Except String (Option Int)}
    {store store' : SubgraphStore δ} {errors errors' : DeploymentErrors} {currentPtr parent : Int}
    {error : SubgraphError} (atPtr : store.writable.blockPtr = some currentPtr)
    (parentIs : parentPtr currentPtr = .ok (some parent)) (failedAt : errors.fatal = some error)
    (deterministic : error.deterministic = true) (atHead : error.blockPtr = some currentPtr)
    (started : unfailOnStart deployment parentPtr store errors = some (.ok (store', errors'))) :
    store'.writable.blockPtr = some parent ∧
      store'.dynamicDataSources = Dynds.revert store.dynamicDataSources (parent + 1) ∧
      store'.writable.store.head = some parent ∧
      store'.writable.blockCursor = store.writable.blockCursor ∧
      store'.writable.store.firehoseCursor = some "" := by
  simp only [unfailOnStart, atPtr, parentIs] at started
  obtain ⟨result, unfailed, same⟩ := Option.map_eq_some_iff.mp started
  rcases result with _ | ⟨unfailedStore, unfailedErrors, outcome⟩
  · cases same
  · obtain ⟨rfl, -⟩ := Prod.mk.inj (Except.ok.inj same)
    obtain ⟨-, pointer, head, rows, cursorKept, cursorReset⟩ :=
      SubgraphStore.unfailDeterministicError_of_fatal failedAt deterministic atHead unfailed
    exact ⟨pointer, rows, head, cursorKept, cursorReset⟩

end SubgraphRunner

/-! ## Restarting after a deterministic failure -/

section Restart

variable [DecidableEq δ] {inputs : RunnerInputs ι δ} {manifest : List (BlockchainDataSource δ)}
  {state failedState : RunnerState δ} {firehoseCursor : Option String}

/-- The store reopened after a block failed deterministically starts from the block, with the
block's cursor as it is stored, an empty one as none. -/
theorem SubgraphRunner.openWritable_of_deterministic {block : Int} {run : BlockRun ι}
    (failed : SubgraphRunner.handleProcessBlock inputs state block firehoseCursor run =
      some (failedState, .processingFailed true)) :
    failedState.store.openWritable.writable.blockPtr = some block ∧
      failedState.store.openWritable.writable.blockCursor =
        if firehoseCursor = some "" then none else firehoseCursor := by
  obtain ⟨persisted, mods, store', adds, written, stored⟩ :=
    SubgraphRunner.handleProcessBlock_deterministic inputs failed
  obtain ⟨-, head, -, -⟩ := SubgraphStore.transactBlockOperations_eq_ok written
  rw [stored]
  exact ⟨head, (SubgraphStore.transactBlockOperations_cursor written).2⟩

/-- A block that fails deterministically, handled by a synced runner, leaves it synced: the block
is written with the data sources that got hosts. -/
theorem RunnerState.Synced.handleProcessBlock_deterministic {block : Int} {run : BlockRun ι}
    (synced : state.Synced inputs.newHost manifest)
    (failed : SubgraphRunner.handleProcessBlock inputs state block firehoseCursor run =
      some (failedState, .processingFailed true))
    (fits : block ≤ blockNumberMax) :
    failedState.Synced inputs.newHost manifest ∧ ∃ added,
      AddsFresh inputs.newHost block state.hosts failedState.hosts added ∧
      ∀ row ∈ state.store.dynamicDataSources, row.ethereumBlockNumber < block := by
  obtain ⟨persisted, mods, store', adds, written, stored⟩ :=
    SubgraphRunner.handleProcessBlock_deterministic inputs failed
  obtain ⟨advanced, -, -, -⟩ := SubgraphStore.transactBlockOperations_eq_ok written
  refine ⟨synced.transact adds (stored ▸ written) fits, persisted, adds, fun row listed => ?_⟩
  obtain ⟨old, atOld, below⟩ := synced.belowHead row listed
  rw [atOld] at advanced
  simp only [Option.all_some, decide_eq_true_eq] at advanced
  omega

/-- Restarting after a deterministic failure unfails the store back to the block before, while the
failed block's hosts stay in memory: they are never written, and a fresh start builds none. -/
theorem unfailOnStart_loses_failedBlock_hosts {block : Int} {run : BlockRun ι} {message : String}
    {errors failedErrors errors' : DeploymentErrors} {restarted : List (BlockchainDataSource δ)}
    {store : SubgraphStore δ} {parentPtr : Int → Except String (Option Int)}
    {events : List (RunnerEvent ι)} {outputs : List RunnerOutput} {final : RunnerState δ}
    (synced : state.Synced inputs.newHost manifest)
    (failed : SubgraphRunner.handleProcessBlock inputs state block firehoseCursor run =
      some (failedState, .processingFailed true))
    (fits : block ≤ blockNumberMax)
    (recorded : errors.fail (SubgraphRunner.failedBlockError inputs.deployment message block) =
      some failedErrors)
    (started : SubgraphInstanceManager.startSubgraphInner inputs.newHost manifest
      failedState.store.openWritable = .ok restarted)
    (parentIs : parentPtr block = .ok (some (block - 1)))
    (unfailed : SubgraphRunner.unfailOnStart inputs.deployment parentPtr
      failedState.store.openWritable failedErrors = some (.ok (store, errors')))
    (ran : SubgraphRunner.run inputs ⟨restarted, store⟩ events = (outputs, some final))
    (noRevert : ∀ event ∈ events, event.isRevert = false)
    (nondeterministic : ∀ output ∈ outputs, output ≠ .processingFailed true) :
    ∃ added, restarted = state.hosts ++ added ∧
      (∀ host ∈ added, host.creationBlock = some block) ∧
      store.dynamicDataSources = state.store.dynamicDataSources ∧
      store.writable.blockPtr = some (block - 1) ∧
      ∀ host ∈ added, host ∈ final.hosts ∧
        ∀ restartedAgain, SubgraphInstanceManager.startSubgraphInner inputs.newHost manifest
          final.store = .ok restartedAgain → ∀ other ∈ restartedAgain,
            other.identity ≠ host.identity := by
  obtain ⟨failedSynced, added, adds, before⟩ := synced.handleProcessBlock_deterministic failed fits
  -- the restart builds the failed runner's hosts: reopening the store keeps its rows
  have restartedIs : restarted = state.hosts ++ added := by
    have builds := failedSynced.startSubgraphInner
    rw [← adds.appended]
    exact Except.ok.inj (started.symm.trans builds)
  obtain ⟨pointer, rows, -⟩ := SubgraphRunner.unfailOnStart_of_fatal
    (SubgraphRunner.openWritable_of_deterministic failed).1 parentIs
    (DeploymentErrors.fail_fatal recorded) rfl rfl unfailed
  have unfailedRows : store.dynamicDataSources = state.store.dynamicDataSources := by
    obtain ⟨persisted, mods, store', adds', written, stored⟩ :=
      SubgraphRunner.handleProcessBlock_deterministic inputs failed
    obtain ⟨-, -, -, inserted⟩ := SubgraphStore.transactBlockOperations_eq_ok written
    rw [rows, Int.sub_add_cancel]
    exact stored ▸ inserted ▸ Dynds.revert_insert before
  refine ⟨added, restartedIs, adds.created, unfailedRows, pointer, fun host hostAdded => ?_⟩
  have unpersisted : RunnerState.Unpersisted ⟨restarted, store⟩ host := by
    refine ⟨restartedIs ▸ List.mem_append_right _ hostAdded, fun row listed => ?_⟩
    have hosted : row.toDataSource ∈ state.hosts :=
      synced.hosts ▸ List.mem_append_right _ (List.mem_map_of_mem (unfailedRows ▸ listed))
    exact adds.fresh.2 host hostAdded _ hosted
  have kept := unpersisted.run ran noRevert nondeterministic
  refine ⟨kept.held, fun restartedAgain startedAgain other listed => ?_⟩
  rcases SubgraphInstanceManager.startSubgraphInner_mem startedAgain other listed with
    manifestHost | ⟨row, stored, rfl⟩
  · exact adds.fresh.2 host hostAdded other (synced.hosts ▸ List.mem_append_left _ manifestHost)
  · exact kept.unstored row stored

/-- Unfailing on start resets the stored cursor but not the one in memory, so the Firehose stream
resumes after the failed block and does not check that it follows the block pointer. -/
theorem unfailOnStart_resumes_firehose_from_failedBlock {block : Int} {cursor message : String}
    {run : BlockRun ι} {errors failedErrors errors' : DeploymentErrors} {store : SubgraphStore δ}
    {parentPtr : Int → Except String (Option Int)}
    (failed : SubgraphRunner.handleProcessBlock inputs state block (some cursor) run =
      some (failedState, .processingFailed true))
    (resuming : cursor ≠ "")
    (recorded : errors.fail (SubgraphRunner.failedBlockError inputs.deployment message block) =
      some failedErrors)
    (parentIs : parentPtr block = .ok (some (block - 1)))
    (unfailed : SubgraphRunner.unfailOnStart inputs.deployment parentPtr
      failedState.store.openWritable failedErrors = some (.ok (store, errors'))) :
    store.writable.store.head = some (block - 1) ∧ store.writable.store.firehoseCursor = some "" ∧
      ∀ (startBlocks : List Int) (current : Option BlockPtr),
        current.map (·.number) = store.writable.blockPtr →
        (FirehoseBlockStream.new current store.writable.blockCursor startBlocks).request =
            ⟨block, cursor⟩ ∧
          (FirehoseBlockStream.new current store.writable.blockCursor
            startBlocks).checkSubgraphContinuity = false ∧
          (FirehoseBlockStream.new current store.openWritable.writable.blockCursor
            startBlocks).request = ⟨block, ""⟩ := by
  obtain ⟨reopenedAt, storedCursor⟩ := SubgraphRunner.openWritable_of_deterministic failed
  have reopenedCursor : failedState.store.openWritable.writable.blockCursor = some cursor := by
    simpa [resuming] using storedCursor
  obtain ⟨pointer, -, backAt, cursorKept, cursorReset⟩ := SubgraphRunner.unfailOnStart_of_fatal
    reopenedAt parentIs (DeploymentErrors.fail_fatal recorded) rfl rfl unfailed
  refine ⟨backAt, cursorReset, fun startBlocks current numbered => ?_⟩
  cases current with
  | none => simp [pointer] at numbered
  | some ptr =>
    have before : ptr.number + 1 = block := by
      simp only [pointer, Option.map_some, Option.some.injEq] at numbered
      omega
    refine ⟨?_, ?_, ?_⟩
    · simp [cursorKept, reopenedCursor, before]
    · simpa [cursorKept, reopenedCursor] using mustCheckSubgraphContinuity_of_cursor resuming _
    · simp [SubgraphStore.openWritable, WritableStore.new, cursorReset, before]

end Restart

/-- A block whose handlers create data source 7 and then fail deterministically. -/
def failingDeterministically : BlockRun Nat := ⟨false, .created [7], [], some (.ok []), true⟩

/-- `thingRunner` once block 1 failed deterministically: written, with data source 7. -/
def failedThingRunner : RunnerState Nat :=
  ⟨[⟨0, none⟩, ⟨7, some 1⟩], ⟨⟨some 1, none, thingDeployment (some 1)⟩, [⟨7, 1⟩]⟩⟩

/-- Its store reopened and unfailed back to block 0, with the cursor reset to the empty
string. -/
def unfailedThingStore : SubgraphStore Nat :=
  ⟨⟨some 0, none, { thingDeployment (some 0) with firehoseCursor := some "" }⟩, []⟩

/-- A deployment without errors. -/
def healthyErrors : DeploymentErrors := ⟨.healthy, none, []⟩

/-- The failure of block 1, recorded on a deployment without errors. -/
theorem fail_healthyErrors_handlerFailed : healthyErrors.fail
    (SubgraphRunner.failedBlockError templateRunner.deployment "handler failed" 1) =
      some ⟨.failed, some ⟨"deployment", "handler failed", some 1, none, true⟩,
        [⟨"deployment", "handler failed", some 1, none, true⟩]⟩ := by decide

theorem unfailOnStart_loses_failedBlock_hosts_thingRunner :
    ∃ final, SubgraphRunner.run templateRunner ⟨[⟨0, none⟩, ⟨7, some 1⟩], unfailedThingStore⟩
        [.processBlock 1 none (creating 7)] = ([.processed .restart], some final) ∧
      (⟨7, some 1⟩ : BlockchainDataSource Nat) ∈ final.hosts ∧
      ∀ restarted, SubgraphInstanceManager.startSubgraphInner templateRunner.newHost [⟨0, none⟩]
        final.store = .ok restarted → ∀ other ∈ restarted, other.identity ≠ 7 := by
  have failed : SubgraphRunner.handleProcessBlock templateRunner thingRunner 1 none
      failingDeterministically = some (failedThingRunner, .processingFailed true) := by
    simp [SubgraphRunner.handleProcessBlock, SubgraphRunner.processBlock, failingDeterministically,
      createdDataSourcesLoop_thingRunner_seven]
    exact ⟨.ok failedThingRunner.store, rfl, rfl⟩
  have started : SubgraphInstanceManager.startSubgraphInner templateRunner.newHost [⟨0, none⟩]
      failedThingRunner.store.openWritable = .ok [⟨0, none⟩, ⟨7, some 1⟩] := by decide +kernel
  have unfailed : SubgraphRunner.unfailOnStart templateRunner.deployment
      (fun block => .ok (some (block - 1))) failedThingRunner.store.openWritable
      ⟨.failed, some ⟨"deployment", "handler failed", some 1, none, true⟩,
        [⟨"deployment", "handler failed", some 1, none, true⟩]⟩ =
        some (.ok (unfailedThingStore, healthyErrors)) := rfl
  obtain ⟨final, ran, -⟩ : ∃ final, SubgraphRunner.run templateRunner
      ⟨[⟨0, none⟩, ⟨7, some 1⟩], unfailedThingStore⟩ [.processBlock 1 none (creating 7)] =
        ([.processed .restart], some final) ∧ final.hosts = [⟨0, none⟩, ⟨7, some 1⟩] :=
    SubgraphRunner.run_eq_of_computed templateRunner (by decide +kernel) (by decide +kernel)
  obtain ⟨added, addedIs, -, -, -, never⟩ := unfailOnStart_loses_failedBlock_hosts
    thingRunner_synced failed (by decide) fail_healthyErrors_handlerFailed started rfl unfailed ran
    (by decide) (by decide)
  obtain ⟨held, restart⟩ := never _ (seven_mem_of_thingRunner_hosts addedIs)
  exact ⟨final, ran, held, restart⟩

/-- `thingRunner` once block 1 failed deterministically with the cursor "c1". -/
def cursoredFailedRunner : RunnerState Nat :=
  ⟨[⟨0, none⟩, ⟨7, some 1⟩],
    ⟨⟨some 1, some "c1", { thingDeployment (some 1) with firehoseCursor := some "c1" }⟩, [⟨7, 1⟩]⟩⟩

/-- Its store reopened and unfailed back to block 0: the cursor in memory is still "c1". -/
def cursoredUnfailedStore : SubgraphStore Nat :=
  ⟨⟨some 0, some "c1", { thingDeployment (some 0) with firehoseCursor := some "" }⟩, []⟩

theorem unfailOnStart_resumes_firehose_from_failedBlock_thingRunner :
    SubgraphRunner.handleProcessBlock templateRunner thingRunner 1 (some "c1")
        failingDeterministically = some (cursoredFailedRunner, .processingFailed true) ∧
      SubgraphRunner.unfailOnStart templateRunner.deployment (fun block => .ok (some (block - 1)))
        cursoredFailedRunner.store.openWritable
        ⟨.failed, some ⟨"deployment", "handler failed", some 1, none, true⟩,
          [⟨"deployment", "handler failed", some 1, none, true⟩]⟩ =
        some (.ok (cursoredUnfailedStore, healthyErrors)) ∧
      (FirehoseBlockStream.new (some ⟨[], 0⟩) cursoredUnfailedStore.writable.blockCursor
        [0]).request = ⟨1, "c1"⟩ ∧
      (FirehoseBlockStream.new (some ⟨[], 0⟩) cursoredUnfailedStore.writable.blockCursor
        [0]).checkSubgraphContinuity = false := by
  have failed : SubgraphRunner.handleProcessBlock templateRunner thingRunner 1 (some "c1")
      failingDeterministically = some (cursoredFailedRunner, .processingFailed true) := by
    simp [SubgraphRunner.handleProcessBlock, SubgraphRunner.processBlock, failingDeterministically,
      createdDataSourcesLoop_thingRunner_seven]
    exact ⟨.ok cursoredFailedRunner.store, rfl, rfl⟩
  have unfailed : SubgraphRunner.unfailOnStart templateRunner.deployment
      (fun block => .ok (some (block - 1))) cursoredFailedRunner.store.openWritable
      ⟨.failed, some ⟨"deployment", "handler failed", some 1, none, true⟩,
        [⟨"deployment", "handler failed", some 1, none, true⟩]⟩ =
        some (.ok (cursoredUnfailedStore, healthyErrors)) := rfl
  obtain ⟨-, -, resumed⟩ := unfailOnStart_resumes_firehose_from_failedBlock failed (by decide)
    fail_healthyErrors_handlerFailed rfl unfailed
  obtain ⟨request, unchecked, -⟩ := resumed [0] (some ⟨[], 0⟩) rfl
  exact ⟨failed, unfailed, request, unchecked⟩

end GraphNode
