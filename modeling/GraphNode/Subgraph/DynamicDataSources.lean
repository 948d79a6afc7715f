import GraphNode.Store.Deployment
import GraphNode.Library.Fallible
import GraphNode.Library.Suffix

/-!
# Dynamic data sources of a running subgraph

`SubgraphInstance` (`core/src/subgraph/instance.rs`) keeps a runtime host for each data source,
those of the manifest first and then the dynamic ones, ordered by creation block; a host is its
data source here.  `SubgraphRunner` (`core/src/subgraph/runner.rs`) adds a host for each data
source the handlers of a block create (`add_dynamic_data_source` skips a duplicate), writes the
data sources that got one with the block, and on a revert pops the hosts created at or after the
block the store was at (`revert_data_sources`).

The store keeps the dynamic data sources in a table (`store/postgres/src/dynds.rs`):
`DeploymentStore::transact_block_operations` inserts a block's, and `rewind_with_conn` deletes
those created after `block_ptr_to`, each in the transaction that writes or reverts the entities
(`DeploymentState`), so each happens exactly when that succeeds.

What the handlers of a block do is the business of `Runner.processBlock`; here it is what a
`BlockRun` answers: the data sources the block's triggers create, what the triggers of each new
round of data sources create, and the modifications written with the block.  A panic is `none`.
-/

namespace GraphNode

/-- A data source, by what `is_duplicate_of` compares (`identity`: kind, network, name, source,
context and the mapping's ABIs and handlers) and its creation block, `None` for the manifest's. -/
structure BlockchainDataSource (δ : Type) where
  identity : δ
  creationBlock : Option Int
  deriving DecidableEq, Repr

variable {δ ι : Type}

/-- `is_duplicate_of`, the equality of runtime hosts: the creation block is ignored. -/
def BlockchainDataSource.isDuplicateOf [DecidableEq δ] (dataSource other : BlockchainDataSource δ) :
    Bool :=
  dataSource.identity == other.identity

/-- Rust's `<=` on `Option<BlockNumber>`: `None` comes before every block. -/
def creationBlockLe : Option Int → Option Int → Bool
  | none, _ => true
  | some _, none => false
  | some first, some second => decide (first ≤ second)

/-! ## The table of dynamic data sources -/

/-- A row of `dynamic_ethereum_contract_data_source`: the data source and the number of the block
that created it.  Rows are listed in `vid` order. -/
structure DynamicDataSourceRow (δ : Type) where
  identity : δ
  ethereumBlockNumber : Int
  deriving DecidableEq, Repr

/-- The data source `load` makes of a row. -/
def DynamicDataSourceRow.toDataSource (row : DynamicDataSourceRow δ) : BlockchainDataSource δ :=
  ⟨row.identity, some row.ethereumBlockNumber⟩

/-- Push a data source after those loaded, unless it was created before the last of them: the
check in the loops of both `dynds::load` and `load_dynamic_data_sources`, each with its own
error. -/
def pushOrdered (message : String) (dataSources : List (BlockchainDataSource δ))
    (dataSource : BlockchainDataSource δ) : Except String (List (BlockchainDataSource δ)) :=
  if creationBlockLe (dataSources.getLast?.bind (·.creationBlock)) dataSource.creationBlock
  then .ok (dataSources ++ [dataSource])
  else .error message

theorem pushOrdered_eq_ok {message : String} {dataSources : List (BlockchainDataSource δ)}
    {dataSource : BlockchainDataSource δ} {pushed : List (BlockchainDataSource δ)}
    (ordered : pushOrdered message dataSources dataSource = .ok pushed) :
    pushed = dataSources ++ [dataSource] := by
  unfold pushOrdered at ordered
  split at ordered
  · exact (Except.ok.inj ordered).symm
  · cases ordered

/-- Data sources in ascending order of creation block, none created before the last one loaded,
are all pushed, in their order. -/
theorem foldlM_pushOrdered {message : String} {dataSources : List (BlockchainDataSource δ)}
    (ascending : dataSources.Pairwise fun first second =>
      creationBlockLe first.creationBlock second.creationBlock)
    {loaded : List (BlockchainDataSource δ)}
    (after : ∀ dataSource ∈ dataSources,
      creationBlockLe (loaded.getLast?.bind (·.creationBlock)) dataSource.creationBlock) :
    dataSources.foldlM (pushOrdered message) loaded = .ok (loaded ++ dataSources) := by
  induction dataSources generalizing loaded with
  | nil => simp; rfl
  | cons dataSource dataSources pushed =>
    rw [List.pairwise_cons] at ascending
    have first : pushOrdered message loaded dataSource = .ok (loaded ++ [dataSource]) := by
      simp [pushOrdered, after dataSource List.mem_cons_self]
    have later : ∀ next ∈ dataSources, creationBlockLe
        ((loaded ++ [dataSource]).getLast?.bind (·.creationBlock)) next.creationBlock :=
      fun next listed => by simpa using ascending.1 next listed
    rw [List.foldlM_cons, first]
    show dataSources.foldlM (pushOrdered message) (loaded ++ [dataSource]) = _
    rw [pushed ascending.2 later]
    simp

/-- Rows in ascending block order give data sources in ascending order of creation block. -/
theorem DynamicDataSourceRow.toDataSource_ascending {rows : List (DynamicDataSourceRow δ)}
    (ascending : (rows.map (·.ethereumBlockNumber)).Pairwise (· ≤ ·)) :
    (rows.map (·.toDataSource)).Pairwise fun first second =>
      creationBlockLe first.creationBlock second.creationBlock := by
  rw [List.pairwise_map] at ascending ⊢
  exact ascending.imp fun ordered => by simpa [toDataSource, creationBlockLe] using ordered

namespace Dynds

/-- `dynds::insert`: a row for each data source, at the block's number.  Its check that a data
source has an address always passes for the data sources templates make. -/
def insert (rows : List (DynamicDataSourceRow δ)) (dataSources : List (BlockchainDataSource δ))
    (blockPtr : Int) : List (DynamicDataSourceRow δ) :=
  rows ++ dataSources.map fun dataSource => ⟨dataSource.identity, blockPtr⟩

/-- Data sources created at the block come back from the rows `insert` writes for them. -/
theorem insert_toDataSource {rows : List (DynamicDataSourceRow δ)}
    {dataSources : List (BlockchainDataSource δ)} {blockPtr : Int}
    (created : ∀ dataSource ∈ dataSources, dataSource.creationBlock = some blockPtr) :
    (insert rows dataSources blockPtr).map (·.toDataSource) =
      rows.map (·.toDataSource) ++ dataSources := by
  rw [insert, List.map_append, List.map_map]
  congr 1
  conv_rhs => rw [← List.map_id dataSources]
  apply List.map_congr_left
  rintro ⟨identity, creationBlock⟩ listed
  simpa [DynamicDataSourceRow.toDataSource] using (created _ listed).symm

/-- `dynds::revert`: the rows from block `block` on are deleted. -/
def revert (rows : List (DynamicDataSourceRow δ)) (block : Int) : List (DynamicDataSourceRow δ) :=
  rows.filter fun row => row.ethereumBlockNumber < block

/-- Reverting the rows a block wrote, over rows all from before it, leaves those rows. -/
theorem revert_insert {rows : List (DynamicDataSourceRow δ)}
    {dataSources : List (BlockchainDataSource δ)} {block : Int}
    (before : ∀ row ∈ rows, row.ethereumBlockNumber < block) :
    revert (insert rows dataSources block) block = rows := by
  rw [revert, insert, List.filter_append,
    List.filter_eq_self.mpr fun row listed => by simpa using before row listed]
  simp

/-- One row of the loop of `load`: a data source created before the last one loaded is a
constraint violation. -/
def pushLoaded (dataSources : List (BlockchainDataSource δ)) (row : DynamicDataSourceRow δ) :
    Except String (List (BlockchainDataSource δ)) :=
  pushOrdered "data sources not ordered by creation block" dataSources row.toDataSource

/-- `dynds::load`: the rows created up to `block`, ordered by block number and then by `vid`. -/
def load (rows : List (DynamicDataSourceRow δ)) (block : Int) :
    Except String (List (BlockchainDataSource δ)) :=
  ((rows.filter fun row => row.ethereumBlockNumber ≤ block).mergeSort fun first second =>
    first.ethereumBlockNumber ≤ second.ethereumBlockNumber).foldlM pushLoaded []

/-- The loop of `load` over rows is the loop of `pushOrdered` over their data sources. -/
theorem foldlM_pushLoaded (rows : List (DynamicDataSourceRow δ))
    (loaded : List (BlockchainDataSource δ)) :
    rows.foldlM pushLoaded loaded = (rows.map (·.toDataSource)).foldlM
      (pushOrdered "data sources not ordered by creation block") loaded := by
  rw [List.foldlM_map]
  rfl

/-- What `load` returns is the data sources of rows of the table. -/
theorem load_mem {rows : List (DynamicDataSourceRow δ)} {block : Int}
    {loaded : List (BlockchainDataSource δ)} (loadedIs : load rows block = .ok loaded) :
    ∀ dataSource ∈ loaded, ∃ row ∈ rows, dataSource = row.toDataSource := by
  rw [load, foldlM_pushLoaded] at loadedIs
  intro dataSource listed
  rw [Fallible.foldlM_eq_ok_of_pushes (fun _ _ _ => pushOrdered_eq_ok) loadedIs, List.nil_append,
    List.mem_map] at listed
  obtain ⟨row, sorted, rfl⟩ := listed
  exact ⟨row, (List.mem_filter.mp (List.mem_mergeSort.mp sorted)).1, rfl⟩

/-- `load` at a block past every row, on rows in ascending block order, gives all of them in
their order. -/
theorem load_of_ascending {rows : List (DynamicDataSourceRow δ)}
    (ascending : (rows.map (·.ethereumBlockNumber)).Pairwise (· ≤ ·)) {block : Int}
    (below : ∀ row ∈ rows, row.ethereumBlockNumber ≤ block) :
    load rows block = .ok (rows.map (·.toDataSource)) := by
  have kept : (rows.filter fun row => row.ethereumBlockNumber ≤ block) = rows :=
    List.filter_eq_self.mpr fun row listed => by simpa using below row listed
  have sorted : (rows.mergeSort fun first second =>
      first.ethereumBlockNumber ≤ second.ethereumBlockNumber) = rows := by
    apply List.mergeSort_of_pairwise
    simpa [List.pairwise_map] using ascending
  rw [load, kept, sorted, foldlM_pushLoaded,
    foldlM_pushOrdered (DynamicDataSourceRow.toDataSource_ascending ascending) (fun _ _ => rfl)]
  rfl

end Dynds

/-- Data sources added after `hosts`, none a duplicate of another or of one of `hosts`. -/
def AddedFresh (hosts added : List (BlockchainDataSource δ)) : Prop :=
  (added.map (·.identity)).Nodup ∧
    ∀ dataSource ∈ added, ∀ host ∈ hosts, host.identity ≠ dataSource.identity

theorem addedFresh_nil (hosts : List (BlockchainDataSource δ)) : AddedFresh hosts [] :=
  ⟨List.nodup_nil, nofun⟩

/-- Fresh data sources added after fresh ones are fresh together. -/
theorem AddedFresh.append {hosts first second : List (BlockchainDataSource δ)}
    (before : AddedFresh hosts first) (after : AddedFresh (hosts ++ first) second) :
    AddedFresh hosts (first ++ second) := by
  refine ⟨?_, fun dataSource added host listed => ?_⟩
  · rw [List.map_append, List.nodup_append]
    refine ⟨before.1, after.1, fun identity early identity' late same => ?_⟩
    obtain ⟨earlier, earlierListed, rfl⟩ := List.mem_map.mp early
    obtain ⟨later, laterListed, rfl⟩ := List.mem_map.mp late
    exact after.2 later laterListed earlier (List.mem_append_right _ earlierListed) same
  · rcases List.mem_append.mp added with early | late
    · exact before.2 dataSource early host listed
    · exact after.2 dataSource late host (List.mem_append_left _ listed)

/-- Some of fresh data sources, in their order, are fresh. -/
theorem AddedFresh.sublist {hosts added fewer : List (BlockchainDataSource δ)}
    (fresh : AddedFresh hosts added) (kept : fewer.Sublist added) : AddedFresh hosts fewer :=
  ⟨fresh.1.sublist (kept.map _), fun dataSource listed => fresh.2 dataSource (kept.subset listed)⟩

/-- The hosts `hosts'` are `hosts` with the data sources `added` after them, fresh, created at
`block` and each with a host `newHost` built. -/
structure AddsFresh (newHost : BlockchainDataSource δ → Except String Unit) (block : Int)
    (hosts hosts' added : List (BlockchainDataSource δ)) : Prop where
  appended : hosts' = hosts ++ added
  fresh : AddedFresh hosts added
  created : ∀ dataSource ∈ added, dataSource.creationBlock = some block
  built : ∀ dataSource ∈ added, newHost dataSource = .ok ()

section AddsFresh

variable {newHost : BlockchainDataSource δ → Except String Unit} {block : Int}

theorem addsFresh_nil (hosts : List (BlockchainDataSource δ)) :
    AddsFresh newHost block hosts hosts [] :=
  ⟨by simp, addedFresh_nil hosts, nofun, nofun⟩

theorem AddsFresh.trans {hosts hosts₁ hosts₂ first second : List (BlockchainDataSource δ)}
    (before : AddsFresh newHost block hosts hosts₁ first)
    (after : AddsFresh newHost block hosts₁ hosts₂ second) :
    AddsFresh newHost block hosts hosts₂ (first ++ second) := by
  refine ⟨by rw [after.appended, before.appended, List.append_assoc],
    before.fresh.append (before.appended ▸ after.fresh), fun dataSource listed => ?_,
    fun dataSource listed => ?_⟩
  · rcases List.mem_append.mp listed with early | late
    · exact before.created dataSource early
    · exact after.created dataSource late
  · rcases List.mem_append.mp listed with early | late
    · exact before.built dataSource early
    · exact after.built dataSource late

end AddsFresh

/-! ## The hosts of a subgraph instance -/

namespace SubgraphInstance

variable [DecidableEq δ]

/-- The checks `add_dynamic_data_source` makes first: it refuses a data source once there are
`max_data_sources` hosts, and asserts that the hosts stay ordered by creation block. -/
def checkDataSource (maxDataSources : Option Nat) (hosts : List (BlockchainDataSource δ))
    (dataSource : BlockchainDataSource δ) : ExceptT String Option Unit := do
  if let some maxDataSources := maxDataSources then
    if maxDataSources ≤ hosts.length then
      throw s!"Limit of {maxDataSources} data sources per subgraph exceeded"
  if !creationBlockLe (hosts.getLast?.bind (·.creationBlock)) dataSource.creationBlock then
    ExceptT.lift none

/-- `add_dynamic_data_source`: after its checks, a host for the data source (`new_host`, which
fails when the mapping cannot be spawned) unless a host duplicates it.  The host added, if any,
is returned. -/
def addDynamicDataSource (maxDataSources : Option Nat)
    (newHost : BlockchainDataSource δ → Except String Unit) (hosts : List (BlockchainDataSource δ))
    (dataSource : BlockchainDataSource δ) :
    ExceptT String Option (List (BlockchainDataSource δ) × Option (BlockchainDataSource δ)) := do
  checkDataSource maxDataSources hosts dataSource
  liftExcept (newHost dataSource)
  if hosts.any (·.isDuplicateOf dataSource) then pure (hosts, none)
  else pure (hosts ++ [dataSource], some dataSource)

/-- `revert_data_sources`: pop the last host while it was created at or after `revertedBlock`. -/
def revertDataSources (hosts : List (BlockchainDataSource δ)) (revertedBlock : Int) :
    List (BlockchainDataSource δ) :=
  hosts.rdropWhile fun host => creationBlockLe (some revertedBlock) host.creationBlock

/-- A data source gets a host unless one duplicates it, and the host goes last. -/
theorem addDynamicDataSource_eq_ok {maxDataSources : Option Nat}
    {newHost : BlockchainDataSource δ → Except String Unit}
    {hosts hosts' : List (BlockchainDataSource δ)} {dataSource : BlockchainDataSource δ}
    {host : Option (BlockchainDataSource δ)}
    (added : (addDynamicDataSource maxDataSources newHost hosts dataSource).run =
      some (.ok (hosts', host))) :
    hosts' = hosts ++ host.toList ∧ AddedFresh hosts host.toList ∧
      ∀ added ∈ host, added = dataSource ∧ newHost added = .ok () := by
  unfold addDynamicDataSource at added
  simp only [Fallible.run_bind_eq_ok, Fallible.run_liftExcept, Option.some.injEq] at added
  obtain ⟨-, -, ⟨⟩, built, added⟩ := added
  split at added
  · simp only [ExceptT.run_pure] at added
    obtain ⟨rfl, rfl⟩ := added
    exact ⟨by simp, addedFresh_nil hosts, nofun⟩
  · rename_i duplicate
    simp only [ExceptT.run_pure] at added
    obtain ⟨rfl, rfl⟩ := added
    refine ⟨rfl, ⟨List.nodup_singleton _, fun added listed host known same => duplicate ?_⟩,
      fun added listed => ?_⟩
    · rw [List.mem_singleton.mp listed] at same
      exact List.any_eq_true.mpr ⟨host, known, by simp [BlockchainDataSource.isDuplicateOf, same]⟩
    · obtain rfl := (Option.mem_some_iff.mp listed).symm
      exact ⟨rfl, built⟩

omit [DecidableEq δ] in
/-- On the manifest's hosts followed by hosts for rows in ascending block order, popping the
hosts created from `revertedBlock` on leaves the manifest's and those of the rows before it. -/
theorem revertDataSources_append {manifest : List (BlockchainDataSource δ)}
    {rows : List (DynamicDataSourceRow δ)}
    (manifestFirst : ∀ host ∈ manifest, host.creationBlock = none)
    (ascending : (rows.map (·.ethereumBlockNumber)).Pairwise (· ≤ ·)) (revertedBlock : Int) :
    revertDataSources (manifest ++ rows.map (·.toDataSource)) revertedBlock =
      manifest ++ (Dynds.revert rows revertedBlock).map (·.toDataSource) := by
  have manifestKept : ∀ host ∈ manifest,
      creationBlockLe (some revertedBlock) host.creationBlock = false :=
    fun host listed => by rw [manifestFirst host listed]; rfl
  have upward : (manifest ++ rows.map (·.toDataSource)).Pairwise fun first second =>
      creationBlockLe (some revertedBlock) first.creationBlock = true →
        creationBlockLe (some revertedBlock) second.creationBlock = true := by
    rw [List.pairwise_append, List.pairwise_map]
    refine ⟨List.pairwise_of_forall_mem_list fun first listed _ _ popped => ?_,
      (List.pairwise_map.mp ascending).imp fun ordered popped => ?_,
      fun first listed _ _ popped => ?_⟩
    · simp [manifestKept first listed] at popped
    · simp only [DynamicDataSourceRow.toDataSource, creationBlockLe, decide_eq_true_eq] at popped ⊢
      omega
    · simp [manifestKept first listed] at popped
  rw [revertDataSources, Suffix.rdropWhile_eq_filter upward, List.filter_append, List.filter_map,
    List.filter_eq_self.mpr fun host listed => by simp [manifestKept host listed]]
  congr 2
  apply List.filter_congr
  intro row _
  simp only [Function.comp_apply, DynamicDataSourceRow.toDataSource, creationBlockLe]
  rw [← decide_not]
  exact decide_eq_decide.mpr not_le

end SubgraphInstance

/-! ## The store a runner writes to -/

/-- A deployment's store as a runner sees it: a `WritableStore` with a `Sync` writer, and the
deployment's table of dynamic data sources. -/
structure SubgraphStore (δ : Type) where
  writable : WritableStore
  dynamicDataSources : List (DynamicDataSourceRow δ)

namespace SubgraphStore

/-- `WritableStore::transact_block_operations`: the deployment writes the block and its data
sources in one transaction, then the block pointer and cursor kept in memory follow. -/
def transactBlockOperations (store : SubgraphStore δ) (deployment : String) (blockPtrTo : Int)
    (firehoseCursor : Option String) (mods : List EntityModification)
    (dataSources : List (BlockchainDataSource δ)) : Option (Except StoreError (SubgraphStore δ)) :=
  (store.writable.store.transactBlockOperations deployment blockPtrTo firehoseCursor mods).map fun
    | .error error => .error error
    | .ok deploymentState =>
      .ok { writable := ⟨some blockPtrTo, firehoseCursor, deploymentState⟩
            dynamicDataSources := Dynds.insert store.dynamicDataSources dataSources blockPtrTo }

/-- `WritableStore::revert_block_operations`: the block pointer kept in memory moves whatever
happens, and a revert of the deployment also deletes the data sources created after
`block_ptr_to` (`Layout::revert_metadata`). -/
def revertBlockOperations (store : SubgraphStore δ) (deployment : String) (blockPtrTo : Int)
    (firehoseCursor : Option String) : Option (SubgraphStore δ × Except StoreError Unit) :=
  (store.writable.revertBlockOperations deployment blockPtrTo firehoseCursor).map fun
    | (writable, .ok ()) =>
      ({ writable, dynamicDataSources := Dynds.revert store.dynamicDataSources (blockPtrTo + 1) },
        .ok ())
    | (writable, .error error) => ({ store with writable }, .error error)

variable {store store' : SubgraphStore δ} {deployment : String} {blockPtrTo : Int}
  {firehoseCursor : Option String}

/-- A write that succeeds is of a block past the deployment's head; the block becomes the head
and the block pointer, and the data sources are inserted at it. -/
theorem transactBlockOperations_eq_ok {mods : List EntityModification}
    {dataSources : List (BlockchainDataSource δ)}
    (written : store.transactBlockOperations deployment blockPtrTo firehoseCursor mods dataSources =
      some (.ok store')) :
    store.writable.store.head.all (· < blockPtrTo) ∧ store'.writable.store.head = some blockPtrTo ∧
      store'.writable.blockPtr = some blockPtrTo ∧
      store'.dynamicDataSources = Dynds.insert store.dynamicDataSources dataSources blockPtrTo := by
  obtain ⟨result, deployed, same⟩ := Option.map_eq_some_iff.mp written
  cases result with
  | error => cases same
  | ok deploymentState =>
    cases same
    obtain ⟨advanced, head⟩ := DeploymentState.transactBlockOperations_head deployed
    exact ⟨advanced, head, rfl, rfl⟩

/-- A revert that succeeds goes back from the deployment's head; the block reverted to becomes
the head and the block pointer, and the data sources created after it are deleted. -/
theorem revertBlockOperations_eq_ok
    (reverted : store.revertBlockOperations deployment blockPtrTo firehoseCursor =
      some (store', .ok ())) :
    (∃ head, store.writable.store.head = some head ∧ blockPtrTo < head) ∧
      store'.writable.store.head = some blockPtrTo ∧ store'.writable.blockPtr = some blockPtrTo ∧
      store'.dynamicDataSources = Dynds.revert store.dynamicDataSources (blockPtrTo + 1) := by
  unfold revertBlockOperations WritableStore.revertBlockOperations at reverted
  cases deployed : store.writable.store.revertBlockOperations deployment blockPtrTo
      firehoseCursor with
  | none => simp [deployed] at reverted
  | some result =>
    cases result with
    | error => simp [deployed] at reverted
    | ok deploymentState =>
      simp only [deployed, Option.map_some, Option.some.injEq] at reverted
      cases reverted
      obtain ⟨back, head⟩ := DeploymentState.revertBlockOperations_head deployed
      exact ⟨back, head, rfl, rfl⟩

/-- A write that succeeds keeps the block's cursor in memory and stores it, an empty one as
none. -/
theorem transactBlockOperations_cursor {mods : List EntityModification}
    {dataSources : List (BlockchainDataSource δ)}
    (written : store.transactBlockOperations deployment blockPtrTo firehoseCursor mods dataSources =
      some (.ok store')) :
    store'.writable.blockCursor = firehoseCursor ∧
      store'.writable.store.firehoseCursor =
        if firehoseCursor = some "" then none else firehoseCursor := by
  obtain ⟨result, deployed, same⟩ := Option.map_eq_some_iff.mp written
  cases result with
  | error => cases same
  | ok deploymentState =>
    cases same
    obtain ⟨layout, count, -, rfl⟩ := DeploymentState.transactBlockOperations_eq_ok deployed
    exact ⟨rfl, rfl⟩

end SubgraphStore

/-! ## Handling the events of a block stream -/

/-- What the handlers of a block's triggers leave, as `process_triggers` returns it: the data
sources they create, or a possible reorg, or another error. -/
inductive TriggersOutcome (ι : Type) where
  | created (dataSources : List ι)
  | possibleReorg
  | failed (message : String)

/-- The answers, for one block, of the parts of `handle_process_block` this model leaves out:
whether the block is skipped (no triggers, far from the chain head, before the pointer-update
timer runs out); what the block's triggers create; for each round of the loop over created data
sources, what the triggers of the round's new data sources create, or the error of
`triggers_in_block` or of a handler that ends the block (a round missing from the list finds no
trigger); the modifications the entity cache resolves into, or the error or panic on the way;
and whether a handler failed deterministically with non-fatal errors off. -/
structure BlockRun (ι : Type) where
  skipped : Bool
  triggers : TriggersOutcome ι
  rounds : List (Except String (List ι))
  modifications : Option (Except String (List EntityModification))
  deterministicError : Bool

/-- `Action`. -/
inductive Action where
  | continue
  | stop
  | restart
  deriving DecidableEq, Repr

/-- How `process_block` fails: with a handler's deterministic error, once the block is written,
or with another error. -/
inductive ProcessingError where
  | deterministic
  | unknown (message : String)
  deriving DecidableEq, Repr

/-- What handling one event of the block stream did.  A failed processing is an error of the
runner when it is deterministic, and restarts the block stream otherwise. -/
inductive RunnerOutput where
  | skipped
  | processed (action : Action)
  | processingFailed (deterministic : Bool)
  | nothingToRevert
  | reverted (subgraphPtr blockPtrTo : Int)
  | revertFailed
  deriving DecidableEq, Repr

/-- Whether the runner returns after the output: at the stop block, and on a deterministic
error. -/
def RunnerOutput.ends : RunnerOutput → Bool
  | .processed .stop => true
  | .processingFailed true => true
  | _ => false

/-- Whether the event was handled without failing: every output but a failed processing or a
failed revert. -/
def RunnerOutput.succeeded : RunnerOutput → Bool
  | .processingFailed _ => false
  | .revertFailed => false
  | _ => true

/-- An event of the block stream, with the answers its processing gets. -/
inductive RunnerEvent (ι : Type) where
  | processBlock (block : Int) (firehoseCursor : Option String) (run : BlockRun ι)
  | revert (blockPtrTo : Int) (firehoseCursor : Option String)

/-- What a runner is started with: its deployment, `static_filters`, the stop block,
`ENV_VARS.subgraph_max_data_sources`, the data source a template instance makes (`try_from`), by
what `is_duplicate_of` compares, and whether a host can be built for a data source. -/
structure RunnerInputs (ι δ : Type) where
  deployment : String
  staticFilters : Bool
  stopBlock : Option Int
  maxDataSources : Option Nat
  tryFrom : ι → Except String δ
  newHost : BlockchainDataSource δ → Except String Unit

/-- A runner, by the hosts of its subgraph instance and its store. -/
structure RunnerState (δ : Type) where
  hosts : List (BlockchainDataSource δ)
  store : SubgraphStore δ

namespace SubgraphRunner

variable [DecidableEq δ] (inputs : RunnerInputs ι δ)

/-- `create_dynamic_data_sources`: a data source created at `block` from each template instance,
and a host for it unless one duplicates it; the data sources that got a host are returned.  The
hosts change in place, so those added before an error stay. -/
def createDynamicDataSources (block : Int) :
    List (BlockchainDataSource δ) → List ι →
      Option (List (BlockchainDataSource δ) × Except String (List (BlockchainDataSource δ)))
  | hosts, [] => some (hosts, .ok [])
  | hosts, info :: infos =>
    match inputs.tryFrom info with
    | .error error => some (hosts, .error error)
    | .ok identity =>
      match (SubgraphInstance.addDynamicDataSource inputs.maxDataSources inputs.newHost hosts
          ⟨identity, some block⟩).run with
      | none => none
      | some (.error error) => some (hosts, .error error)
      | some (.ok (hosts, host)) =>
        (createDynamicDataSources block hosts infos).map fun (hosts, created) =>
          (hosts, created.map (host.toList ++ ·))

/-- The data sources created get hosts after the hosts there were, each fresh, created at the
block and built, whether the loop ends or stops at an error; when it ends, it returns them. -/
theorem createDynamicDataSources_adds {block : Int} {infos : List ι}
    {hosts hosts' : List (BlockchainDataSource δ)}
    {result : Except String (List (BlockchainDataSource δ))}
    (made : createDynamicDataSources inputs block hosts infos = some (hosts', result)) :
    ∃ added, AddsFresh inputs.newHost block hosts hosts' added ∧
      ∀ created, result = .ok created → created = added := by
  induction infos generalizing hosts result with
  | nil =>
    simp only [createDynamicDataSources, Option.some.injEq, Prod.mk.injEq] at made
    obtain ⟨rfl, rfl⟩ := made
    exact ⟨[], addsFresh_nil hosts, fun created same => (Except.ok.inj same).symm⟩
  | cons info infos rest =>
    simp only [createDynamicDataSources] at made
    split at made
    · -- `try_from` failed: no host added
      obtain ⟨rfl, rfl⟩ := Prod.mk.inj (Option.some.inj made)
      exact ⟨[], addsFresh_nil hosts, nofun⟩
    · split at made
      · cases made
      · obtain ⟨rfl, rfl⟩ := Prod.mk.inj (Option.some.inj made)
        exact ⟨[], addsFresh_nil hosts, nofun⟩
      · rename_i hosts₁ host addedIs
        obtain ⟨⟨hosts₂, resultRest⟩, madeRest, same⟩ := Option.map_eq_some_iff.mp made
        obtain ⟨rfl, rfl⟩ := Prod.mk.inj same
        obtain ⟨addedHosts, addedFresh, addedOnly⟩ :=
          SubgraphInstance.addDynamicDataSource_eq_ok addedIs
        have first : AddsFresh inputs.newHost block hosts hosts₁ host.toList :=
          ⟨addedHosts, addedFresh,
            fun dataSource listed => by
              rw [(addedOnly dataSource (Option.mem_toList.mp listed)).1],
            fun dataSource listed => (addedOnly dataSource (Option.mem_toList.mp listed)).2⟩
        obtain ⟨later, adds, returned⟩ := rest madeRest
        refine ⟨host.toList ++ later, first.trans adds, fun created same => ?_⟩
        cases resultRest with
        | error => cases same
        | ok createdRest =>
          rw [← Except.ok.inj same, returned createdRest rfl]

/-- The loop of `process_block` while the handlers have created data sources: hosts for them,
then the block's triggers for the new ones, run on their hosts alone, may create more.  The
data sources that got a host are persisted with the block, in order. -/
def createdDataSourcesLoop (block : Int) :
    List (Except String (List ι)) → List (BlockchainDataSource δ) → List ι →
      Option (List (BlockchainDataSource δ) × Except String (List (BlockchainDataSource δ)))
  | _, hosts, [] => some (hosts, .ok [])
  | rounds, hosts, created@(_ :: _) =>
    (createDynamicDataSources inputs block hosts created).bind fun
      | (hosts, .error error) => some (hosts, .error error)
      | (hosts, .ok dataSources) =>
        match rounds with
        | [] => some (hosts, .ok dataSources)
        | .error error :: _ => some (hosts, .error error)
        | .ok created :: rounds =>
          (createdDataSourcesLoop block rounds hosts created).map fun (hosts, persisted) =>
            (hosts, persisted.map (dataSources ++ ·))

/-- Each round adds fresh hosts after the hosts there were, whether the loop ends or stops at an
error; when it ends, it persists exactly those. -/
theorem createdDataSourcesLoop_adds {block : Int} {rounds : List (Except String (List ι))}
    {created : List ι} {hosts hosts' : List (BlockchainDataSource δ)}
    {result : Except String (List (BlockchainDataSource δ))}
    (looped : createdDataSourcesLoop inputs block rounds hosts created = some (hosts', result)) :
    ∃ added, AddsFresh inputs.newHost block hosts hosts' added ∧
      ∀ persisted, result = .ok persisted → persisted = added := by
  fun_induction createdDataSourcesLoop inputs block rounds hosts created generalizing result hosts'
  case case1 hosts =>
    obtain ⟨rfl, rfl⟩ := Prod.mk.inj (Option.some.inj looped)
    exact ⟨[], addsFresh_nil hosts, fun persisted same => (Except.ok.inj same).symm⟩
  case case2 rounds hosts info infos later =>
    obtain ⟨⟨hosts₁, made⟩, madeIs, rest⟩ := Option.bind_eq_some_iff.mp looped
    obtain ⟨first, adds, returned⟩ := createDynamicDataSources_adds inputs madeIs
    cases made with
    | error =>
      obtain ⟨rfl, rfl⟩ := Prod.mk.inj (Option.some.inj rest)
      exact ⟨first, adds, nofun⟩
    | ok dataSources =>
      obtain rfl := returned dataSources rfl
      rcases rounds with _ | ⟨_ | created, rounds⟩
      · obtain ⟨rfl, rfl⟩ := Prod.mk.inj (Option.some.inj rest)
        exact ⟨dataSources, adds, fun persisted same => (Except.ok.inj same).symm⟩
      · obtain ⟨rfl, rfl⟩ := Prod.mk.inj (Option.some.inj rest)
        exact ⟨dataSources, adds, nofun⟩
      · obtain ⟨⟨hosts₂, resultRest⟩, loopedRest, same⟩ := Option.map_eq_some_iff.mp rest
        obtain ⟨rfl, rfl⟩ := Prod.mk.inj same
        obtain ⟨second, addsRest, returnedRest⟩ := later hosts₁ loopedRest
        refine ⟨dataSources ++ second, adds.trans addsRest, fun persisted same => ?_⟩
        cases resultRest with
        | error => cases same
        | ok persistedRest =>
          rw [← Except.ok.inj same, returnedRest persistedRest rfl]

/-- `process_block`, for the data sources: the hosts the created data sources get stay whether
the block is written or not.  A block whose triggers created data sources restarts the block
stream, unless the filters are static. -/
def processBlock (state : RunnerState δ) (block : Int) (firehoseCursor : Option String)
    (run : BlockRun ι) : Option (RunnerState δ × Except ProcessingError Action) :=
  match run.triggers with
  -- a possible reorg restarts the block stream, with nothing written
  | .possibleReorg => some (state, .ok .restart)
  | .failed message => some (state, .error (.unknown message))
  | .created created =>
    let needsRestart := !created.isEmpty && !inputs.staticFilters
    (createdDataSourcesLoop inputs block run.rounds state.hosts created).bind fun (hosts, looped) =>
      let state := { state with hosts }
      match looped, run.modifications with
      | .error message, _ => some (state, .error (.unknown message))
      | .ok _, none => none
      | .ok _, some (.error message) => some (state, .error (.unknown message))
      | .ok dataSources, some (.ok mods) =>
        (state.store.transactBlockOperations inputs.deployment block firehoseCursor mods
            dataSources).map fun
          | .error _ => (state, .error (.unknown "Failed to transact block operations"))
          | .ok store =>
            ({ state with store }, if run.deterministicError then .error .deterministic
              else .ok (if needsRestart then .restart else .continue))

/-- A block processed without an unknown error restarted for a possible reorg, leaving the
runner as it was, or wrote its data sources, which got fresh hosts after the hosts there were. -/
theorem processBlock_cases {state state' : RunnerState δ} {block : Int}
    {firehoseCursor : Option String} {run : BlockRun ι} {result : Except ProcessingError Action}
    (processed : processBlock inputs state block firehoseCursor run = some (state', result))
    (known : ∀ message, result ≠ .error (.unknown message)) :
    state' = state ∧ result = .ok .restart ∨ ∃ persisted mods store',
      AddsFresh inputs.newHost block state.hosts state'.hosts persisted ∧
      state.store.transactBlockOperations inputs.deployment block firehoseCursor mods persisted =
        some (.ok store') ∧ state'.store = store' := by
  unfold processBlock at processed
  split at processed
  · obtain ⟨rfl, rfl⟩ := Prod.mk.inj (Option.some.inj processed)
    exact .inl ⟨rfl, rfl⟩
  · exact absurd (Prod.mk.inj (Option.some.inj processed)).2.symm (known _)
  · obtain ⟨⟨hosts, looped⟩, loopedIs, rest⟩ := Option.bind_eq_some_iff.mp processed
    cases looped with
    | error => exact absurd (Prod.mk.inj (Option.some.inj rest)).2.symm (known _)
    | ok persisted =>
      cases modified : run.modifications with
      | none => simp [modified] at rest
      | some modifications =>
        simp only [modified] at rest
        cases modifications with
        | error => exact absurd (Prod.mk.inj (Option.some.inj rest)).2.symm (known _)
        | ok mods =>
          obtain ⟨written, writtenIs, same⟩ := Option.map_eq_some_iff.mp rest
          cases written with
          | error => exact absurd (Prod.mk.inj same).2.symm (known _)
          | ok store' =>
            obtain ⟨rfl, -⟩ := Prod.mk.inj same
            obtain ⟨added, adds, returned⟩ := createdDataSourcesLoop_adds inputs loopedIs
            exact .inr ⟨persisted, mods, store', returned persisted rfl ▸ adds, writtenIs, rfl⟩

/-- A block processed without an error restarted for a possible reorg, leaving the runner as it
was, or wrote its data sources, which got fresh hosts after the hosts there were. -/
theorem processBlock_eq_ok {state state' : RunnerState δ} {block : Int}
    {firehoseCursor : Option String} {run : BlockRun ι} {action : Action}
    (processed : processBlock inputs state block firehoseCursor run = some (state', .ok action)) :
    state' = state ∨ ∃ persisted mods store',
      AddsFresh inputs.newHost block state.hosts state'.hosts persisted ∧
      state.store.transactBlockOperations inputs.deployment block firehoseCursor mods persisted =
        some (.ok store') ∧ state'.store = store' :=
  (processBlock_cases inputs processed (by simp)).imp_left And.left

/-- A block whose handlers failed deterministically was written first, with the data sources
that got fresh hosts: `process_block` transacts the block before it returns the error. -/
theorem processBlock_eq_deterministic {state state' : RunnerState δ} {block : Int}
    {firehoseCursor : Option String} {run : BlockRun ι}
    (processed : processBlock inputs state block firehoseCursor run =
      some (state', .error .deterministic)) :
    ∃ persisted mods store',
      AddsFresh inputs.newHost block state.hosts state'.hosts persisted ∧
      state.store.transactBlockOperations inputs.deployment block firehoseCursor mods persisted =
        some (.ok store') ∧ state'.store = store' :=
  (processBlock_cases inputs processed (by simp)).resolve_left (by simp)

/-- A block that fails non-deterministically leaves the store as it was but keeps its hosts:
nothing undoes `create_dynamic_data_sources`. -/
theorem processBlock_eq_unknown {state state' : RunnerState δ} {block : Int}
    {firehoseCursor : Option String} {run : BlockRun ι} {message : String}
    (processed : processBlock inputs state block firehoseCursor run =
      some (state', .error (.unknown message))) :
    state'.store = state.store ∧
      ∃ added, AddsFresh inputs.newHost block state.hosts state'.hosts added := by
  unfold processBlock at processed
  split at processed
  · simp at processed
  · obtain ⟨rfl, -⟩ := Prod.mk.inj (Option.some.inj processed)
    exact ⟨rfl, [], addsFresh_nil state.hosts⟩
  · obtain ⟨⟨hosts, looped⟩, loopedIs, rest⟩ := Option.bind_eq_some_iff.mp processed
    obtain ⟨added, adds, -⟩ := createdDataSourcesLoop_adds inputs loopedIs
    have kept : state' = { state with hosts } := by
      cases looped with
      | error => exact (Prod.mk.inj (Option.some.inj rest)).1.symm
      | ok persisted =>
        cases modified : run.modifications with
        | none => simp [modified] at rest
        | some result =>
          cases result with
          | error =>
            simp only [modified] at rest
            exact (Prod.mk.inj (Option.some.inj rest)).1.symm
          | ok mods =>
            simp only [modified] at rest
            obtain ⟨written, -, same⟩ := Option.map_eq_some_iff.mp rest
            cases written with
            | error => exact (Prod.mk.inj same).1.symm
            | ok store' =>
              have ended := (Prod.mk.inj same).2
              split at ended <;> cases ended
    subst kept
    exact ⟨rfl, added, adds⟩

/-- `handle_process_block`: a skipped block does nothing; after a processed block the runner
restarts the block stream, stops at the stop block, or goes on. -/
def handleProcessBlock (state : RunnerState δ) (block : Int) (firehoseCursor : Option String)
    (run : BlockRun ι) : Option (RunnerState δ × RunnerOutput) :=
  if run.skipped then some (state, .skipped)
  else (processBlock inputs state block firehoseCursor run).map fun
    | (state, .ok .restart) => (state, .processed .restart)
    | (state, .ok _) =>
      (state, .processed (if inputs.stopBlock.any (· ≤ block) then .stop else .continue))
    | (state, .error .deterministic) => (state, .processingFailed true)
    | (state, .error (.unknown _)) => (state, .processingFailed false)

/-- A block handled without failing was skipped or restarted for a possible reorg, leaving the
runner as it was, or was written with its data sources, which got fresh hosts. -/
theorem handleProcessBlock_cases {state state' : RunnerState δ} {block : Int}
    {firehoseCursor : Option String} {run : BlockRun ι} {output : RunnerOutput}
    (handled : handleProcessBlock inputs state block firehoseCursor run = some (state', output))
    (succeeded : output.succeeded = true) :
    state' = state ∨ ∃ persisted mods store',
      AddsFresh inputs.newHost block state.hosts state'.hosts persisted ∧
      state.store.transactBlockOperations inputs.deployment block firehoseCursor mods persisted =
        some (.ok store') ∧ state'.store = store' := by
  unfold handleProcessBlock at handled
  split at handled
  · simp only [Option.some.injEq, Prod.mk.injEq] at handled
    exact .inl handled.1.symm
  · obtain ⟨⟨state₁, result⟩, processed, same⟩ := Option.map_eq_some_iff.mp handled
    have kept : state₁ = state' := by
      rcases result with (_ | _) | (_ | _ | _) <;> exact (Prod.mk.inj same).1
    subst kept
    rcases result with (_ | _) | action
    · -- a failed processing is no success
      simp [← (Prod.mk.inj same).2, RunnerOutput.succeeded] at succeeded
    · simp [← (Prod.mk.inj same).2, RunnerOutput.succeeded] at succeeded
    · exact processBlock_eq_ok inputs processed

/-- A block handled with a failure that is not deterministic leaves the store as it was, and
keeps the hosts the data sources created before the error got. -/
theorem handleProcessBlock_failed {state state' : RunnerState δ} {block : Int}
    {firehoseCursor : Option String} {run : BlockRun ι}
    (handled : handleProcessBlock inputs state block firehoseCursor run =
      some (state', .processingFailed false)) :
    state'.store = state.store ∧
      ∃ added, AddsFresh inputs.newHost block state.hosts state'.hosts added := by
  unfold handleProcessBlock at handled
  split at handled
  · simp at handled
  · obtain ⟨⟨state₁, result⟩, processed, same⟩ := Option.map_eq_some_iff.mp handled
    rcases result with (_ | message) | action
    · simp at same
    · obtain ⟨rfl, -⟩ := Prod.mk.inj same
      exact processBlock_eq_unknown inputs processed
    · rcases action <;> simp at same

/-- A block handled with a deterministic failure was written, with the data sources that got
fresh hosts. -/
theorem handleProcessBlock_deterministic {state state' : RunnerState δ} {block : Int}
    {firehoseCursor : Option String} {run : BlockRun ι}
    (handled : handleProcessBlock inputs state block firehoseCursor run =
      some (state', .processingFailed true)) :
    ∃ persisted mods store',
      AddsFresh inputs.newHost block state.hosts state'.hosts persisted ∧
      state.store.transactBlockOperations inputs.deployment block firehoseCursor mods persisted =
        some (.ok store') ∧ state'.store = store' := by
  unfold handleProcessBlock at handled
  split at handled
  · simp at handled
  · obtain ⟨⟨state₁, result⟩, processed, same⟩ := Option.map_eq_some_iff.mp handled
    rcases result with (_ | message) | action
    · obtain ⟨rfl, -⟩ := Prod.mk.inj same
      exact processBlock_eq_deterministic inputs processed
    · simp at same
    · rcases action <;> simp at same

/-- A block is handled without failing, or its processing fails. -/
theorem handleProcessBlock_succeeded_or_failed {state state' : RunnerState δ} {block : Int}
    {firehoseCursor : Option String} {run : BlockRun ι} {output : RunnerOutput}
    (handled : handleProcessBlock inputs state block firehoseCursor run = some (state', output)) :
    output.succeeded = true ∨ ∃ deterministic, output = .processingFailed deterministic := by
  unfold handleProcessBlock at handled
  split at handled
  · obtain ⟨-, rfl⟩ := Prod.mk.inj (Option.some.inj handled)
    exact .inl rfl
  · obtain ⟨⟨state₁, result⟩, -, same⟩ := Option.map_eq_some_iff.mp handled
    rcases result with (_ | _) | (_ | _ | _) <;> obtain ⟨-, rfl⟩ := Prod.mk.inj same <;>
      simp [RunnerOutput.succeeded]

/-- `handle_revert`: nothing to do unless the store's block pointer (`unwrap`ped) is past
`revert_to_ptr`; after the store reverted, the hosts created at or after that pointer go. -/
def handleRevert (state : RunnerState δ) (revertToPtr : Int) (firehoseCursor : Option String) :
    Option (RunnerState δ × RunnerOutput) :=
  state.store.writable.blockPtr.bind fun subgraphPtr =>
    if subgraphPtr ≤ revertToPtr then some (state, .nothingToRevert)
    else
      (state.store.revertBlockOperations inputs.deployment revertToPtr firehoseCursor).map fun
        | (store, .error _) => ({ state with store }, .revertFailed)
        | (store, .ok ()) =>
          ({ hosts := SubgraphInstance.revertDataSources state.hosts subgraphPtr, store },
            .reverted subgraphPtr revertToPtr)

omit [DecidableEq δ] in
/-- A revert handled without failing found nothing to revert, leaving the runner as it was, or
reverted the store from its block pointer and popped the hosts created from there on. -/
theorem handleRevert_cases {state state' : RunnerState δ} {revertToPtr : Int}
    {firehoseCursor : Option String} {output : RunnerOutput}
    (handled : handleRevert inputs state revertToPtr firehoseCursor = some (state', output))
    (succeeded : output.succeeded = true) :
    (state' = state ∧ output = .nothingToRevert ∧
      ∃ subgraphPtr, state.store.writable.blockPtr = some subgraphPtr ∧ subgraphPtr ≤ revertToPtr) ∨
      ∃ subgraphPtr, state.store.writable.blockPtr = some subgraphPtr ∧ revertToPtr < subgraphPtr ∧
      output = .reverted subgraphPtr revertToPtr ∧
      state.store.revertBlockOperations inputs.deployment revertToPtr firehoseCursor =
        some (state'.store, .ok ()) ∧
      state'.hosts = SubgraphInstance.revertDataSources state.hosts subgraphPtr := by
  unfold handleRevert at handled
  obtain ⟨subgraphPtr, pointed, rest⟩ := Option.bind_eq_some_iff.mp handled
  split at rest
  · obtain ⟨rfl, rfl⟩ := Prod.mk.inj (Option.some.inj rest)
    exact .inl ⟨rfl, rfl, subgraphPtr, pointed, by assumption⟩
  · obtain ⟨⟨store, reverted⟩, revertedIs, same⟩ := Option.map_eq_some_iff.mp rest
    rcases reverted with _ | ⟨⟩
    · simp [← (Prod.mk.inj same).2, RunnerOutput.succeeded] at succeeded
    · obtain ⟨rfl, rfl⟩ := Prod.mk.inj same
      exact .inr ⟨subgraphPtr, pointed, by omega, rfl, revertedIs, rfl⟩

/-- `handle_stream_event`. -/
def step (state : RunnerState δ) : RunnerEvent ι → Option (RunnerState δ × RunnerOutput)
  | .processBlock block firehoseCursor run => handleProcessBlock inputs state block firehoseCursor run
  | .revert blockPtrTo firehoseCursor => handleRevert inputs state blockPtrTo firehoseCursor

/-- The events of the block streams in turn, across restarts: the outputs up to the runner's
return or a panic, and the runner after the last one unless one panicked. -/
def run : RunnerState δ → List (RunnerEvent ι) → List RunnerOutput × Option (RunnerState δ)
  | state, [] => ([], some state)
  | state, event :: events =>
    match step inputs state event with
    | none => ([], none)
    | some (state, output) =>
      if output.ends then ([output], some state)
      else
        let (outputs, final) := run state events
        (output :: outputs, final)

theorem run_cons_of_step {state next : RunnerState δ} {event : RunnerEvent ι}
    {events : List (RunnerEvent ι)} {output : RunnerOutput}
    (stepped : step inputs state event = some (next, output)) :
    run inputs state (event :: events) =
      if output.ends then ([output], some next)
      else (output :: (run inputs next events).1, (run inputs next events).2) := by
  simp only [run, stepped]

theorem run_cons_of_panic {state : RunnerState δ} {event : RunnerEvent ι}
    {events : List (RunnerEvent ι)} (panics : step inputs state event = none) :
    run inputs state (event :: events) = ([], none) := by
  simp [run, panics]

/-- A run read back from its outputs and from what is observed of the runner it ends with, as a
computation gives them. -/
theorem run_eq_of_computed {α : Type} {state : RunnerState δ} {events : List (RunnerEvent ι)}
    {outputs : List RunnerOutput} {observe : RunnerState δ → α} {observed : α}
    (outputsAre : (run inputs state events).1 = outputs)
    (ends : (run inputs state events).2.map observe = some observed) :
    ∃ final, run inputs state events = (outputs, some final) ∧ observe final = observed := by
  cases ended : (run inputs state events).2 with
  | none =>
    rw [ended] at ends
    cases ends
  | some final =>
    rw [ended, Option.map_some, Option.some.injEq] at ends
    exact ⟨final, Prod.ext outputsAre ended, ends⟩

/-- A run over an event that returns took a step on it, whose output is the run's first, and
then returned or ran on from the state the step left. -/
theorem run_cons_eq_some {state final : RunnerState δ} {event : RunnerEvent ι}
    {events : List (RunnerEvent ι)} {outputs : List RunnerOutput}
    (ran : run inputs state (event :: events) = (outputs, some final)) :
    ∃ next output, step inputs state event = some (next, output) ∧ output ∈ outputs ∧
      (final = next ∨ ∃ later, run inputs next events = (later, some final) ∧ later ⊆ outputs) := by
  cases stepped : step inputs state event with
  | none => simp [run_cons_of_panic inputs stepped] at ran
  | some result =>
    obtain ⟨next, output⟩ := result
    rw [run_cons_of_step inputs stepped] at ran
    refine ⟨next, output, rfl, ?_⟩
    split at ran
    · obtain ⟨rfl, finalIs⟩ := Prod.mk.inj ran
      exact ⟨List.mem_singleton_self _, .inl (Option.some.inj finalIs).symm⟩
    · obtain ⟨rfl, finalIs⟩ := Prod.mk.inj ran
      exact ⟨List.mem_cons_self, .inr ⟨_, Prod.ext rfl finalIs, List.subset_cons_self _ _⟩⟩

/-- What every step keeps, on the events and outputs of a kind, holds after a whole run of
them. -/
theorem run_invariant (invariant : RunnerState δ → Prop) {fits : RunnerEvent ι → Prop}
    {allowed : RunnerOutput → Prop}
    (keeps : ∀ {state state' : RunnerState δ} {event : RunnerEvent ι} {output : RunnerOutput},
      invariant state → fits event → allowed output →
        step inputs state event = some (state', output) → invariant state')
    {state final : RunnerState δ} {events : List (RunnerEvent ι)} {outputs : List RunnerOutput}
    (holds : invariant state) (ran : run inputs state events = (outputs, some final))
    (eventsFit : ∀ event ∈ events, fits event) (outputsAllowed : ∀ output ∈ outputs, allowed output) :
    invariant final := by
  induction events generalizing state outputs with
  | nil =>
    obtain ⟨-, finalIs⟩ := Prod.mk.inj ran
    exact Option.some.inj finalIs ▸ holds
  | cons event events rest =>
    obtain ⟨next, output, stepped, first, returned | ⟨later, ranLater, fewer⟩⟩ :=
      run_cons_eq_some inputs ran
    · exact returned ▸ keeps holds (eventsFit event List.mem_cons_self) (outputsAllowed output first)
        stepped
    · exact rest (keeps holds (eventsFit event List.mem_cons_self) (outputsAllowed output first)
          stepped) ranLater
        (fun later listed => eventsFit later (List.mem_cons_of_mem _ listed))
        (fun output listed => outputsAllowed output (fewer listed))

end SubgraphRunner

end GraphNode
