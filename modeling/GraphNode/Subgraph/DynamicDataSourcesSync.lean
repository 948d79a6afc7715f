import GraphNode.Subgraph.DynamicDataSources

/-!
# The runner's hosts against its store

A runner started on a deployment (`SubgraphInstanceManager::start_subgraph_inner`) builds a host
for each data source of the manifest and then for each dynamic data source the store loads
(`load_dynamic_data_sources`, `core/src/subgraph/loader.rs`).  While it runs it keeps its hosts in
memory, and the store keeps the table of dynamic data sources; a restart replaces the first by
what the second gives.

The two agree after every block written and every revert of the last block: `RunnerState.Synced`
is kept by each event handled without failing, so at every point of such a run a runner started
afresh on the store builds exactly the hosts the running one holds.
-/

namespace GraphNode

variable {δ ι : Type}

/-! ## Starting a runner -/

namespace Loader

/-- One data source of the loop of `load_dynamic_data_sources`, which asserts once more that they
come ordered by creation block. -/
def ensureOrdered (dataSources : List (BlockchainDataSource δ))
    (dataSource : BlockchainDataSource δ) : Except String (List (BlockchainDataSource δ)) :=
  pushOrdered "Assertion failure: new data source has lower creation block than existing ones"
    dataSources dataSource

/-- `load_dynamic_data_sources` on the `Sync` writer, whose `load_dynamic_data_sources` loads the
table at `BLOCK_NUMBER_MAX`. -/
def loadDynamicDataSources (store : SubgraphStore δ) :
    Except String (List (BlockchainDataSource δ)) := do
  let stored ← Dynds.load store.dynamicDataSources blockNumberMax
  stored.foldlM ensureOrdered []

/-- What `load_dynamic_data_sources` returns is the data sources of rows of the store. -/
theorem loadDynamicDataSources_mem {store : SubgraphStore δ}
    {dataSources : List (BlockchainDataSource δ)}
    (loaded : loadDynamicDataSources store = .ok dataSources) :
    ∀ dataSource ∈ dataSources, ∃ row ∈ store.dynamicDataSources, dataSource = row.toDataSource := by
  obtain ⟨stored, storedIs, checked⟩ := Fallible.bind_eq_ok.mp loaded
  rw [Fallible.foldlM_eq_ok_of_pushes (fun _ _ _ => pushOrdered_eq_ok) checked, List.nil_append]
  exact Dynds.load_mem storedIs

end Loader

namespace SubgraphInstance

/-- `SubgraphInstance::from_manifest`: a host for each data source, in order; it fails when
`new_host` does. -/
def fromManifest (newHost : BlockchainDataSource δ → Except String Unit)
    (dataSources : List (BlockchainDataSource δ)) : Except String (List (BlockchainDataSource δ)) :=
  dataSources.foldlM (fun hosts dataSource => do
    newHost dataSource
    pure (hosts ++ [dataSource])) []

/-- Data sources that each get a host all get one, in order. -/
theorem foldlM_newHost {newHost : BlockchainDataSource δ → Except String Unit}
    {dataSources : List (BlockchainDataSource δ)}
    (built : ∀ dataSource ∈ dataSources, newHost dataSource = .ok ())
    (hosts : List (BlockchainDataSource δ)) :
    dataSources.foldlM (fun hosts dataSource => do
      newHost dataSource
      pure (hosts ++ [dataSource])) hosts = .ok (hosts ++ dataSources) := by
  induction dataSources generalizing hosts with
  | nil => simp; rfl
  | cons dataSource dataSources pushed =>
    rw [List.foldlM_cons, built dataSource List.mem_cons_self]
    show dataSources.foldlM _ (hosts ++ [dataSource]) = _
    rw [pushed fun later listed => built later (List.mem_cons_of_mem _ listed)]
    simp

theorem fromManifest_of_built {newHost : BlockchainDataSource δ → Except String Unit}
    {dataSources : List (BlockchainDataSource δ)}
    (built : ∀ dataSource ∈ dataSources, newHost dataSource = .ok ()) :
    fromManifest newHost dataSources = .ok dataSources :=
  foldlM_newHost built []

/-- The hosts `from_manifest` builds, when it returns, are the data sources, in order. -/
theorem fromManifest_eq_ok {newHost : BlockchainDataSource δ → Except String Unit}
    {dataSources hosts : List (BlockchainDataSource δ)}
    (built : fromManifest newHost dataSources = .ok hosts) : hosts = dataSources := by
  have pushes : ∀ (hosts : List (BlockchainDataSource δ)) dataSource pushed,
      (do
        newHost dataSource
        pure (hosts ++ [dataSource]) : Except String _) = .ok pushed →
        pushed = hosts ++ [dataSource] := by
    intro hosts dataSource pushed made
    obtain ⟨-, -, same⟩ := Fallible.bind_eq_ok.mp made
    exact (Except.ok.inj same).symm
  simpa using Fallible.foldlM_eq_ok_of_pushes pushes built

end SubgraphInstance

namespace SubgraphInstanceManager

/-- The hosts `start_subgraph_inner` gives the subgraph instance: those of the manifest's data
sources extended by the dynamic ones loaded from the store. -/
def startSubgraphInner (newHost : BlockchainDataSource δ → Except String Unit)
    (manifest : List (BlockchainDataSource δ)) (store : SubgraphStore δ) :
    Except String (List (BlockchainDataSource δ)) := do
  let dataSources ← Loader.loadDynamicDataSources store
  SubgraphInstance.fromManifest newHost (manifest ++ dataSources)

/-- Every host a runner started on a store builds is one of the manifest's or one for a row of
the store. -/
theorem startSubgraphInner_mem {newHost : BlockchainDataSource δ → Except String Unit}
    {manifest restarted : List (BlockchainDataSource δ)} {store : SubgraphStore δ}
    (started : startSubgraphInner newHost manifest store = .ok restarted) :
    ∀ host ∈ restarted,
      host ∈ manifest ∨ ∃ row ∈ store.dynamicDataSources, host = row.toDataSource := by
  obtain ⟨loaded, loadedIs, built⟩ := Fallible.bind_eq_ok.mp started
  intro host listed
  rw [SubgraphInstance.fromManifest_eq_ok built, List.mem_append] at listed
  exact listed.imp_right (Loader.loadDynamicDataSources_mem loadedIs host)

end SubgraphInstanceManager

/-! ## The invariant -/

/-- A runner whose hosts are those of the manifest followed by one for each row of the store's
table, in order: the manifest's created at no block, the rows ascending by block and none past
the deployment's head, itself at most `BLOCK_NUMBER_MAX`; the dynamic data sources fresh; and a
host built for each data source. -/
structure RunnerState.Synced (newHost : BlockchainDataSource δ → Except String Unit)
    (manifest : List (BlockchainDataSource δ)) (state : RunnerState δ) : Prop where
  hosts : state.hosts = manifest ++ state.store.dynamicDataSources.map (·.toDataSource)
  manifestFirst : ∀ host ∈ manifest, host.creationBlock = none
  ascending : (state.store.dynamicDataSources.map (·.ethereumBlockNumber)).Pairwise (· ≤ ·)
  belowHead : ∀ row ∈ state.store.dynamicDataSources,
    ∃ head, state.store.writable.store.head = some head ∧ row.ethereumBlockNumber ≤ head
  headAtMostMax : state.store.writable.store.head.all (· ≤ blockNumberMax)
  fresh : AddedFresh manifest (state.store.dynamicDataSources.map (·.toDataSource))
  built : ∀ host ∈ state.hosts, newHost host = .ok ()

/-- The block numbers of an event fit `BlockNumber`, an `i32`: at most `BLOCK_NUMBER_MAX`.  The
block of a revert is below the head, so only a processed block can break this. -/
def RunnerEvent.blockNumbersFit : RunnerEvent ι → Bool
  | .processBlock block _ _ => decide (block ≤ blockNumberMax)
  | .revert _ _ => true

/-- Whether the output is not a revert of several blocks at once. -/
def RunnerOutput.revertsOneBlock : RunnerOutput → Bool
  | .reverted subgraphPtr blockPtrTo => decide (subgraphPtr = blockPtrTo + 1)
  | _ => true

/-- A runner on a store without dynamic data sources, holding the hosts of the manifest, is
synced. -/
theorem RunnerState.synced_of_manifest {newHost : BlockchainDataSource δ → Except String Unit}
    {manifest : List (BlockchainDataSource δ)} {store : SubgraphStore δ}
    (manifestFirst : ∀ host ∈ manifest, host.creationBlock = none)
    (built : ∀ host ∈ manifest, newHost host = .ok ()) (empty : store.dynamicDataSources = [])
    (atMostMax : store.writable.store.head.all (· ≤ blockNumberMax)) :
    RunnerState.Synced newHost manifest ⟨manifest, store⟩ :=
  ⟨by simp [empty], manifestFirst, by simp [empty], by simp [empty], atMostMax,
    by simpa [empty] using addedFresh_nil manifest, built⟩

namespace RunnerState.Synced

variable {newHost : BlockchainDataSource δ → Except String Unit}
  {manifest : List (BlockchainDataSource δ)} {state state' : RunnerState δ} {deployment : String}
  {firehoseCursor : Option String}

theorem head_le_max (synced : state.Synced newHost manifest) {head : Int}
    (atHead : state.store.writable.store.head = some head) : head ≤ blockNumberMax := by
  simpa [atHead] using synced.headAtMostMax

/-- A runner started afresh on the store of a synced runner builds the hosts it holds. -/
theorem startSubgraphInner (synced : state.Synced newHost manifest) :
    SubgraphInstanceManager.startSubgraphInner newHost manifest state.store = .ok state.hosts := by
  have belowMax : ∀ row ∈ state.store.dynamicDataSources,
      row.ethereumBlockNumber ≤ blockNumberMax := by
    intro row listed
    obtain ⟨head, atHead, below⟩ := synced.belowHead row listed
    exact below.trans (synced.head_le_max atHead)
  have loaded : Loader.loadDynamicDataSources state.store =
      .ok (state.store.dynamicDataSources.map (·.toDataSource)) := by
    rw [Loader.loadDynamicDataSources, Dynds.load_of_ascending synced.ascending belowMax]
    exact foldlM_pushOrdered (DynamicDataSourceRow.toDataSource_ascending synced.ascending)
      (fun _ _ => rfl)
  rw [SubgraphInstanceManager.startSubgraphInner, loaded]
  show SubgraphInstance.fromManifest newHost (manifest ++ _) = _
  rw [← synced.hosts]
  exact SubgraphInstance.fromManifest_of_built synced.built

/-- Writing a block with the data sources that got fresh hosts keeps a runner synced. -/
theorem transact {block : Int} {mods : List EntityModification}
    {persisted : List (BlockchainDataSource δ)} (synced : state.Synced newHost manifest)
    (adds : AddsFresh newHost block state.hosts state'.hosts persisted)
    (written : state.store.transactBlockOperations deployment block firehoseCursor mods persisted =
      some (.ok state'.store))
    (fits : block ≤ blockNumberMax) : state'.Synced newHost manifest := by
  obtain ⟨advanced, head, -, rows⟩ := SubgraphStore.transactBlockOperations_eq_ok written
  have before : ∀ row ∈ state.store.dynamicDataSources, row.ethereumBlockNumber < block := by
    intro row listed
    obtain ⟨old, atOld, below⟩ := synced.belowHead row listed
    rw [atOld] at advanced
    simp only [Option.all_some, decide_eq_true_eq] at advanced
    omega
  have inserted : ∀ row ∈ state'.store.dynamicDataSources,
      row ∈ state.store.dynamicDataSources ∨ row.ethereumBlockNumber = block := by
    intro row listed
    rw [rows, Dynds.insert, List.mem_append] at listed
    rcases listed with old | new
    · exact .inl old
    · obtain ⟨dataSource, -, rfl⟩ := List.mem_map.mp new
      exact .inr rfl
  have dataSources : state'.store.dynamicDataSources.map (·.toDataSource) =
      state.store.dynamicDataSources.map (·.toDataSource) ++ persisted := by
    rw [rows, Dynds.insert_toDataSource adds.created]
  refine ⟨?_, synced.manifestFirst, ?_, ?_, ?_, ?_, ?_⟩
  · rw [adds.appended, synced.hosts, dataSources, List.append_assoc]
  · -- the new rows are all at the block, after the old ones
    rw [rows, Dynds.insert, List.map_append, List.pairwise_append, List.map_map]
    refine ⟨synced.ascending, ?_, ?_⟩
    · exact List.pairwise_map.mpr (List.pairwise_of_forall fun _ _ => le_refl block)
    · intro old oldListed new newListed
      obtain ⟨row, listed, rfl⟩ := List.mem_map.mp oldListed
      obtain ⟨dataSource, -, rfl⟩ := List.mem_map.mp newListed
      exact (before row listed).le
  · intro row listed
    refine ⟨block, head, ?_⟩
    rcases inserted row listed with old | new
    · exact (before row old).le
    · exact new.le
  · simpa [head] using fits
  · rw [dataSources]
    exact synced.fresh.append (synced.hosts ▸ adds.fresh)
  · intro host listed
    rw [adds.appended, List.mem_append] at listed
    rcases listed with old | new
    · exact synced.built host old
    · exact adds.built host new

/-- Reverting the store to the block before its head, and popping the hosts created from the
head on, keeps a runner synced. -/
theorem revert {blockPtrTo : Int} (synced : state.Synced newHost manifest)
    (reverted : state.store.revertBlockOperations deployment blockPtrTo firehoseCursor =
      some (state'.store, .ok ()))
    (popped : state'.hosts = SubgraphInstance.revertDataSources state.hosts (blockPtrTo + 1)) :
    state'.Synced newHost manifest := by
  obtain ⟨⟨old, atOld, back⟩, head, -, rows⟩ := SubgraphStore.revertBlockOperations_eq_ok reverted
  have hosts : state'.hosts = manifest ++ state'.store.dynamicDataSources.map (·.toDataSource) := by
    rw [popped, synced.hosts,
      SubgraphInstance.revertDataSources_append synced.manifestFirst synced.ascending, rows]
  have kept : state'.store.dynamicDataSources.Sublist state.store.dynamicDataSources :=
    rows ▸ List.filter_sublist
  refine ⟨hosts, synced.manifestFirst, synced.ascending.sublist (kept.map _), ?_, ?_,
    synced.fresh.sublist (kept.map _), ?_⟩
  · intro row listed
    rw [rows, Dynds.revert, List.mem_filter, decide_eq_true_eq] at listed
    exact ⟨blockPtrTo, head, by omega⟩
  · have atMost := synced.head_le_max atOld
    simp only [head, Option.all_some, decide_eq_true_eq]
    omega
  · -- the hosts left are among the hosts there were
    intro host listed
    rw [hosts] at listed
    exact synced.built host (synced.hosts ▸ (kept.map _).append_left manifest |>.subset listed)

variable {inputs : RunnerInputs ι δ}

theorem handleRevert {blockPtrTo : Int} {output : RunnerOutput}
    (synced : state.Synced inputs.newHost manifest)
    (handled : SubgraphRunner.handleRevert inputs state blockPtrTo firehoseCursor =
      some (state', output))
    (succeeded : output.succeeded = true) (oneBlock : output.revertsOneBlock = true) :
    state'.Synced inputs.newHost manifest := by
  rcases SubgraphRunner.handleRevert_cases inputs handled succeeded with
    ⟨rfl, -, -⟩ | ⟨subgraphPtr, -, -, rfl, reverted, popped⟩
  · exact synced
  · have lastBlock : subgraphPtr = blockPtrTo + 1 := by
      simpa [RunnerOutput.revertsOneBlock] using oneBlock
    exact synced.revert reverted (lastBlock ▸ popped)

variable [DecidableEq δ]

theorem handleProcessBlock {block : Int} {run : BlockRun ι} {output : RunnerOutput}
    (synced : state.Synced inputs.newHost manifest)
    (handled : SubgraphRunner.handleProcessBlock inputs state block firehoseCursor run =
      some (state', output))
    (succeeded : output.succeeded = true) (fits : block ≤ blockNumberMax) :
    state'.Synced inputs.newHost manifest := by
  rcases SubgraphRunner.handleProcessBlock_cases inputs handled succeeded with
    rfl | ⟨persisted, mods, store', adds, written, stored⟩
  · exact synced
  · exact synced.transact adds (stored ▸ written) fits

/-- Each event handled without failing, with no revert of several blocks, keeps a runner
synced. -/
theorem step {event : RunnerEvent ι} {output : RunnerOutput}
    (synced : state.Synced inputs.newHost manifest)
    (stepped : SubgraphRunner.step inputs state event = some (state', output))
    (fits : event.blockNumbersFit = true) (succeeded : output.succeeded = true)
    (oneBlock : output.revertsOneBlock = true) : state'.Synced inputs.newHost manifest := by
  cases event with
  | processBlock block firehoseCursor run =>
    exact synced.handleProcessBlock stepped succeeded (by simpa [RunnerEvent.blockNumbersFit] using fits)
  | revert blockPtrTo firehoseCursor => exact synced.handleRevert stepped succeeded oneBlock

/-- A whole run of such events keeps a runner synced. -/
theorem run {events : List (RunnerEvent ι)} {outputs : List RunnerOutput} {final : RunnerState δ}
    (synced : state.Synced inputs.newHost manifest)
    (ran : SubgraphRunner.run inputs state events = (outputs, some final))
    (fits : ∀ event ∈ events, event.blockNumbersFit = true)
    (handled : ∀ output ∈ outputs, output.succeeded = true ∧ output.revertsOneBlock = true) :
    final.Synced inputs.newHost manifest :=
  SubgraphRunner.run_invariant inputs (fun state => state.Synced inputs.newHost manifest)
    (fun synced fits handled stepped => synced.step stepped fits handled.1 handled.2) synced ran
    fits handled

end RunnerState.Synced

/-! ## Restarting after a run -/

section Restart

variable [DecidableEq δ] {inputs : RunnerInputs ι δ} {manifest : List (BlockchainDataSource δ)}

/-- Over every run of events handled without failing, a runner started afresh builds exactly the
hosts the running one holds. -/
theorem startSubgraphInner_eq_hosts_of_run {state final : RunnerState δ}
    {events : List (RunnerEvent ι)} {outputs : List RunnerOutput}
    (synced : state.Synced inputs.newHost manifest)
    (ran : SubgraphRunner.run inputs state events = (outputs, some final))
    (fits : ∀ event ∈ events, event.blockNumbersFit = true)
    (handled : ∀ output ∈ outputs, output.succeeded = true ∧ output.revertsOneBlock = true) :
    SubgraphInstanceManager.startSubgraphInner inputs.newHost manifest final.store =
      .ok final.hosts :=
  (synced.run ran fits handled).startSubgraphInner

end Restart

/-- A runner of `"deployment"` whose template instances are their own data sources, with no limit
on data sources, filters that are not static and every host built. -/
def templateRunner : RunnerInputs Nat Nat :=
  ⟨"deployment", false, none, none, fun info => .ok info, fun _ => .ok ()⟩

/-- The runner started on `thingDeployment` before its first block, with one data source in its
manifest. -/
def thingRunner : RunnerState Nat :=
  ⟨[⟨0, none⟩], ⟨⟨none, none, thingDeployment none⟩, []⟩⟩

theorem thingRunner_synced : thingRunner.Synced templateRunner.newHost [⟨0, none⟩] :=
  RunnerState.synced_of_manifest (by decide) (fun _ _ => rfl) rfl rfl

/-- A block whose handlers create one data source from the template instance `info`. -/
def creating (info : Nat) : BlockRun Nat := ⟨false, .created [info], [], some (.ok []), false⟩

/-- Blocks 1 and 2 create data sources 7 and 8, and block 2 is reverted. -/
def thingEvents : List (RunnerEvent Nat) :=
  [.processBlock 1 none (creating 7), .processBlock 2 none (creating 8), .revert 1 none]

theorem startSubgraphInner_eq_hosts_of_run_thingRunner :
    ∃ final, SubgraphRunner.run templateRunner thingRunner thingEvents =
        ([.processed .restart, .processed .restart, .reverted 2 1], some final) ∧
      final.hosts = [⟨0, none⟩, ⟨7, some 1⟩] ∧
      SubgraphInstanceManager.startSubgraphInner templateRunner.newHost [⟨0, none⟩] final.store =
        .ok final.hosts := by
  obtain ⟨final, ran, hosts⟩ : ∃ final, SubgraphRunner.run templateRunner thingRunner thingEvents =
      ([.processed .restart, .processed .restart, .reverted 2 1], some final) ∧
        final.hosts = [⟨0, none⟩, ⟨7, some 1⟩] :=
    SubgraphRunner.run_eq_of_computed templateRunner (by decide +kernel) (by decide +kernel)
  exact ⟨final, ran, hosts,
    startSubgraphInner_eq_hosts_of_run thingRunner_synced ran (by decide) (by decide)⟩

/-! ## Where the hosts and the store part -/

/-- A host the runner holds while no row of the store has its data source, by what
`is_duplicate_of` compares. -/
structure RunnerState.Unpersisted (state : RunnerState δ) (host : BlockchainDataSource δ) :
    Prop where
  held : host ∈ state.hosts
  unstored : ∀ row ∈ state.store.dynamicDataSources, row.identity ≠ host.identity

/-- Whether the event is a revert. -/
def RunnerEvent.isRevert : RunnerEvent ι → Bool
  | .processBlock .. => false
  | .revert .. => true

section Diverging

variable {inputs : RunnerInputs ι δ} {manifest : List (BlockchainDataSource δ)}
  {state state' : RunnerState δ} {firehoseCursor : Option String}

/-- A revert of several blocks at once keeps the hosts whose rows the store deletes, so a fresh
start builds none of them. -/
theorem handleRevert_keeps_deleted_host {blockPtrTo subgraphPtr : Int}
    {row : DynamicDataSourceRow δ} (synced : state.Synced inputs.newHost manifest)
    (handled : SubgraphRunner.handleRevert inputs state blockPtrTo firehoseCursor =
      some (state', .reverted subgraphPtr blockPtrTo))
    (stored : row ∈ state.store.dynamicDataSources)
    (reverted : blockPtrTo < row.ethereumBlockNumber) (kept : row.ethereumBlockNumber < subgraphPtr) :
    row.toDataSource ∈ state'.hosts ∧
      ∀ restarted, SubgraphInstanceManager.startSubgraphInner inputs.newHost manifest
        state'.store = .ok restarted → row.toDataSource ∉ restarted := by
  rcases SubgraphRunner.handleRevert_cases inputs handled rfl with
    ⟨-, nothing, -⟩ | ⟨pointer, -, -, same, revertedIs, popped⟩
  · cases nothing
  · obtain ⟨rfl, -⟩ := RunnerOutput.reverted.inj same
    obtain ⟨-, -, -, rows⟩ := SubgraphStore.revertBlockOperations_eq_ok revertedIs
    refine ⟨?_, fun restarted started listed => ?_⟩
    · rw [popped, synced.hosts,
        SubgraphInstance.revertDataSources_append synced.manifestFirst synced.ascending]
      exact List.mem_append_right _
        (List.mem_map_of_mem (List.mem_filter.mpr ⟨stored, decide_eq_true kept⟩))
    · rcases SubgraphInstanceManager.startSubgraphInner_mem started _ listed with
        manifestHost | ⟨other, otherStored, same⟩
      · nomatch synced.manifestFirst _ manifestHost
      · rw [rows, Dynds.revert, List.mem_filter, decide_eq_true_eq] at otherStored
        have sameBlock : row.ethereumBlockNumber = other.ethereumBlockNumber := by
          simpa [DynamicDataSourceRow.toDataSource] using congrArg (·.creationBlock) same
        omega

variable [DecidableEq δ]

/-- Every block handled without a deterministic error keeps a host held and unpersisted: a block
written persists only data sources fresh against the hosts, and a failed one writes nothing. -/
theorem RunnerState.Unpersisted.handleProcessBlock {host : BlockchainDataSource δ} {block : Int}
    {run : BlockRun ι} {output : RunnerOutput} (unpersisted : state.Unpersisted host)
    (handled : SubgraphRunner.handleProcessBlock inputs state block firehoseCursor run =
      some (state', output))
    (nondeterministic : output ≠ .processingFailed true) : state'.Unpersisted host := by
  rcases SubgraphRunner.handleProcessBlock_succeeded_or_failed inputs handled with
    succeeded | ⟨deterministic, rfl⟩
  · rcases SubgraphRunner.handleProcessBlock_cases inputs handled succeeded with
      rfl | ⟨persisted, mods, store', adds, written, stored⟩
    · exact unpersisted
    · obtain ⟨-, -, -, rows⟩ := SubgraphStore.transactBlockOperations_eq_ok written
      refine ⟨adds.appended ▸ List.mem_append_left _ unpersisted.held, fun row listed => ?_⟩
      rw [stored, rows, Dynds.insert, List.mem_append] at listed
      rcases listed with old | new
      · exact unpersisted.unstored row old
      · obtain ⟨dataSource, persistedListed, rfl⟩ := List.mem_map.mp new
        exact fun same => adds.fresh.2 dataSource persistedListed host unpersisted.held same.symm
  · cases deterministic
    · obtain ⟨store, _, adds⟩ := SubgraphRunner.handleProcessBlock_failed inputs handled
      exact ⟨adds.appended ▸ List.mem_append_left _ unpersisted.held, store ▸ unpersisted.unstored⟩
    · exact absurd rfl nondeterministic

/-- So does a whole run of blocks with no deterministic error. -/
theorem RunnerState.Unpersisted.run {host : BlockchainDataSource δ} {final : RunnerState δ}
    {events : List (RunnerEvent ι)} {outputs : List RunnerOutput}
    (unpersisted : state.Unpersisted host)
    (ran : SubgraphRunner.run inputs state events = (outputs, some final))
    (noRevert : ∀ event ∈ events, event.isRevert = false)
    (nondeterministic : ∀ output ∈ outputs, output ≠ .processingFailed true) :
    final.Unpersisted host := by
  refine SubgraphRunner.run_invariant inputs (·.Unpersisted host) (fun {_ _ event _} held
    blocks allowed stepped => ?_) unpersisted ran noRevert nondeterministic
  cases event with
  | processBlock => exact held.handleProcessBlock stepped allowed
  | revert => cases blocks

/-- The hosts of a block that failed non-deterministically stay held but are never written,
however often the block is retried. -/
theorem failedBlock_hosts_never_persisted {state₁ final : RunnerState δ} {block : Int}
    {run : BlockRun ι} {events : List (RunnerEvent ι)} {outputs : List RunnerOutput}
    (synced : state.Synced inputs.newHost manifest)
    (failed : SubgraphRunner.handleProcessBlock inputs state block firehoseCursor run =
      some (state₁, .processingFailed false))
    (ran : SubgraphRunner.run inputs state₁ events = (outputs, some final))
    (noRevert : ∀ event ∈ events, event.isRevert = false)
    (nondeterministic : ∀ output ∈ outputs, output ≠ .processingFailed true) :
    ∃ added, state₁.hosts = state.hosts ++ added ∧ ∀ host ∈ added, host ∈ final.hosts ∧
      ∀ restarted, SubgraphInstanceManager.startSubgraphInner inputs.newHost manifest
        final.store = .ok restarted → ∀ other ∈ restarted, other.identity ≠ host.identity := by
  obtain ⟨store, added, adds⟩ := SubgraphRunner.handleProcessBlock_failed inputs failed
  refine ⟨added, adds.appended, fun host hostAdded => ?_⟩
  have unpersisted : state₁.Unpersisted host := by
    refine ⟨adds.appended ▸ List.mem_append_right _ hostAdded, fun row listed => ?_⟩
    have hosted : row.toDataSource ∈ state.hosts :=
      synced.hosts ▸ List.mem_append_right _ (List.mem_map_of_mem (store ▸ listed))
    exact adds.fresh.2 host hostAdded _ hosted
  have kept := unpersisted.run ran noRevert nondeterministic
  refine ⟨kept.held, fun restarted started other listed => ?_⟩
  rcases SubgraphInstanceManager.startSubgraphInner_mem started other listed with
    manifestHost | ⟨row, stored, rfl⟩
  · exact adds.fresh.2 host hostAdded other (synced.hosts ▸ List.mem_append_left _ manifestHost)
  · exact kept.unstored row stored

end Diverging

/-- A runner after blocks 1 and 2 of `thingDeployment` created data sources 7 and 8. -/
def twoBlocksRunner : RunnerState Nat :=
  ⟨[⟨0, none⟩, ⟨7, some 1⟩, ⟨8, some 2⟩],
    ⟨⟨some 2, none, thingDeployment (some 2)⟩, [⟨7, 1⟩, ⟨8, 2⟩]⟩⟩

theorem twoBlocksRunner_synced : twoBlocksRunner.Synced templateRunner.newHost [⟨0, none⟩] where
  hosts := rfl
  manifestFirst := by decide
  ascending := by decide
  belowHead row listed := ⟨2, rfl, by
    simp only [twoBlocksRunner, List.mem_cons, List.not_mem_nil, or_false] at listed
    rcases listed with rfl | rfl <;> decide⟩
  headAtMostMax := by decide
  fresh := ⟨by decide, by decide⟩
  built _ _ := rfl

theorem handleRevert_keeps_deleted_host_twoBlocksRunner :
    ∃ state', SubgraphRunner.handleRevert templateRunner twoBlocksRunner 0 none =
        some (state', .reverted 2 0) ∧
      (⟨7, some 1⟩ : BlockchainDataSource Nat) ∈ state'.hosts ∧
      ∀ restarted, SubgraphInstanceManager.startSubgraphInner templateRunner.newHost [⟨0, none⟩]
        state'.store = .ok restarted → (⟨7, some 1⟩ : BlockchainDataSource Nat) ∉ restarted := by
  obtain ⟨⟨state', output⟩, revertedIs⟩ : ∃ result,
      SubgraphRunner.handleRevert templateRunner twoBlocksRunner 0 none = some result :=
    Option.isSome_iff_exists.mp (by decide +kernel)
  have computed : (SubgraphRunner.handleRevert templateRunner twoBlocksRunner 0 none).map (·.2) =
      some (.reverted 2 0) := by decide +kernel
  rw [revertedIs, Option.map_some, Option.some.injEq] at computed
  subst computed
  exact ⟨state', revertedIs, handleRevert_keeps_deleted_host twoBlocksRunner_synced revertedIs
    (by decide : (⟨7, 1⟩ : DynamicDataSourceRow Nat) ∈ twoBlocksRunner.store.dynamicDataSources)
    (by decide) (by decide)⟩

/-- A block whose handlers create data source 7 and whose modifications then fail. -/
def failing : BlockRun Nat := ⟨false, .created [7], [], some (.error "handler failed"), false⟩

/-- Data source 7 created at block 1 of `thingRunner` gets a host. -/
theorem createdDataSourcesLoop_thingRunner_seven :
    SubgraphRunner.createdDataSourcesLoop templateRunner 1 [] thingRunner.hosts [7] =
      some ([⟨0, none⟩, ⟨7, some 1⟩], .ok [⟨7, some 1⟩]) := by
  rw [SubgraphRunner.createdDataSourcesLoop]
  decide

/-- The host added to those of `thingRunner` by block 1 is data source 7's. -/
theorem seven_mem_of_thingRunner_hosts {added : List (BlockchainDataSource Nat)}
    (addedIs : [⟨0, none⟩, ⟨7, some 1⟩] = thingRunner.hosts ++ added) :
    (⟨7, some 1⟩ : BlockchainDataSource Nat) ∈ added := by
  have : [⟨0, none⟩, ⟨7, some 1⟩] = [⟨0, none⟩] ++ added := addedIs
  simp [List.cons_append, List.nil_append, List.cons.injEq] at this
  simp [← this]

theorem failedBlock_hosts_never_persisted_thingRunner :
    ∃ final, SubgraphRunner.run templateRunner ⟨[⟨0, none⟩, ⟨7, some 1⟩], thingRunner.store⟩
        [.processBlock 1 none (creating 7)] = ([.processed .restart], some final) ∧
      (⟨7, some 1⟩ : BlockchainDataSource Nat) ∈ final.hosts ∧
      ∀ restarted, SubgraphInstanceManager.startSubgraphInner templateRunner.newHost [⟨0, none⟩]
        final.store = .ok restarted → ∀ other ∈ restarted, other.identity ≠ 7 := by
  have failed : SubgraphRunner.handleProcessBlock templateRunner thingRunner 1 none failing =
      some (⟨[⟨0, none⟩, ⟨7, some 1⟩], thingRunner.store⟩, .processingFailed false) := by
    simp [SubgraphRunner.handleProcessBlock, SubgraphRunner.processBlock, failing,
      createdDataSourcesLoop_thingRunner_seven]
  obtain ⟨final, ran, -⟩ : ∃ final, SubgraphRunner.run templateRunner
      ⟨[⟨0, none⟩, ⟨7, some 1⟩], thingRunner.store⟩ [.processBlock 1 none (creating 7)] =
        ([.processed .restart], some final) ∧ final.hosts = [⟨0, none⟩, ⟨7, some 1⟩] :=
    SubgraphRunner.run_eq_of_computed templateRunner (by decide +kernel) (by decide +kernel)
  obtain ⟨added, addedIs, never⟩ := failedBlock_hosts_never_persisted thingRunner_synced failed ran
    (by decide) (by decide)
  obtain ⟨held, restart⟩ := never _ (seven_mem_of_thingRunner_hosts addedIs)
  exact ⟨final, ran, held, restart⟩

end GraphNode
