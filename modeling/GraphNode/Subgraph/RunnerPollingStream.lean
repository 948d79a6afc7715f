import GraphNode.Subgraph.DynamicDataSourcesSync
import GraphNode.Blockchain.PollingBlockStreamInvariant

/-!
# A runner on a polling block stream

`SubgraphRunner::run` starts a block stream at the store's block pointer (`new_block_stream`),
hands its items one after the other to `handle_stream_event`, which drops the errors, and starts a
new stream when an action asks for a restart.  A polling stream reverts one block at a time, to
the parent of its pointer, and the runner's block pointer, which moves only with the blocks it
writes and the reverts it makes, never passes the stream's.  So every revert the runner makes goes
back from the block after the one it reverts to, and a synced runner stays synced over each stream
(`startSubgraphInner_eq_hosts_on_pollingStream`); a restarted stream starts again at the runner's
pointer.
-/

namespace GraphNode

variable {δ ι : Type}

/-- The block an event of a block stream is about: the block processed or the block reverted
to. -/
def BlockStreamEvent.ptr : BlockStreamEvent → BlockPtr
  | .revert ptr => ptr
  | .processBlock block => block.ptr

/-- The events `handle_stream_event` handles from the items of a block stream, each block with
the answers its processing gets: the errors are logged and dropped by `handle_err`, and a polling
stream's cursor is none.  The events end with the answers. -/
def streamEvents : List (Except String BlockStreamEvent) → List (BlockRun ι) → List (RunnerEvent ι)
  | [], _ => []
  | .error _ :: items, runs => streamEvents items runs
  | .ok (.revert ptr) :: items, runs => .revert ptr.number none :: streamEvents items runs
  | .ok (.processBlock block) :: items, run :: runs =>
    .processBlock block.ptr.number none run :: streamEvents items runs
  | .ok (.processBlock _) :: _, [] => []

/-- A chain whose parents are the blocks before. -/
def ParentsPrecede (parentOf : BlockPtr → Option BlockPtr) : Prop :=
  ∀ ptr parent, parentOf ptr = some parent → parent.number + 1 = ptr.number

/-- The runner's block pointer is at or before the stream's. -/
def RunnerState.Behind (pointer : Option BlockPtr) (state : RunnerState δ) : Prop :=
  ∀ subgraphPtr ∈ state.store.writable.blockPtr,
    ∃ ptr, pointer = some ptr ∧ subgraphPtr ≤ ptr.number

/-! ## The stream's items -/

namespace PollingBlockStream

variable {overflowChecks : Bool}

/-- Every block a run of a consistent stream against honest chains processes or reverts to is a
block of the chain. -/
theorem run_valid {parentOf : BlockPtr → Option BlockPtr} {stream : PollingBlockStream}
    (wakes : List Wake) (consistent : stream.Consistent)
    (honest : ∀ chain, Wake.ready chain ∈ wakes → chain.Honest parentOf) :
    ∀ event, .ok event ∈ Output.items (stream.run overflowChecks wakes).1 → event.ptr.Valid := by
  induction wakes generalizing stream with
  | nil => nofun
  | cons wake wakes valid =>
    cases stepped : stream.pollStep overflowChecks wake with
    | none =>
      rw [run_cons_of_panic stepped]
      nofun
    | some result =>
      obtain ⟨next, output⟩ := result
      obtain ⟨consistent', moves⟩ := pollStep_coherent consistent
        (fun chain woken => honest chain (woken ▸ List.mem_cons_self ..)) stepped
      have later := valid consistent' fun chain listed => honest chain (List.mem_cons_of_mem _ listed)
      rw [run_cons_of_step stepped]
      rcases output with _ | _ | _ | parent | block
      · exact later
      · exact later
      · exact fun event listed => later event (List.mem_cons.mp listed |>.resolve_left nofun)
      · rintro event (_ | ⟨_, listed⟩)
        · exact consistent'.current parent (moves.2 ▸ rfl)
        · exact later event listed
      · rintro event (_ | ⟨_, listed⟩)
        · exact consistent'.current block.ptr (moves.2 ▸ rfl)
        · exact later event listed

end PollingBlockStream

/-! ## The runner stays behind the stream -/

namespace RunnerState.Behind

variable {inputs : RunnerInputs ι δ} {state state' : RunnerState δ}
  {firehoseCursor : Option String} {output : RunnerOutput}

/-- A revert to the parent of the stream's pointer, handled without failing, is of one block at
most, and leaves the runner behind the parent. -/
theorem handleRevert {parentOf : BlockPtr → Option BlockPtr} {ptr parent : BlockPtr}
    (precede : ParentsPrecede parentOf) (parentIs : parentOf ptr = some parent)
    (behind : state.Behind (some ptr))
    (handled : SubgraphRunner.handleRevert inputs state parent.number firehoseCursor =
      some (state', output))
    (succeeded : output.succeeded = true) :
    output.revertsOneBlock = true ∧ state'.Behind (some parent) := by
  have before := precede ptr parent parentIs
  rcases SubgraphRunner.handleRevert_cases inputs handled succeeded with
    ⟨rfl, rfl, subgraphPtr, pointed, nothing⟩ |
      ⟨subgraphPtr, pointed, back, rfl, reverted, -⟩
  · refine ⟨rfl, fun current listed => ⟨parent, rfl, ?_⟩⟩
    rw [pointed, Option.mem_some_iff] at listed
    omega
  · obtain ⟨_, atPtr, behindPtr⟩ := behind subgraphPtr pointed
    obtain rfl := Option.some.inj atPtr
    obtain ⟨-, -, moved, -⟩ := SubgraphStore.revertBlockOperations_eq_ok reverted
    refine ⟨by simpa [RunnerOutput.revertsOneBlock] using by omega, fun current listed => ?_⟩
    rw [moved, Option.mem_some_iff] at listed
    exact ⟨parent, rfl, listed.ge⟩

variable [DecidableEq δ]

/-- A block past the stream's pointer, handled without failing, leaves the runner behind it. -/
theorem handleProcessBlock {pointer : Option BlockPtr} {block : BlockWithTriggers}
    {run : BlockRun ι} (behind : state.Behind pointer) (past : Above pointer block.ptr.number)
    (handled : SubgraphRunner.handleProcessBlock inputs state block.ptr.number firehoseCursor run =
      some (state', output))
    (succeeded : output.succeeded = true) : state'.Behind (some block.ptr) := by
  rcases SubgraphRunner.handleProcessBlock_cases inputs handled succeeded with
    rfl | ⟨persisted, mods, store', -, written, stored⟩
  · intro current listed
    obtain ⟨ptr, rfl, behindPtr⟩ := behind current listed
    exact ⟨block.ptr, rfl, by simp only [Above] at past; omega⟩
  · obtain ⟨-, -, moved, -⟩ := SubgraphStore.transactBlockOperations_eq_ok written
    intro current listed
    rw [stored, moved, Option.mem_some_iff] at listed
    exact ⟨block.ptr, rfl, listed.ge⟩

end RunnerState.Behind

/-! ## Over a whole stream -/

section OnStream

variable [DecidableEq δ] {inputs : RunnerInputs ι δ} {manifest : List (BlockchainDataSource δ)}

/-- The runner over the events of items that move a stream's pointer coherently, from a pointer
the runner is behind, handled without failing: a synced runner stays synced. -/
theorem RunnerState.Synced.streamEvents {parentOf : BlockPtr → Option BlockPtr}
    (precede : ParentsPrecede parentOf) {pointer : Option BlockPtr}
    {items : List (Except String BlockStreamEvent)} {runs : List (BlockRun ι)}
    {state final : RunnerState δ} {outputs : List RunnerOutput}
    (coherent : Coherent parentOf pointer items) (valid : ∀ event, .ok event ∈ items → event.ptr.Valid)
    (synced : state.Synced inputs.newHost manifest) (behind : state.Behind pointer)
    (ran : SubgraphRunner.run inputs state (GraphNode.streamEvents items runs) =
      (outputs, some final))
    (succeeded : ∀ output ∈ outputs, output.succeeded = true) :
    final.Synced inputs.newHost manifest := by
  induction items generalizing pointer runs state outputs with
  | nil =>
    obtain ⟨-, finalIs⟩ := Prod.mk.inj ran
    exact Option.some.inj finalIs ▸ synced
  | cons item items rest =>
    -- one case per kind of item: an error is dropped, a revert goes to the pointer's parent, and
    -- a block past the pointer becomes it
    rcases item with _ | parent | block
    · exact rest coherent (fun event listed => valid event (List.mem_cons_of_mem _ listed)) synced
        behind ran succeeded
    · obtain ⟨⟨ptr, rfl, parentIs⟩, coherentRest⟩ := coherent
      obtain ⟨next, output, stepped, first, afterwards⟩ := SubgraphRunner.run_cons_eq_some inputs ran
      obtain ⟨oneBlock, behindNext⟩ := behind.handleRevert precede parentIs stepped (succeeded _ first)
      have syncedNext := synced.handleRevert stepped (succeeded _ first) oneBlock
      rcases afterwards with returned | ⟨later, ranLater, fewer⟩
      · exact returned ▸ syncedNext
      · exact rest coherentRest (fun event listed => valid event (List.mem_cons_of_mem _ listed))
          syncedNext behindNext ranLater fun output listed => succeeded output (fewer listed)
    · obtain ⟨past, coherentRest⟩ := coherent
      cases runs with
      | nil =>
        obtain ⟨-, finalIs⟩ := Prod.mk.inj ran
        exact Option.some.inj finalIs ▸ synced
      | cons run runs =>
        obtain ⟨next, output, stepped, first, afterwards⟩ :=
          SubgraphRunner.run_cons_eq_some inputs ran
        have fits := (valid (.processBlock block) List.mem_cons_self).2
        have syncedNext := synced.handleProcessBlock stepped (succeeded _ first) fits
        have behindNext := behind.handleProcessBlock past stepped (succeeded _ first)
        rcases afterwards with returned | ⟨later, ranLater, fewer⟩
        · exact returned ▸ syncedNext
        · exact rest coherentRest (fun event listed => valid event (List.mem_cons_of_mem _ listed))
            syncedNext behindNext ranLater fun output listed => succeeded output (fewer listed)

/-- A synced runner stays synced over every run of a polling block stream on an honest chain, so
a restart builds exactly the hosts it holds. -/
theorem startSubgraphInner_eq_hosts_on_pollingStream {parentOf : BlockPtr → Option BlockPtr}
    (precede : ParentsPrecede parentOf) {overflowChecks : Bool} {startBlocks : List Int}
    {reorgThreshold maxBlockRangeSize : Int} {targetTriggersPerBlockRange : Nat}
    {startBlock : Option BlockPtr} {wakes : List Wake} {runs : List (BlockRun ι)}
    {state final : RunnerState δ} {outputs : List RunnerOutput}
    (honest : ∀ chain, Wake.ready chain ∈ wakes → chain.Honest parentOf)
    (valid : ∀ ptr ∈ startBlock, ptr.Valid)
    (started : state.store.writable.blockPtr = startBlock.map (·.number))
    (synced : state.Synced inputs.newHost manifest)
    (ran : SubgraphRunner.run inputs state (streamEvents (Output.items
      ((PollingBlockStream.new startBlocks reorgThreshold maxBlockRangeSize
        targetTriggersPerBlockRange startBlock).run overflowChecks wakes).1) runs) =
      (outputs, some final))
    (succeeded : ∀ output ∈ outputs, output.succeeded = true) :
    SubgraphInstanceManager.startSubgraphInner inputs.newHost manifest final.store =
      .ok final.hosts := by
  have consistent := PollingBlockStream.consistent_new startBlocks reorgThreshold
    maxBlockRangeSize targetTriggersPerBlockRange valid
  have behind : state.Behind startBlock := by
    intro current listed
    rw [started, Option.mem_map] at listed
    obtain ⟨ptr, rfl, rfl⟩ := listed
    exact ⟨ptr, rfl, le_refl _⟩
  exact (synced.streamEvents precede (PollingBlockStream.run_coherent wakes consistent honest)
    (PollingBlockStream.run_valid wakes consistent honest) behind ran succeeded).startSubgraphInner

end OnStream

/-- A chain whose block 1 is a child of block 0. -/
def reorgParent (ptr : BlockPtr) : Option BlockPtr :=
  if ptr.number = 1 then some ⟨[0], 0⟩ else none

/-- A chain store and adapter whose head is block 1000, whose scans find block 0 and then block 1,
and for which block 1 has left the main chain. -/
def reorgChain : ChainView where
  chainHeadPtr := .ok (some ⟨[], 1000⟩)
  isOnMainChain ptr := .ok (ptr.number = 0)
  parentPtr ptr := .ok (reorgParent ptr)
  scanTriggers fromBlock toBlock :=
    if fromBlock = 0 ∧ 0 ≤ toBlock then .ok [⟨⟨[0], 0⟩, 2⟩]
    else if fromBlock = 1 ∧ 1 ≤ toBlock then .ok [⟨⟨[1], 1⟩, 1⟩]
    else .ok []
  ancestorBlock _ _ := .ok none
  triggersInBlock _ := .error "no block"

theorem reorgChain_honest : reorgChain.Honest reorgParent where
  chainHeadPtr answered := by
    cases answered
    decide
  scanTriggers {fromBlock toBlock blocks} answered := by
    simp only [reorgChain] at answered
    split_ifs at answered with first second
    all_goals cases answered
    · exact ⟨List.isChain_singleton _, by
        simp only [List.mem_singleton, forall_eq]
        exact ⟨by decide, by omega, by omega⟩⟩
    · exact ⟨List.isChain_singleton _, by
        simp only [List.mem_singleton, forall_eq]
        exact ⟨by decide, by omega, by omega⟩⟩
    · exact ⟨List.isChain_nil, nofun⟩
  parentPtr {ptr parent} answered := by
    have found : reorgParent ptr = some parent := Except.ok.inj answered
    refine ⟨?_, found⟩
    simp only [reorgParent] at found
    split_ifs at found
    cases found
    decide
  ancestorBlock answered := by cases answered
  triggersInBlock answered := by cases answered

theorem reorgParent_precede : ParentsPrecede reorgParent := by
  intro ptr parent found
  simp only [reorgParent] at found
  split_ifs at found with one
  cases found
  simp [one]

/-- A new stream scans block 0, then block 1, then finds block 1 off the main chain. -/
def reorgWakes : List Wake :=
  [.pending, .ready reorgChain, .pending, .pending, .pending, .ready reorgChain, .pending, .pending,
    .pending, .ready reorgChain]

/-- What the runner handles of that stream, with data sources 7 and 8 created at blocks 0 and 1. -/
def reorgEvents : List (RunnerEvent Nat) :=
  streamEvents (Output.items ((PollingBlockStream.new [] 250 2000 1000 none).run true
    reorgWakes).1) [creating 7, creating 8]

theorem startSubgraphInner_eq_hosts_on_pollingStream_reorgChain :
    ∃ final, SubgraphRunner.run templateRunner thingRunner reorgEvents =
        ([.processed .restart, .processed .restart, .reverted 1 0], some final) ∧
      final.hosts = [⟨0, none⟩, ⟨7, some 0⟩] ∧
      SubgraphInstanceManager.startSubgraphInner templateRunner.newHost [⟨0, none⟩] final.store =
        .ok final.hosts := by
  obtain ⟨final, ran, hosts⟩ : ∃ final, SubgraphRunner.run templateRunner thingRunner reorgEvents =
      ([.processed .restart, .processed .restart, .reverted 1 0], some final) ∧
        final.hosts = [⟨0, none⟩, ⟨7, some 0⟩] :=
    SubgraphRunner.run_eq_of_computed templateRunner (by decide +kernel) (by decide +kernel)
  refine ⟨final, ran, hosts, startSubgraphInner_eq_hosts_on_pollingStream reorgParent_precede
    (fun chain woken => ?_) (by simp) rfl thingRunner_synced ran (by decide)⟩
  simp only [reorgWakes, List.mem_cons, reduceCtorEq, Wake.ready.injEq, List.mem_nil_iff,
    or_false, false_or, or_self] at woken
  exact woken ▸ reorgChain_honest

end GraphNode
