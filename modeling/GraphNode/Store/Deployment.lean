import GraphNode.Store.BlockRangeHistory

/-!
# Writing and reverting a deployment

`DeploymentStore::transact_block_operations`, `rewind_with_conn`, `rewind` and
`revert_block_operations`, and `WritableStore::revert_block_operations` with a `Sync` writer on
top of them.  Each runs in one database transaction, so each is a function returning `Except`:
on an error the caller keeps the state it had.  A panic is `none`.

The entity count is kept exact by a revert of the last block only: `Layout::revert_block` counts
a version removed as one entity fewer, which is wrong for a version both inserted and removed
after the block reverted to.
-/

namespace GraphNode

/-- What the writes of a deployment read and update: its entity tables and, of its row of
`subgraph_deployment`, the number of the latest block (`None` before the first), the firehose
cursor, `entity_count` and the graft block; and the API schema of its subgraph.  A block pointer
is its number here. -/
structure DeploymentState where
  layout : Layout
  head : Option Int
  firehoseCursor : Option String
  entityCount : Int
  graftBlock : Option Int
  api : InterfaceSchema

namespace DeploymentState

/-- The `entity_count` that `transact_block` and `update_entity_count` leave: unchanged for a
count of 0, otherwise `coalesce(nullif(entity_count, -1) + count, count_query)`, so that `-1`
asks for a recount. -/
def updateEntityCount (entityCount fullCount count : Int) : Int :=
  if count = 0 then entityCount
  else if entityCount = -1 then fullCount else entityCount + count

/-- `DeploymentStore::transact_block_operations`: it panics on a modification of another
deployment; otherwise it applies the modifications and moves the block pointer forward, and
`deployment::transact_block` fails with `DuplicateBlockProcessing` unless the block is past the
head. -/
def transactBlockOperations (state : DeploymentState) (deployment : String) (blockPtrTo : Int)
    (firehoseCursor : Option String) (mods : List EntityModification) :
    Option (Except StoreError DeploymentState) :=
  if mods.any fun mod => mod.entityKey.subgraphId != deployment then none
  else some do
    let (layout, count) ← applyEntityModifications state.api state.layout mods blockPtrTo
    if state.head.all (· < blockPtrTo) then
      pure { state with
        layout
        head := some blockPtrTo
        firehoseCursor := if firehoseCursor = some "" then none else firehoseCursor
        entityCount := updateEntityCount state.entityCount layout.countQuery count }
    else throw (.duplicateBlockProcessing deployment blockPtrTo)

/-- `DeploymentStore::rewind_with_conn`: unless `block_ptr_to` is before the graft block, set the
block pointer to it, set the cursor when one is given, revert the entity tables from the block
after it and update the entity count by the count `Layout::revert_block` reports. -/
def rewindWithConn (state : DeploymentState) (deployment : String) (blockPtrTo : Int)
    (firehoseCursor : Option String) : Except StoreError DeploymentState := do
  if let some graftBlock := state.graftBlock then
    if graftBlock > blockPtrTo then
      throw (.unknown ("Can not revert subgraph `" ++ deployment ++ "` to block " ++
        toString blockPtrTo ++ " as it was grafted at block " ++ toString graftBlock ++
        " and reverting past a graft point is not possible"))
  -- the revert functions want the number of the first block to get rid of
  let (layout, count) ← state.layout.revertBlock (blockPtrTo + 1)
  pure { state with
    layout
    head := some blockPtrTo
    firehoseCursor := firehoseCursor.or state.firehoseCursor
    entityCount := updateEntityCount state.entityCount layout.countQuery count }

/-- `DeploymentStore::rewind`: the `unwrap` of the block pointer panics before the first block;
the sanity check builds a `constraint_violation!` and drops it, so the rewind goes ahead in
either direction, with the cursor reset to the empty string. -/
def rewind (state : DeploymentState) (deployment : String) (blockPtrTo : Int) :
    Option (Except StoreError DeploymentState) :=
  state.head.map fun blockPtrFrom =>
    let _sanityCheck : Option StoreError := if blockPtrFrom ≤ blockPtrTo then
      some (.constraintViolation ("rewind must go backwards, but would go from block " ++
        toString blockPtrFrom ++ " to block " ++ toString blockPtrTo))
      else none
    state.rewindWithConn deployment blockPtrTo (some "")

/-- `DeploymentStore::revert_block_operations`: it panics before the first block and on a revert
that does not go back, and otherwise rewinds. -/
def revertBlockOperations (state : DeploymentState) (deployment : String) (blockPtrTo : Int)
    (firehoseCursor : Option String) : Option (Except StoreError DeploymentState) :=
  state.head.bind fun deploymentHead =>
    if blockPtrTo ≥ deploymentHead then none
    else some (state.rewindWithConn deployment blockPtrTo firehoseCursor)

section Heads

variable {state state' : DeploymentState} {deployment : String} {firehoseCursor : Option String}

/-- A block the deployment writes is past its head, and becomes its head. -/
theorem transactBlockOperations_head {blockPtrTo : Int} {mods : List EntityModification}
    (written : state.transactBlockOperations deployment blockPtrTo firehoseCursor mods =
      some (.ok state')) :
    state.head.all (· < blockPtrTo) ∧ state'.head = some blockPtrTo := by
  unfold transactBlockOperations at written
  split at written
  · cases written
  · cases applied : applyEntityModifications state.api state.layout mods blockPtrTo with
    | error => simp [applied, bind, Except.bind] at written
    | ok result =>
      by_cases advanced : state.head.all (· < blockPtrTo)
      · simp only [applied, advanced, bind, Except.bind, if_true, pure, Except.pure,
          Option.some.injEq, Except.ok.injEq] at written
        exact ⟨advanced, written ▸ rfl⟩
      · simp [applied, advanced, bind, Except.bind, throw, throwThe] at written

/-- A rewind that succeeds leaves the deployment at the block rewound to. -/
theorem rewindWithConn_head {blockPtrTo : Int}
    (rewound : state.rewindWithConn deployment blockPtrTo firehoseCursor = .ok state') :
    state'.head = some blockPtrTo := by
  unfold rewindWithConn at rewound
  cases grafting : state.graftBlock with
  | none =>
    cases layoutReverted : state.layout.revertBlock (blockPtrTo + 1) <;>
      simp only [grafting, layoutReverted, bind, Except.bind, pure, Except.pure, reduceCtorEq,
        Except.ok.injEq] at rewound
    rw [← rewound]
  | some graftBlock =>
    by_cases past : graftBlock > blockPtrTo
    · simp [grafting, past, bind, Except.bind, throw, throwThe] at rewound
    · cases layoutReverted : state.layout.revertBlock (blockPtrTo + 1) <;>
        simp only [grafting, past, if_false, layoutReverted, bind, Except.bind, pure, Except.pure,
          reduceCtorEq, Except.ok.injEq] at rewound
      rw [← rewound]

/-- A revert that succeeds goes back from the head to the block reverted to. -/
theorem revertBlockOperations_head {blockPtrTo : Int}
    (reverted : state.revertBlockOperations deployment blockPtrTo firehoseCursor =
      some (.ok state')) :
    (∃ head, state.head = some head ∧ blockPtrTo < head) ∧ state'.head = some blockPtrTo := by
  unfold revertBlockOperations at reverted
  cases headIs : state.head with
  | none => simp [headIs] at reverted
  | some head =>
    simp only [headIs, Option.bind_some] at reverted
    split at reverted
    · cases reverted
    · simp only [Option.some.injEq] at reverted
      exact ⟨⟨head, rfl, by omega⟩, rewindWithConn_head reverted⟩

/-- A write that succeeds leaves the deployment with the tables written, at the block, with the
block's cursor, an empty one stored as none. -/
theorem transactBlockOperations_eq_ok {blockPtrTo : Int} {mods : List EntityModification}
    (written : state.transactBlockOperations deployment blockPtrTo firehoseCursor mods =
      some (.ok state')) :
    ∃ layout count,
      applyEntityModifications state.api state.layout mods blockPtrTo = .ok (layout, count) ∧
      state' = { state with
        layout
        head := some blockPtrTo
        firehoseCursor := if firehoseCursor = some "" then none else firehoseCursor
        entityCount := updateEntityCount state.entityCount layout.countQuery count } := by
  unfold transactBlockOperations at written
  split at written
  · cases written
  · cases applied : applyEntityModifications state.api state.layout mods blockPtrTo with
    | error => simp [applied, bind, Except.bind] at written
    | ok result =>
      obtain ⟨layout, count⟩ := result
      by_cases advanced : state.head.all (· < blockPtrTo)
      · simp only [applied, advanced, bind, Except.bind, if_true, pure, Except.pure,
          Option.some.injEq, Except.ok.injEq] at written
        exact ⟨layout, count, rfl, written.symm⟩
      · simp [applied, advanced, bind, Except.bind, throw, throwThe] at written

/-- A rewind that succeeds leaves the deployment with the tables reverted, at the block, with the
cursor given or else the one it had. -/
theorem rewindWithConn_eq_ok {blockPtrTo : Int}
    (rewound : state.rewindWithConn deployment blockPtrTo firehoseCursor = .ok state') :
    ∃ layout count, state.layout.revertBlock (blockPtrTo + 1) = .ok (layout, count) ∧
      state' = { state with
        layout
        head := some blockPtrTo
        firehoseCursor := firehoseCursor.or state.firehoseCursor
        entityCount := updateEntityCount state.entityCount layout.countQuery count } := by
  -- past the graft check, which throws before anything is reverted
  have reverting : (do
      let (layout, count) ← state.layout.revertBlock (blockPtrTo + 1)
      pure { state with
        layout
        head := some blockPtrTo
        firehoseCursor := firehoseCursor.or state.firehoseCursor
        entityCount := updateEntityCount state.entityCount layout.countQuery count } :
        Except StoreError DeploymentState) = .ok state' := by
    unfold rewindWithConn at rewound
    cases grafting : state.graftBlock with
    | none => simpa [grafting] using rewound
    | some graftBlock =>
      by_cases past : graftBlock > blockPtrTo
      · simp [grafting, past, bind, Except.bind, throw, throwThe] at rewound
      · simpa [grafting, past] using rewound
  cases layoutReverted : state.layout.revertBlock (blockPtrTo + 1) with
  | error => simp [layoutReverted, bind, Except.bind] at reverting
  | ok result =>
    obtain ⟨layout, count⟩ := result
    simp only [layoutReverted, bind, Except.bind, pure, Except.pure, Except.ok.injEq] at reverting
    exact ⟨layout, count, rfl, reverting.symm⟩

/-- A revert that succeeds goes back from the head, and is the rewind to the block. -/
theorem revertBlockOperations_eq_ok {blockPtrTo : Int}
    (reverted : state.revertBlockOperations deployment blockPtrTo firehoseCursor =
      some (.ok state')) :
    (∃ head, state.head = some head ∧ blockPtrTo < head) ∧
      state.rewindWithConn deployment blockPtrTo firehoseCursor = .ok state' := by
  unfold revertBlockOperations at reverted
  cases headIs : state.head with
  | none => simp [headIs] at reverted
  | some head =>
    simp only [headIs, Option.bind_some] at reverted
    split at reverted
    · cases reverted
    · exact ⟨⟨head, rfl, by omega⟩, Option.some.inj reverted⟩

end Heads

end DeploymentState

/-- `WritableStore` with a `Sync` writer: the block pointer and cursor it keeps in memory, and the
deployment store it writes to. -/
structure WritableStore where
  blockPtr : Option Int
  blockCursor : Option String
  store : DeploymentState

/-- `WritableStore::revert_block_operations`: it sets the block pointer and cursor in memory,
then hands the revert to the writer, `SyncStore::revert_block_operations`. -/
def WritableStore.revertBlockOperations (writable : WritableStore) (deployment : String)
    (blockPtrTo : Int) (firehoseCursor : Option String) :
    Option (WritableStore × Except StoreError Unit) :=
  let writable := { writable with blockPtr := some blockPtrTo, blockCursor := firehoseCursor }
  (writable.store.revertBlockOperations deployment blockPtrTo firehoseCursor).map fun reverted =>
    match reverted with
    | .ok store => ({ writable with store }, .ok ())
    | .error error => (writable, .error error)

/-- What the runner asks of a deployment's store: write a block, or revert to an earlier one. -/
inductive Operation where
  | transact (block : Int) (mods : List EntityModification)
  | revert (blockPtrTo : Int)

/-- The keys an operation inserts or overwrites. -/
def Operation.writtenKeys : Operation → List EntityKey
  | .transact _ mods => GraphNode.writtenKeys mods
  | .revert _ => []

namespace DeploymentState

/-- One operation, without a firehose cursor. -/
def step (deployment : String) (state : DeploymentState) :
    Operation → Option (Except StoreError DeploymentState)
  | .transact block mods => state.transactBlockOperations deployment block none mods
  | .revert blockPtrTo => state.revertBlockOperations deployment blockPtrTo none

/-- The operations in turn, up to the first error or panic. -/
def run (deployment : String) : DeploymentState → List Operation →
    Option (Except StoreError DeploymentState)
  | state, [] => some (.ok state)
  | state, operation :: rest => (state.step deployment operation).bind fun result =>
      match result with
      | .ok state => state.run deployment rest
      | .error error => some (.error error)

/-! ## Runs that keep the entity count -/

/-- A deployment whose tables track the timeline `timeline` settled at its head `head`, below
`BLOCK_NUMBER_MAX`, and whose `entity_count` is `count_query`. -/
structure Tracks (state : DeploymentState) (deployment : String)
    (timeline : Int → EntityKey → Option Entity) (head : Int) : Prop where
  layout : state.layout.Tracks deployment timeline head
  settled : ∀ t, head ≤ t → timeline t = timeline head
  atHead : state.head = some head
  belowMax : head < blockNumberMax
  counted : state.entityCount = state.layout.countQuery

/-- A run the runner can ask for on top of the timeline `timeline` settled at `head`: blocks past
the head and below `BLOCK_NUMBER_MAX`, each valid on the entities at the head, and reverts of the
last block only, not past the graft block. -/
def ValidRun (schema : String → Option Bool) (deployment : String) (graftBlock : Option Int) :
    (Int → EntityKey → Option Entity) → Int → List Operation → Prop
  | _, _, [] => True
  | timeline, head, .transact block mods :: rest => head < block ∧ block < blockNumberMax ∧
      ValidBlock schema deployment (timeline head) mods ∧
      ValidRun schema deployment graftBlock
        (Table.changeFrom timeline block (applyModifications (timeline head) mods)) block rest
  | timeline, head, .revert blockPtrTo :: rest => blockPtrTo + 1 = head ∧
      graftBlock.all (· ≤ blockPtrTo) ∧
      ValidRun schema deployment graftBlock (fun t => timeline (min t blockPtrTo)) blockPtrTo rest

/-- `count_query` counts rows, so it is never `-1`. -/
theorem countQuery_nonneg (layout : Layout) : 0 ≤ layout.countQuery :=
  List.sum_nonneg fun count member => by
    obtain ⟨table, _, rfl⟩ := List.mem_map.mp member
    exact Int.natCast_nonneg _

/-- An exact entity count stays exact when it is updated by the change in `count_query`. -/
theorem updateEntityCount_of_exact {entityCount fullCount count : Int} {layout : Layout}
    (exact : entityCount = layout.countQuery) (changed : fullCount = layout.countQuery + count) :
    updateEntityCount entityCount fullCount count = fullCount := by
  have counted := countQuery_nonneg layout
  unfold updateEntityCount
  split
  · omega
  · rw [if_neg (by omega)]
    omega

variable {state : DeploymentState} {deployment : String}
  {timeline : Int → EntityKey → Option Entity} {head : Int}

/-- The step lemma for a block: writing a valid block past the head succeeds and keeps the
deployment tracking the timeline with the block made, at the block. -/
theorem Tracks.transactBlockOperations (tracks : state.Tracks deployment timeline head)
    {block : Int} {mods : List EntityModification} (advanced : head < block)
    (belowMax : block < blockNumberMax)
    (valid : ValidBlock state.layout.schema deployment (timeline head) mods)
    {written : List EntityKey} (unique : InterfaceUnique state.api state.layout.schema timeline written)
    (covered : ∀ key ∈ writtenKeys mods, key ∈ written) (firehoseCursor : Option String) :
    ∃ state', state.transactBlockOperations deployment block firehoseCursor mods =
        some (.ok state') ∧
      state'.Tracks deployment
        (Table.changeFrom timeline block (applyModifications (timeline head) mods)) block ∧
      state'.layout.schema = state.layout.schema ∧ state'.graftBlock = state.graftBlock ∧
        state'.api = state.api := by
  -- every modification is of the deployment, so the check does not panic
  have own : (mods.any fun mod => mod.entityKey.subgraphId != deployment) = false := by
    simpa using valid.ofDeployment
  obtain ⟨free, apart⟩ := tracks.layout.interfaceFree valid.ofDeployment unique covered
  obtain ⟨layout', count, applied, layoutTracks, counted, schema⟩ :=
    tracks.layout.applyEntityModifications advanced belowMax.le valid free apart
  refine ⟨{ state with
      layout := layout'
      head := some block
      firehoseCursor := if firehoseCursor = some "" then none else firehoseCursor
      entityCount := updateEntityCount state.entityCount layout'.countQuery count },
    ?_, ⟨layoutTracks, fun t reached => ?_, rfl, belowMax, ?_⟩, schema, rfl, rfl⟩
  · simp [DeploymentState.transactBlockOperations, own, applied, tracks.atHead, advanced, bind, Except.bind,
      pure, Except.pure]
  · simp [Table.changeFrom, not_lt.mpr reached]
  · exact updateEntityCount_of_exact tracks.counted counted

/-- The step lemma for a revert of the last block: it succeeds and leaves the deployment tracking
the timeline cut at the block reverted to. -/
theorem Tracks.revertBlockOperations (tracks : state.Tracks deployment timeline head)
    {blockPtrTo : Int} (last : blockPtrTo + 1 = head)
    (grafted : state.graftBlock.all (· ≤ blockPtrTo)) (firehoseCursor : Option String) :
    ∃ state', state.revertBlockOperations deployment blockPtrTo firehoseCursor =
        some (.ok state') ∧
      state'.Tracks deployment (fun t => timeline (min t blockPtrTo)) blockPtrTo ∧
      state'.layout.schema = state.layout.schema ∧ state'.graftBlock = state.graftBlock ∧
        state'.api = state.api := by
  obtain ⟨layout', count, reverted, layoutTracks, schema, counted⟩ :=
    tracks.layout.revertBlock tracks.belowMax (blockPtrTo + 1)
  have cut : blockPtrTo + 1 - 1 = blockPtrTo := by omega
  have atTo : min blockPtrTo head = blockPtrTo := by omega
  rw [cut, atTo] at layoutTracks
  have notGrafted : ∀ graftBlock, state.graftBlock = some graftBlock → ¬graftBlock > blockPtrTo :=
    fun graftBlock grafting => by simpa [grafting] using grafted
  refine ⟨{ state with
      layout := layout'
      head := some blockPtrTo
      firehoseCursor := firehoseCursor.or state.firehoseCursor
      entityCount := updateEntityCount state.entityCount layout'.countQuery count },
    ?_, ⟨layoutTracks, fun t reached => ?_, rfl, by have := tracks.belowMax; omega, ?_⟩,
    schema, rfl, rfl⟩
  · have back : ¬blockPtrTo ≥ head := by omega
    cases grafting : state.graftBlock with
    | none =>
        simp [DeploymentState.revertBlockOperations, rewindWithConn, tracks.atHead, back, grafting, reverted,
          bind, Except.bind, pure, Except.pure]
    | some graftBlock =>
        simp [DeploymentState.revertBlockOperations, rewindWithConn, tracks.atHead, back, grafting,
          notGrafted graftBlock grafting, reverted, bind, Except.bind, pure, Except.pure]
  · simp [min_eq_right reached]
  · exact updateEntityCount_of_exact tracks.counted (counted (by omega))

/-- The run lemma: a valid run on a tracking deployment succeeds and leaves it tracking, with an
exact entity count. -/
theorem Tracks.run (tracks : state.Tracks deployment timeline head)
    {operations : List Operation}
    (valid : ValidRun state.layout.schema deployment state.graftBlock timeline head operations)
    {written : List EntityKey} (unique : InterfaceUnique state.api state.layout.schema timeline written)
    (covered : ∀ operation ∈ operations, ∀ key ∈ operation.writtenKeys, key ∈ written) :
    ∃ final timeline' head', state.run deployment operations = some (.ok final) ∧
      final.Tracks deployment timeline' head' := by
  induction operations generalizing state timeline head with
  | nil => exact ⟨state, timeline, head, rfl, tracks⟩
  | cons operation rest ih =>
      have restCovered := fun later member => covered later (List.mem_cons_of_mem _ member)
      cases operation with
      | transact block mods =>
          obtain ⟨advanced, belowMax, validBlock, validRest⟩ := valid
          have blockCovered := covered _ List.mem_cons_self
          obtain ⟨state', stepped, tracks', schema, graft, api⟩ :=
            tracks.transactBlockOperations advanced belowMax validBlock unique blockCovered none
          obtain ⟨final, timeline', head', ran, finalTracks⟩ :=
            ih tracks' (by rw [schema, graft]; exact validRest)
              (by rw [schema, api]
                  exact unique.changeFrom validBlock.distinct blockCovered head block)
              restCovered
          exact ⟨final, timeline', head', by simp [DeploymentState.run, step, stepped, ran], finalTracks⟩
      | revert blockPtrTo =>
          obtain ⟨last, grafted, validRest⟩ := valid
          obtain ⟨state', stepped, tracks', schema, graft, api⟩ :=
            tracks.revertBlockOperations last grafted none
          obtain ⟨final, timeline', head', ran, finalTracks⟩ :=
            ih tracks' (by rw [schema, graft]; exact validRest)
              (by rw [schema, api]; exact unique.cut blockPtrTo) restCovered
          exact ⟨final, timeline', head', by simp [DeploymentState.run, step, stepped, ran], finalTracks⟩

/-- `DeploymentStore::rewind` succeeds at every block not before the graft block, forward too: the
sanity check stops nothing. -/
theorem Tracks.rewind (tracks : state.Tracks deployment timeline head) (blockPtrTo : Int)
    (grafted : state.graftBlock.all (· ≤ blockPtrTo)) :
    ∃ state', state.rewind deployment blockPtrTo = some (.ok state') ∧
      state'.head = some blockPtrTo ∧ state'.firehoseCursor = some "" := by
  obtain ⟨layout', count, reverted, -⟩ :=
    tracks.layout.revertBlock tracks.belowMax (blockPtrTo + 1)
  have notGrafted : ∀ graftBlock, state.graftBlock = some graftBlock → ¬graftBlock > blockPtrTo :=
    fun graftBlock grafting => by simpa [grafting] using grafted
  refine ⟨{ state with
      layout := layout'
      head := some blockPtrTo
      firehoseCursor := some ""
      entityCount := updateEntityCount state.entityCount layout'.countQuery count }, ?_, rfl, rfl⟩
  cases grafting : state.graftBlock with
  | none =>
      simp [DeploymentState.rewind, rewindWithConn, tracks.atHead, grafting, reverted, bind,
        Except.bind, pure, Except.pure]
  | some graftBlock =>
      simp [DeploymentState.rewind, rewindWithConn, tracks.atHead, grafting,
        notGrafted graftBlock grafting, reverted, bind, Except.bind, pure, Except.pure]

/-- Over every valid run of blocks and reverts of the last block, `entity_count` stays
`count_query`. -/
theorem run_keeps_entityCount (tracks : state.Tracks deployment timeline head)
    {operations : List Operation}
    (valid : ValidRun state.layout.schema deployment state.graftBlock timeline head operations)
    (unique : InterfaceUnique state.api state.layout.schema timeline
      (operations.flatMap Operation.writtenKeys)) :
    ∃ final, state.run deployment operations = some (.ok final) ∧
      final.entityCount = final.layout.countQuery := by
  obtain ⟨final, _, _, ran, finalTracks⟩ := tracks.run valid unique
    fun operation member key written => List.mem_flatMap.mpr ⟨operation, member, written⟩
  exact ⟨final, ran, finalTracks.counted⟩

end DeploymentState

/-! ## Runs on one table -/

/-- The deployment of `thingLayout` at block `head`, with no rows and an entity count of 0. -/
def thingDeployment (head : Option Int) : DeploymentState :=
  ⟨thingLayout, head, none, 0, none, thingApi⟩

theorem thingDeployment_tracks (head : Int) (belowMax : head < blockNumberMax) :
    (thingDeployment (some head)).Tracks "deployment" (fun _ _ => none) head :=
  ⟨Layout.tracks_of_rows_eq_nil (by decide : ∀ table ∈ thingLayout.tables, table.rows = []) head,
    fun _ _ => rfl, rfl, belowMax, (by decide : (0 : Int) = thingLayout.countQuery)⟩

/-- The deployment of `petLayout` at block 0, with no rows and an entity count of 0. -/
def petDeployment : DeploymentState := ⟨petLayout, some 0, none, 0, none, petApi⟩

/-- Insert the `Dog` `1` at block 1, insert the `Cat` `2` and remove the `Dog` at block 2, and
revert block 2. -/
def petRun : List Operation :=
  [.transact 1 [.insert ⟨"deployment", "Dog", "1"⟩ thingOne],
    .transact 2 [.insert ⟨"deployment", "Cat", "2"⟩ thingOne, .remove ⟨"deployment", "Dog", "1"⟩],
    .revert 1]

theorem run_keeps_entityCount_petRun :
    ∃ final, petDeployment.run "deployment" petRun = some (.ok final) ∧
      final.entityCount = final.layout.countQuery :=
  DeploymentState.run_keeps_entityCount
    (⟨Layout.tracks_of_rows_eq_nil (by decide) 0, fun _ _ => rfl, rfl, by decide, by decide⟩ :
      petDeployment.Tracks "deployment" (fun _ _ => none) 0)
    ⟨by decide, by decide, ⟨by decide, by decide, by decide, by decide, by decide, by decide⟩,
      by decide, by decide, ⟨by decide, by decide, by decide, by decide, by decide, by decide⟩,
      by decide, by decide, trivial⟩
    (interfaceUnique_of_apart (by decide))

/-- Insert the `Thing` at block 1 and remove it at block 2. -/
def insertRemoveLater : List (Int × List EntityModification) :=
  [(1, [.insert thingKey thingOne]), (2, [.remove thingKey])]

/-- Reverting two blocks that insert and remove one `Thing` counts it as an entity fewer, so
`entity_count` goes to `-1`. -/
theorem revertBlock_two_blocks_miscounts :
    ((writeHistory thingApi thingLayout insertRemoveLater).bind fun written =>
        (written.1.revertBlock 1).map fun reverted =>
          (written.2 + reverted.2, reverted.1.countQuery)) = .ok (-1, 0) ∧
      ((thingDeployment none).run "deployment"
          [.transact 1 [.insert thingKey thingOne], .transact 2 [.remove thingKey], .revert 0]).map
        (Except.map fun final => (final.entityCount, final.layout.countQuery)) =
        some (.ok (-1, 0)) :=
  ⟨by decide +kernel, by decide +kernel⟩

/-- A writable store at block 10 of a deployment grafted at block 5, with no rows. -/
def graftedWritable : WritableStore :=
  ⟨some 10, none, ⟨thingLayout, some 10, none, 0, some 5, thingApi⟩⟩

/-- `DeploymentStore::rewind` moves the block pointer forward, and a failed
`revert_block_operations` still moves the one kept in memory. -/
theorem rewind_forward_and_failed_revert_move_head :
    (∃ state', (thingDeployment (some 1)).rewind "deployment" 2 = some (.ok state') ∧
      state'.head = some 2) ∧
    ((graftedWritable.revertBlockOperations "deployment" 3 none).map fun reverted =>
      (reverted.1.blockPtr, reverted.2.toBool)) = some (some 3, false) := by
  obtain ⟨state', rewound, head, _⟩ := (thingDeployment_tracks 1 (by decide)).rewind 2 rfl
  exact ⟨⟨state', rewound, head⟩, by decide +kernel⟩

end GraphNode
