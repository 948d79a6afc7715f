import GraphNode.Store.EntityCache

/-!
# The state of a block being processed

`BlockState` (`graph/src/components/subgraph/instance.rs`): the entity cache, the deterministic
errors so far, and the data sources created, by handlers that finished and by the one that is
running.  Its handler methods open and close the cache's handler scope together with its own;
an `assert!` that fails is `none`.
-/

namespace GraphNode

/-- `SubgraphError`, with block pointers as their numbers. -/
structure SubgraphError where
  subgraphId : String
  message : String
  blockPtr : Option Int
  handler : Option String
  deterministic : Bool
  deriving DecidableEq, Repr

/-- `BlockState`, over the type `δ` of the data sources handlers create.  Its methods are the
only code that touches the data sources and the flag, and each leaves no data source of a
handler behind once the handler is closed. -/
structure BlockState (δ : Type) where
  entityCache : EntityCache
  deterministicErrors : List SubgraphError
  createdDataSources : List δ
  handlerCreatedDataSources : List δ
  inHandler : Bool
  drained : inHandler = false → handlerCreatedDataSources = []

namespace BlockState

variable {δ : Type}

/-- `BlockState::new`. -/
def new (lfuCache : LfuCache EntityKey (Option Entity)) : BlockState δ :=
  ⟨EntityCache.withCurrent lfuCache, [], [], [], false, fun _ => rfl⟩

/-- `BlockState::has_errors`. -/
def hasErrors (state : BlockState δ) : Bool :=
  !state.deterministicErrors.isEmpty

/-- `BlockState::enter_handler`. -/
def enterHandler (state : BlockState δ) : Option (BlockState δ) :=
  if state.inHandler then none
  else state.entityCache.enterHandler.map fun entityCache =>
    { state with inHandler := true, entityCache, drained := Bool.noConfusion }

/-- `BlockState::exit_handler`: the handler's data sources join the created ones and its
changes are accumulated into the cache's `updates`. -/
def exitHandler (state : BlockState δ) : Option (BlockState δ) :=
  if state.inHandler then
    state.entityCache.exitHandler.map fun entityCache =>
      { state with
        inHandler := false
        createdDataSources := state.createdDataSources ++ state.handlerCreatedDataSources
        handlerCreatedDataSources := []
        entityCache
        drained := fun _ => rfl }
  else none

/-- `BlockState::exit_handler_and_discard_changes_due_to_error`: the handler's data sources and
changes are dropped and the error is recorded. -/
def exitHandlerAndDiscardChangesDueToError (state : BlockState δ) (error : SubgraphError) :
    Option (BlockState δ) :=
  if state.inHandler then
    state.entityCache.exitHandlerAndDiscardChanges.map fun entityCache =>
      { state with
        inHandler := false
        handlerCreatedDataSources := []
        entityCache
        deterministicErrors := state.deterministicErrors ++ [error]
        drained := fun _ => rfl }
  else none

/-- `BlockState::push_created_data_source`. -/
def pushCreatedDataSource (state : BlockState δ) (dataSource : δ) : Option (BlockState δ) :=
  if inside : state.inHandler then
    some { state with
      handlerCreatedDataSources := state.handlerCreatedDataSources ++ [dataSource]
      drained := fun closed => absurd (inside.symm.trans closed) Bool.noConfusion }
  else none

/-! ## The deterministic errors -/

theorem deterministicErrors_of_enterHandler {state entered : BlockState δ}
    (opened : state.enterHandler = some entered) :
    entered.deterministicErrors = state.deterministicErrors := by
  simp only [enterHandler] at opened
  split at opened
  · cases opened
  · obtain ⟨_, _, rfl⟩ := Option.map_eq_some_iff.mp opened
    rfl

theorem deterministicErrors_of_exitHandler {state exited : BlockState δ}
    (closed : state.exitHandler = some exited) :
    exited.deterministicErrors = state.deterministicErrors := by
  simp only [exitHandler] at closed
  split at closed
  · obtain ⟨_, _, rfl⟩ := Option.map_eq_some_iff.mp closed
    rfl
  · cases closed

theorem deterministicErrors_of_discard {state exited : BlockState δ} {error : SubgraphError}
    (closed : state.exitHandlerAndDiscardChangesDueToError error = some exited) :
    exited.deterministicErrors = state.deterministicErrors ++ [error] := by
  simp only [exitHandlerAndDiscardChangesDueToError] at closed
  split at closed
  · obtain ⟨_, _, rfl⟩ := Option.map_eq_some_iff.mp closed
    rfl
  · cases closed

/-- Creating data sources records no error, by induction on the data sources. -/
theorem deterministicErrors_of_pushes {state pushed : BlockState δ} {dataSources : List δ}
    (created : dataSources.foldlM pushCreatedDataSource state = some pushed) :
    pushed.deterministicErrors = state.deterministicErrors := by
  induction dataSources generalizing state with
  | nil =>
      cases created
      rfl
  | cons dataSource dataSources induction =>
      rw [List.foldlM_cons, Option.bind_eq_bind, Option.bind_eq_some_iff] at created
      obtain ⟨next, pushedOne, created⟩ := created
      have same : next.deterministicErrors = state.deterministicErrors := by
        simp only [pushCreatedDataSource] at pushedOne
        split at pushedOne
        · cases pushedOne
          rfl
        · cases pushedOne
      rw [induction created, same]

/-! ## Handler scopes -/

theorem enterHandler_of_closed {state : BlockState δ} (closed : state.inHandler = false)
    (cacheClosed : state.entityCache.inHandler = false) :
    ∃ entered, state.enterHandler = some entered ∧ entered.inHandler = true ∧
      entered.entityCache = { state.entityCache with inHandler := true } ∧
      entered.createdDataSources = state.createdDataSources ∧
      entered.handlerCreatedDataSources = state.handlerCreatedDataSources :=
  ⟨{ state with
      inHandler := true
      entityCache := { state.entityCache with inHandler := true }
      drained := Bool.noConfusion },
    by simp [enterHandler, closed, EntityCache.enterHandler, cacheClosed], rfl, rfl, rfl, rfl⟩

/-- Inside a handler, creating data sources appends them to the handler's, by induction on the
data sources. -/
theorem pushes_of_inHandler {state : BlockState δ} (inside : state.inHandler = true)
    (dataSources : List δ) :
    ∃ pushed, dataSources.foldlM pushCreatedDataSource state = some pushed ∧
      pushed.inHandler = true ∧ pushed.entityCache = state.entityCache ∧
      pushed.createdDataSources = state.createdDataSources ∧
      pushed.handlerCreatedDataSources = state.handlerCreatedDataSources ++ dataSources := by
  induction dataSources generalizing state with
  | nil => exact ⟨state, rfl, inside, rfl, rfl, by simp⟩
  | cons dataSource dataSources induction =>
      obtain ⟨pushed, created, stillInside, sameCache, sameCreated, appended⟩ :=
        @induction { state with
          handlerCreatedDataSources := state.handlerCreatedDataSources ++ [dataSource]
          drained := fun closed => absurd (inside.symm.trans closed) Bool.noConfusion } inside
      refine ⟨pushed, ?_, stillInside, sameCache, sameCreated, by simp [appended]⟩
      simpa [pushCreatedDataSource, inside] using created

theorem exitHandler_createdDataSources {state : BlockState δ} (inside : state.inHandler = true)
    (cacheInside : state.entityCache.inHandler = true) :
    ∃ exited, state.exitHandler = some exited ∧
      exited.createdDataSources = state.createdDataSources ++ state.handlerCreatedDataSources := by
  simp [exitHandler, inside, EntityCache.exitHandler, cacheInside]

theorem discard_createdDataSources {state : BlockState δ} (inside : state.inHandler = true)
    (cacheInside : state.entityCache.inHandler = true) (error : SubgraphError) :
    ∃ discarded, state.exitHandlerAndDiscardChangesDueToError error = some discarded ∧
      discarded.createdDataSources = state.createdDataSources := by
  simp [exitHandlerAndDiscardChangesDueToError, inside, EntityCache.exitHandlerAndDiscardChanges,
    cacheInside]

end BlockState

end GraphNode
