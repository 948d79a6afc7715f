import GraphNode.Store.EntityCacheRun

/-!
# Handler scopes of the entity cache

The calls a handler makes through the host exports (`store.get`, `store.set`, `store.remove`)
change the cache exactly as the operations they issue do, one `entity_op` each; which update
map those go to is decided by the handler flag alone.  A cache the runner reaches leaves no
operation of a handler behind once the handler is closed, and its `updates` has distinct keys.
With these, closing a handler by `exit_handler` records the handler's accumulated operations
into `updates`, which by the associativity of `EntityOp::accumulate` is recording the operations
one by one, as when no handler is open.
-/

namespace GraphNode

/-- The calls a handler makes through the host exports. -/
def CacheCall.isHostExport : CacheCall → Bool
  | .get _ | .set _ _ | .remove _ => true
  | _ => false

namespace EntityCache

/-- Operations recorded one by one into an update map. -/
def recordAll (updates : Updates) (entries : List (EntityKey × EntityOp)) : Updates :=
  entries.foldl (fun updates entry => accumulateInto updates entry.1 entry.2) updates

@[simp]
theorem recordAll_nil (updates : Updates) : recordAll updates [] = updates := rfl

theorem recordAll_cons (updates : Updates) (entry : EntityKey × EntityOp)
    (entries : List (EntityKey × EntityOp)) :
    recordAll updates (entry :: entries) =
      recordAll (accumulateInto updates entry.1 entry.2) entries := rfl

/-- Issuing operations one by one records them into the map the handler flag selects, by
induction on the operations. -/
theorem foldl_entityOp_eq (cache : EntityCache) (entries : List (EntityKey × EntityOp)) :
    entries.foldl (fun cache entry => cache.entityOp entry.1 entry.2) cache =
      if cache.inHandler then { cache with handlerUpdates := recordAll cache.handlerUpdates entries }
      else { cache with updates := recordAll cache.updates entries } := by
  induction entries generalizing cache with
  | nil => split <;> rfl
  | cons entry entries induction =>
      rw [List.foldl_cons, induction]
      cases inHandler : cache.inHandler <;> simp [entityOp, inHandler, recordAll_cons]

@[simp]
theorem inHandler_foldl_entityOp (cache : EntityCache) (entries : List (EntityKey × EntityOp)) :
    (entries.foldl (fun cache entry => cache.entityOp entry.1 entry.2) cache).inHandler =
      cache.inHandler := by
  rw [foldl_entityOp_eq]
  split <;> rfl

theorem foldl_entityOp_withCurrent (cache : EntityCache) (entries : List (EntityKey × EntityOp))
    (current : LfuCache EntityKey (Option Entity)) :
    entries.foldl (fun cache entry => cache.entityOp entry.1 entry.2) { cache with current } =
      { entries.foldl (fun cache entry => cache.entityOp entry.1 entry.2) cache with current } := by
  rw [foldl_entityOp_eq, foldl_entityOp_eq]
  split <;> rfl

variable (store : StoreView) (weight : EntityKey → Option Entity → Nat)

theorem run_append (cache : EntityCache) (front back : List CacheCall) :
    cache.run store weight (front ++ back) =
      (cache.run store weight front).bind fun cache => cache.run store weight back := by
  induction front generalizing cache with
  | nil => rfl
  | cons call front induction =>
      simp only [List.cons_append, run_cons, induction, Option.bind_assoc]

/-- The step lemma of a host export: the call does not panic, and leaves the cache with the
call's operations issued and the entities it looked up cached. -/
theorem step_hostExport (cache : EntityCache) {call : CacheCall} (host : call.isHostExport) :
    ∃ current, cache.step store weight call =
      some { (call.issued store).foldl (fun cache entry => cache.entityOp entry.1 entry.2) cache
        with current } := by
  cases call with
  | get key =>
      obtain ⟨⟨current, _⟩, lookedUp⟩ := getEntity_eq_some store weight cache.current key
      exact ⟨current, by simp only [step, get, lookedUp, Option.map_some]; rfl⟩
  | set key entity =>
      simp only [step, set, CacheCall.issued]
      cases checkedEntity store key entity with
      | error message => exact ⟨cache.current, rfl⟩
      | ok entity => exact setChecked_eq_some store weight cache key entity
  | remove key => exact ⟨(cache.entityOp key .remove).current, rfl⟩
  | append | enterHandler | exitHandler | exitHandlerAndDiscardChanges =>
      simp [CacheCall.isHostExport] at host

/-- The run lemma of host exports, by induction on the calls. -/
theorem run_hostExports (cache : EntityCache) {calls : List CacheCall}
    (hosts : ∀ call ∈ calls, call.isHostExport) :
    ∃ current, cache.run store weight calls =
      some { (calls.flatMap (CacheCall.issued store)).foldl
        (fun cache entry => cache.entityOp entry.1 entry.2) cache with current } := by
  induction calls generalizing cache with
  | nil => exact ⟨cache.current, rfl⟩
  | cons call calls induction =>
      obtain ⟨current, stepped⟩ := step_hostExport store weight cache (hosts call List.mem_cons_self)
      obtain ⟨final, ran⟩ := induction _ fun other member => hosts other (List.mem_cons_of_mem _ member)
      refine ⟨final, ?_⟩
      rw [run_cons, stepped, Option.bind_some, ran, foldl_entityOp_withCurrent, List.flatMap_cons,
        List.foldl_append]

/-! ## Closed handlers -/

/-- Outside a handler, no operation of a handler is pending. -/
def Drained (cache : EntityCache) : Prop :=
  cache.inHandler = false → cache.handlerUpdates = []

theorem drained_withCurrent (current : LfuCache EntityKey (Option Entity)) :
    (withCurrent current).Drained :=
  fun _ => rfl

theorem Drained.foldl_entityOp {cache : EntityCache} (drained : cache.Drained)
    (entries : List (EntityKey × EntityOp)) :
    (entries.foldl (fun cache entry => cache.entityOp entry.1 entry.2) cache).Drained := by
  rw [foldl_entityOp_eq]
  split
  next inside => exact fun closed => absurd (inside.symm.trans closed) Bool.noConfusion
  next => exact drained

/-- The step lemma: every call keeps a closed handler drained, one case per call. -/
theorem Drained.step {cache cache' : EntityCache} (drained : cache.Drained) {call : CacheCall}
    (stepped : cache.step store weight call = some cache') : cache'.Drained := by
  by_cases host : call.isHostExport
  · obtain ⟨current, same⟩ := step_hostExport store weight cache host
    rw [stepped] at same
    cases same
    exact drained.foldl_entityOp _
  cases call with
  | get _ | set _ _ | remove _ => simp [CacheCall.isHostExport] at host
  | append operations =>
      simp only [EntityCache.step, append_eq] at stepped
      split at stepped
      · cases stepped
      · cases stepped
        exact drained.foldl_entityOp _
  | enterHandler =>
      simp only [EntityCache.step, EntityCache.enterHandler] at stepped
      split at stepped
      · cases stepped
      · cases stepped
        exact fun opened => Bool.noConfusion opened
  | exitHandler =>
      simp only [EntityCache.step, EntityCache.exitHandler] at stepped
      split at stepped
      · cases stepped
        exact Drained.foldl_entityOp (fun _ => rfl) _
      · cases stepped
  | exitHandlerAndDiscardChanges =>
      simp only [EntityCache.step, EntityCache.exitHandlerAndDiscardChanges] at stepped
      split at stepped
      · cases stepped
        exact fun _ => rfl
      · cases stepped

/-- The run lemma, by induction on the calls. -/
theorem Drained.run {cache final : EntityCache} (drained : cache.Drained) {calls : List CacheCall}
    (ran : cache.run store weight calls = some final) : final.Drained := by
  induction calls generalizing cache with
  | nil =>
      cases ran
      exact drained
  | cons call calls induction =>
      rw [run_cons, Option.bind_eq_some_iff] at ran
      obtain ⟨next, stepped, ran⟩ := ran
      exact induction (drained.step store weight stepped) ran

/-! ## Closing a handler -/

theorem step_enterHandler_of_closed {cache : EntityCache} (closed : cache.inHandler = false) :
    cache.step store weight .enterHandler = some { cache with inHandler := true } := by
  simp [step, enterHandler, closed]

/-- A handler closed by `exit_handler_and_discard_changes` leaves `updates` as it was. -/
theorem run_discard_updates (cache : EntityCache) (closed : cache.inHandler = false)
    {calls : List CacheCall} (hosts : ∀ call ∈ calls, call.isHostExport) :
    ∃ discarded, cache.run store weight
        (.enterHandler :: calls ++ [.exitHandlerAndDiscardChanges]) = some discarded ∧
      discarded.updates = cache.updates := by
  obtain ⟨current, ran⟩ := run_hostExports store weight { cache with inHandler := true } hosts
  refine ⟨⟨current, cache.updates, [], false⟩, ?_, rfl⟩
  rw [List.cons_append, run_cons, step_enterHandler_of_closed store weight closed, Option.bind_some,
    run_append, ran, Option.bind_some, run_cons]
  simp [step, exitHandlerAndDiscardChanges, foldl_entityOp_eq]

/-- A handler closed by `exit_handler` leaves at every key what its calls leave made with no
handler open. -/
theorem run_exitHandler_opFor (cache : EntityCache) (closed : cache.inHandler = false)
    (drained : cache.Drained) (distinct : KeyedList.Distinct Prod.fst cache.updates)
    {calls : List CacheCall} (hosts : ∀ call ∈ calls, call.isHostExport) :
    ∃ handled direct, cache.run store weight (.enterHandler :: calls ++ [.exitHandler]) =
        some handled ∧ cache.run store weight calls = some direct ∧
      ∀ key, opFor handled.updates key = opFor direct.updates key := by
  obtain ⟨current, inside⟩ := run_hostExports store weight { cache with inHandler := true } hosts
  obtain ⟨current', outside⟩ := run_hostExports store weight cache hosts
  have empty := drained closed
  have handled : cache.run store weight (.enterHandler :: calls ++ [.exitHandler]) =
      some ⟨current, recordAll cache.updates
        (recordAll [] (calls.flatMap (CacheCall.issued store))), [], false⟩ := by
    rw [List.cons_append, run_cons, step_enterHandler_of_closed store weight closed,
      Option.bind_some, run_append, inside, Option.bind_some, run_cons]
    simp [step, exitHandler, foldl_entityOp_eq, empty]
  refine ⟨_, _, handled, outside, fun key => ?_⟩
  simp only [foldl_entityOp_eq, closed, Bool.false_eq_true, ↓reduceIte]
  exact WriteLog.find_foldl_record_coalesced EntityOp.accumulate_assoc distinct _ key

end EntityCache

end GraphNode
