import GraphNode.Store.EntityCacheModifications

/-!
# Reading your writes

`EntityCache::get` (`graph/src/components/store/cache.rs`) layers three things: the entity the
cache holds or loads from the store, the operation accumulated for the key over the block, and the
one accumulated by the running handler, each applied with `EntityOp::apply_to`.  The result is,
up to `Null` attributes, what the journal's operations on the key do to the store's entity, each
set a merge that drops `Null`s and each remove a deletion.  What `get` reads from the store is
the entity without `__typename`, which `get_entity` drops; the theorem compares against that.

`apply_to` keeps the `Null`s of an update applied to nothing and of an overwrite, where the
meaning drops them; `Entity.withoutNulls` is the comparison that ignores this.
-/

namespace GraphNode

namespace Entity

/-- An entity without its `Null` attributes. -/
def withoutNulls (entity : Entity) : Entity :=
  entity.filter fun _ value => !value.isNull

@[simp]
theorem getElem?_withoutNulls (entity : Entity) (key : Attribute) :
    (withoutNulls entity)[key]? = (entity[key]?).filter fun value => !value.isNull := by
  simp [withoutNulls]

/-- A merge that drops `Null`s keeps only the `Null`s of the entity it merges into. -/
theorem withoutNulls_mergeRemoveNullFields (entity updates : Entity) :
    withoutNulls (entity.mergeRemoveNullFields updates) =
      (withoutNulls entity).mergeRemoveNullFields updates := by
  apply Std.ExtTreeMap.ext_getElem?
  intro key
  simp only [getElem?_withoutNulls, getElem?_mergeRemoveNullFields]
  rcases updates[key]? with _ | ⟨_ | _ | _ | _ | _ | _ | _ | _⟩ <;> simp [Value.isNull]

theorem withoutNulls_empty_mergeRemoveNullFields (entity : Entity) :
    withoutNulls ((∅ : Entity).mergeRemoveNullFields entity) = withoutNulls entity := by
  apply Std.ExtTreeMap.ext_getElem?
  intro key
  simp only [getElem?_withoutNulls, getElem?_mergeRemoveNullFields]
  rcases entity[key]? with _ | ⟨_ | _ | _ | _ | _ | _ | _ | _⟩ <;>
    simp [Option.filter_some, Value.isNull]

end Entity

/-- `apply_to` and the meaning of an operation agree up to `Null`s, on entities that agree up to
`Null`s. -/
theorem EntityOp.applyTo_withoutNulls (op : EntityOp) {entity entity' : Option Entity}
    (same : entity.map Entity.withoutNulls = entity'.map Entity.withoutNulls) :
    (op.applyTo entity).map Entity.withoutNulls = (op.meaning entity').map Entity.withoutNulls := by
  cases op with
  | remove => rfl
  | overwrite data =>
      simp [applyTo, Entity.withoutNulls_empty_mergeRemoveNullFields]
  | update updates =>
      cases entity with
      | none =>
          cases entity' with
          | none => simp [applyTo, Entity.withoutNulls_empty_mergeRemoveNullFields]
          | some _ => cases same
      | some stored =>
          cases entity' with
          | none => cases same
          | some stored' =>
              have sameStored : stored.withoutNulls = stored'.withoutNulls := by
                simpa using same
              simp [applyTo, Entity.withoutNulls_mergeRemoveNullFields, sameStored]

/-- The accumulated operation of a key, if any, applied as `get` applies it. -/
def applyOpFor (updates : Updates) (key : EntityKey) (entity : Option Entity) : Option Entity :=
  match opFor updates key with
  | some op => op.applyTo entity
  | none => entity

/-- An update map applied as `get` applies it agrees up to `Null`s with the meaning of its
operation. -/
theorem applyOpFor_withoutNulls (updates : Updates) (key : EntityKey)
    {entity entity' : Option Entity}
    (same : entity.map Entity.withoutNulls = entity'.map Entity.withoutNulls) :
    (applyOpFor updates key entity).map Entity.withoutNulls =
      (WriteLog.applyAt EntityOp.meaning updates key entity').map Entity.withoutNulls := by
  unfold applyOpFor opFor WriteLog.applyAt
  cases KeyedList.find Prod.fst updates key with
  | none => exact same
  | some entry => exact entry.2.applyTo_withoutNulls same

/-- Every cached entity is the store's as `get_entity` caches it, without `__typename`. -/
def CacheHolds (state : EntityKey → Option Entity)
    (current : LfuCache EntityKey (Option Entity)) : Prop :=
  ∀ key entity, current.lookup key = some entity →
    entity = (state key).map fun entity => entity.erase "__typename"

namespace CacheHolds

variable {store : StoreView} {deployment : String} {state : EntityKey → Option Entity}
  (reads : store.Reads deployment state) (weight : EntityKey → Option Entity → Nat)
  {current : LfuCache EntityKey (Option Entity)}

theorem new : CacheHolds state (LfuCache.new : LfuCache EntityKey (Option Entity)) := by
  simp [CacheHolds]

include reads in
/-- A lookup does not panic, and returns the store's entity without `__typename`, from the
cache or the store. -/
theorem getEntity_snd (holds : CacheHolds state current) {key : EntityKey} (inDeployment : key.subgraphId = deployment) :
    ∃ looked, EntityCache.getEntity store weight current key = some looked ∧
      looked.2 = .ok ((state key).map fun entity => entity.erase "__typename") := by
  obtain ⟨looked, lookedUp⟩ := EntityCache.getEntity_eq_some store weight current key
  refine ⟨looked, lookedUp, ?_⟩
  rw [EntityCache.getEntity_snd_eq store weight lookedUp]
  cases cached : current.lookup key with
  | none =>
      rw [reads.get key inDeployment]
      rfl
  | some data => simp [holds key data cached]

include reads in
/-- A lookup caches what the store returns, without `__typename`. -/
theorem getEntity (holds : CacheHolds state current) {key : EntityKey}
    (inDeployment : key.subgraphId = deployment)
    {looked : LfuCache EntityKey (Option Entity) × Except String (Option Entity)}
    (lookedUp : EntityCache.getEntity store weight current key = some looked) :
    CacheHolds state looked.1 := by
  intro probe entity cached
  rcases EntityCache.lookup_getEntity store weight lookedUp cached with
    kept | ⟨rfl, stored, answered, rfl⟩
  · exact holds probe entity kept
  · rw [reads.get probe inDeployment] at answered
    cases answered
    rfl

include reads in
/-- The run lemma for the cached entities. -/
theorem run {cache final : EntityCache} {calls : List CacheCall}
    (holds : CacheHolds state cache.current)
    (inDeployment : ∀ call ∈ calls, ∀ key ∈ call.keys, key.subgraphId = deployment)
    (ran : cache.run store weight calls = some final) : CacheHolds state final.current :=
  EntityCache.current_run store weight (fun key => key.subgraphId = deployment)
    (fun holds inDeployment lookedUp => holds.getEntity reads weight inDeployment lookedUp)
    holds inDeployment ran

end CacheHolds

section

variable {store : StoreView} {deployment : String} {state : EntityKey → Option Entity}
  (reads : store.Reads deployment state) (weight : EntityKey → Option Entity → Nat)

include reads in
/-- Read-your-writes: after any calls, `get` returns what the journal's operations on the key do
to the store's entity, up to `Null`s. -/
theorem get_reads_your_writes {current : LfuCache EntityKey (Option Entity)}
    (holds : CacheHolds state current) {calls : List CacheCall}
    (inDeployment : ∀ call ∈ calls, ∀ key ∈ call.keys, key.subgraphId = deployment)
    {cache : EntityCache} (ran : (EntityCache.withCurrent current).run store weight calls = some cache)
    {key : EntityKey} (keyInDeployment : key.subgraphId = deployment) :
    ∃ cache' entity, cache.get store weight key = some (cache', .ok entity) ∧
      entity.map Entity.withoutNulls =
        (WriteLog.replay EntityOp.meaning ((Journal.start.run store calls).committed ++
          (Journal.start.run store calls).pending) key
          ((state key).map fun entity => entity.erase "__typename")).map Entity.withoutNulls := by
  have simulates := (Simulates.withCurrent current).run ran
  obtain ⟨⟨_, _⟩, lookedUp, rfl⟩ :=
    (holds.run reads weight inDeployment ran).getEntity_snd reads weight keyInDeployment
  refine ⟨_, _, by rw [EntityCache.get, lookedUp]; rfl, ?_⟩
  rw [WriteLog.replay_append, ← simulates.updates.applyAt_eq, ← simulates.handlerUpdates.applyAt_eq]
  exact applyOpFor_withoutNulls _ key (applyOpFor_withoutNulls _ key rfl)

end

/-- Inside a handler that removes the stored entity and sets it again with a `Null` attribute,
`get` reads the entity set. -/
theorem get_reads_your_writes_reset :
    ∃ cache entity, (((EntityCache.withCurrent LfuCache.new).run resetStore (fun _ _ => 1)
        (.enterHandler :: resetCalls)).getD EntityCache.new).get resetStore (fun _ _ => 1)
          resetKey = some (cache, .ok entity) ∧
      entity.map Entity.withoutNulls =
        (WriteLog.replay EntityOp.meaning
          ((Journal.start.run resetStore (.enterHandler :: resetCalls)).committed ++
            (Journal.start.run resetStore (.enterHandler :: resetCalls)).pending) resetKey
          ((resetState resetKey).map fun entity => entity.erase "__typename")).map
            Entity.withoutNulls :=
  get_reads_your_writes (StoreView.reads_ofState resetState_keyed _ _ _) (fun _ _ => 1)
    CacheHolds.new (by decide) rfl rfl

end GraphNode
