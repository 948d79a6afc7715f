import GraphNode.Library.WriteLog
import GraphNode.Store.Operations
import GraphNode.Util.LfuCacheInvariant

/-!
# The entity cache

`graph/src/components/store/cache.rs`.  The cache collects the operations of the handlers of a
block, one accumulated `EntityOp` per key, in `updates`, and those of the running handler in
`handlerUpdates`; `asModifications` resolves them against the current entities into the
modifications the store writes.

The two hash maps of operations are lists of distinct keys, iterated in insertion order, one of
the orders a `HashMap` may produce.  The cache reads the store and its schema through
`StoreView`.  Calls that the source aborts with a panic (`assert!`, `unwrap`, the assertion
inside `LfuCache::remove`, an underflow of the cache's total weight) return `none`; store and
validation errors are `Except.error`.
-/

namespace GraphNode

/-- What the entity cache reads from its `WritableStore` and the store's input schema. -/
structure StoreView where
  /-- `WritableStore::get`. -/
  get : EntityKey → Except String (Option Entity)
  /-- `WritableStore::get_many`: for each entity type, the entities stored under the ids. -/
  getMany : Std.ExtTreeMap String (List String) compare →
    Except String (List (String × List Entity))
  /-- `Schema::id_value`: the `id` value for the key's id, typed as the schema says. -/
  idValue : EntityKey → Except String Value
  /-- `Schema::is_immutable`. -/
  isImmutable : String → Bool
  /-- `Entity::validate` against the input schema. -/
  validate : Entity → EntityKey → Except String Unit

/-- The accumulated operations of a hash map keyed by entity key. -/
abbrev Updates := List (EntityKey × EntityOp)

/-- `EntityCache`. -/
structure EntityCache where
  /-- The entities of the store looked up so far; `none` records an absent entity. -/
  current : LfuCache EntityKey (Option Entity)
  /-- The accumulated changes to each entity. -/
  updates : Updates
  /-- The changes of the handler that is running. -/
  handlerUpdates : Updates
  /-- Whether changes go to `handlerUpdates`. -/
  inHandler : Bool

/-- `ModificationsAndCache`, without the data sources the cache only passes through. -/
structure ModificationsAndCache where
  modifications : List EntityModification
  entityLfuCache : LfuCache EntityKey (Option Entity)

/-- The `entry` API on an update map: insert into a vacant entry, accumulate into an occupied
one. -/
def accumulateInto (updates : Updates) (key : EntityKey) (op : EntityOp) : Updates :=
  WriteLog.record EntityOp.accumulate updates key op

/-- The operation recorded for `key`, if any. -/
def opFor (updates : Updates) (key : EntityKey) : Option EntityOp :=
  (KeyedList.find Prod.fst updates key).map Prod.snd

namespace EntityCache

section

variable (store : StoreView) (weight : EntityKey → Option Entity → Nat)

/-- `EntityCache::new`. -/
def new : EntityCache := ⟨LfuCache.new, [], [], false⟩

/-- `EntityCache::with_current`. -/
def withCurrent (current : LfuCache EntityKey (Option Entity)) : EntityCache :=
  ⟨current, [], [], false⟩

/-- `EntityCache::enter_handler`. -/
def enterHandler (cache : EntityCache) : Option EntityCache :=
  if cache.inHandler then none else some { cache with inHandler := true }

/-- `EntityCache::entity_op`. -/
def entityOp (cache : EntityCache) (key : EntityKey) (op : EntityOp) : EntityCache :=
  if cache.inHandler then
    { cache with handlerUpdates := accumulateInto cache.handlerUpdates key op }
  else { cache with updates := accumulateInto cache.updates key op }

/-- `EntityCache::exit_handler`: the handler's changes are accumulated into `updates`. -/
def exitHandler (cache : EntityCache) : Option EntityCache :=
  if cache.inHandler then
    some (cache.handlerUpdates.foldl (fun cache (key, op) => cache.entityOp key op)
      { cache with inHandler := false, handlerUpdates := [] })
  else none

/-- `EntityCache::exit_handler_and_discard_changes`. -/
def exitHandlerAndDiscardChanges (cache : EntityCache) : Option EntityCache :=
  if cache.inHandler then some { cache with inHandler := false, handlerUpdates := [] }
  else none

/-- `LfuCache::get_entity`: a cached lookup of the store, without `__typename`.  The lookup
in the cache counts as a use even when the store then fails; `none` is a panic of
`LfuCache::insert`. -/
def getEntity (current : LfuCache EntityKey (Option Entity)) (key : EntityKey) :
    Option (LfuCache EntityKey (Option Entity) × Except String (Option Entity)) :=
  match current.get key with
  | (current, some data) => some (current, .ok data)
  | (current, none) =>
      match store.get key with
      | .error message => some (current, .error message)
      | .ok entity =>
          let entity := entity.map fun entity => entity.erase "__typename"
          (current.insert weight key entity).map fun current => (current, .ok entity)

/-- `EntityCache::get`: the current entity with the changes of `updates` and then those of
`handlerUpdates` applied. -/
def get (cache : EntityCache) (key : EntityKey) :
    Option (EntityCache × Except String (Option Entity)) :=
  (getEntity store weight cache.current key).map fun (current, entity) =>
    ({ cache with current := current }, entity.map fun entity =>
      let entity := match opFor cache.updates key with
        | some op => op.applyTo entity
        | none => entity
      match opFor cache.handlerUpdates key with
      | some op => op.applyTo entity
      | none => entity)

/-- `EntityCache::remove`. -/
def remove (cache : EntityCache) (key : EntityKey) : EntityCache :=
  cache.entityOp key .remove

/-- The message of `check_id` in `EntityCache::set`. -/
def idConflict (key : EntityKey) (previous : String) : String :=
  "Value of " ++ key.entityType ++ " attribute \x27id\x27 conflicts with ID passed to " ++
    "`store.set()`: " ++ previous ++ " != " ++ key.entityId

/-- The rest of `EntityCache::set` once the entity has its id: record the update, and if the
entity is not valid by itself, validate it merged with the stored one.  The update stays
recorded when that validation fails. -/
def setChecked (cache : EntityCache) (key : EntityKey) (entity : Entity) :
    Option (EntityCache × Except String Unit) :=
  let isValid := (store.validate entity key).isOk
  let cache := cache.entityOp key (.update entity)
  if isValid then some (cache, .ok ())
  else
    (cache.get store weight key).map fun read =>
      match read with
      | (cache, .error message) => (cache, .error message)
      | (cache, .ok none) =>
          (cache, .error ("Failed to read entity " ++ key.entityType ++ "[" ++ key.entityId ++
            "] back from cache"))
      | (cache, .ok (some merged)) => (cache, store.validate merged key)

/-- The `id` handling at the start of `EntityCache::set`: an `id` attribute must agree with
the key, and a missing one is set from the key. -/
def checkedEntity (key : EntityKey) (entity : Entity) : Except String Entity :=
  match entity["id"]? with
  | some (.string previous) =>
      if previous ≠ key.entityId then .error (idConflict key previous) else .ok entity
  | some (.bytes previous) =>
      if bytesToString previous ≠ key.entityId then
        .error (idConflict key (bytesToString previous))
      else .ok entity
  -- the validation catches an `id` of another type
  | some _ => .ok entity
  | none => (store.idValue key).map fun value => entity.insert "id" value

/-- `EntityCache::set`. -/
def set (cache : EntityCache) (key : EntityKey) (entity : Entity) :
    Option (EntityCache × Except String Unit) :=
  match checkedEntity store key entity with
  | .error message => some (cache, .error message)
  | .ok entity => cache.setChecked store weight key entity

/-- `EntityCache::append`. -/
def append (cache : EntityCache) (operations : List EntityOperation) : Option EntityCache :=
  if cache.inHandler then none
  else
    some (operations.foldl (fun cache operation =>
      match operation with
      | .set key data => cache.entityOp key (.update data)
      | .remove key => cache.entityOp key .remove) cache)

/-- The keys `as_modifications` has to look up in the store: those of `updates` not cached yet,
except those of immutable types. -/
def missing (cache : EntityCache) : List EntityKey :=
  (cache.updates.map Prod.fst).filter fun key =>
    !cache.current.containsKey key && !store.isImmutable key.entityType

/-- The ids of some entity types, keyed by type: the argument of `get_many`. -/
abbrev IdsByType := Std.ExtTreeMap String (List String) compare

/-- One key of the loop that fills `missing_by_subgraph`: its id is pushed under its subgraph
and entity type. -/
def addMissing (groups : Std.ExtTreeMap String IdsByType compare) (key : EntityKey) :
    Std.ExtTreeMap String IdsByType compare :=
  groups.alter key.subgraphId fun types =>
    some ((types.getD ∅).alter key.entityType fun ids => some (ids.getD [] ++ [key.entityId]))

/-- `missing_by_subgraph`: the missing ids grouped by subgraph and then by entity type. -/
def groupMissing (keys : List EntityKey) : Std.ExtTreeMap String IdsByType compare :=
  keys.foldl addMissing ∅

/-- Insert the entities of one type the store returned into the cache, keyed by their `id`;
`none` is the panic of `entity.id().unwrap()` or of `LfuCache::insert`. -/
def cacheEntities (current : LfuCache EntityKey (Option Entity)) (subgraphId entityType : String)
    (entities : List Entity) : Option (LfuCache EntityKey (Option Entity)) :=
  entities.foldlM (fun current entity =>
    match entity.id with
    | .error _ => none
    | .ok entityId => current.insert weight ⟨subgraphId, entityType, entityId⟩ (some entity))
    current

/-- Insert all the entities the store returned for a subgraph into the cache. -/
def cacheLoaded (current : LfuCache EntityKey (Option Entity)) (subgraphId : String)
    (found : List (String × List Entity)) : Option (LfuCache EntityKey (Option Entity)) :=
  found.foldlM (fun current (entityType, entities) =>
    cacheEntities weight current subgraphId entityType entities) current

/-- Load the missing entities, one `get_many` per subgraph. -/
def loadMissing (current : LfuCache EntityKey (Option Entity)) :
    List (String × IdsByType) → Option (Except String (LfuCache EntityKey (Option Entity)))
  | [] => some (.ok current)
  | (subgraphId, keys) :: rest =>
      match store.getMany keys with
      | .error message => some (.error message)
      | .ok found =>
          match cacheLoaded weight current subgraphId found with
          | none => none
          | some current => loadMissing current rest

/-- One arm of the match in `as_modifications`: from the current entity and the accumulated
operation, what to cache under the key (`none`: leave it uncached) and the modification. -/
def modification (key : EntityKey) :
    Option Entity → EntityOp → Option (Option Entity) × Option EntityModification
  | none, .update updates | none, .overwrite updates =>
      -- merging with an empty entity removes null fields
      let data := (∅ : Entity).mergeRemoveNullFields updates
      (some (some data), some (.insert key data))
  | some current, .update updates =>
      let data := current.mergeRemoveNullFields updates
      (some (some data), if current ≠ data then some (.overwrite key data) else none)
  | some current, .overwrite data =>
      (some (some data), if current ≠ data then some (.overwrite key data) else none)
  | some _, .remove => (some none, some (.remove key))
  | none, .remove => (none, none)

/-- The loop of `as_modifications` over `updates`; `none` is a panic inside
`LfuCache::remove` or `LfuCache::insert`. -/
def resolve (current : LfuCache EntityKey (Option Entity)) :
    Updates → Option (LfuCache EntityKey (Option Entity) × List EntityModification)
  | [] => some (current, [])
  | (key, update) :: rest =>
      match current.remove key with
      | none => none
      | some (current, removed) =>
          let (cached, change) := modification key (removed.bind id) update
          let current := match cached with
            | some value => current.insert weight key value
            | none => some current
          current.bind fun current =>
            (resolve current rest).map fun (current, changes) =>
              (current, change.toList ++ changes)

/-- `EntityCache::as_modifications`, evicting down to `entityCacheSize` at the end. -/
def asModifications (entityCacheSize : Nat) (cache : EntityCache) :
    Option (Except String ModificationsAndCache) :=
  if cache.inHandler then none
  else
    match loadMissing store weight cache.current (groupMissing (cache.missing store)).toList with
    | none => none
    | some (.error message) => some (.error message)
    | some (.ok current) =>
        match resolve weight current cache.updates with
        | none => none
        | some (current, modifications) =>
            (current.evict entityCacheSize).map fun (current, _) =>
              .ok ⟨modifications, current⟩

end

end EntityCache

end GraphNode
