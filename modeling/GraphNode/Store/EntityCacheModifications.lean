import GraphNode.Store.EntityCacheRun

/-!
# What `as_modifications` writes

`EntityCache::as_modifications` (`graph/src/components/store/cache.rs`) first loads the entities
it has not looked up yet, then resolves each accumulated operation against the current entity
into at most one modification, and evicts.  Read against the journal of the block, on a store
that reads a state `state`:

* applied to `state`, the modifications give each key the entity the committed operations give
  it, up to what the store keeps (`Entity.persisted`), with at most one modification per key;
* the cache handed on agrees, in the same sense, with the store after those modifications.

Up to `persisted` is as far as it goes.  An entity removed and set again in one block resolves
to an `Overwrite` carrying the `Null`s of the set entity: the store writes them, and the cache
keeps them, although every other path merges `Null`s away.
-/

namespace GraphNode

namespace EntityModification

/-- The entity a key holds after its modification, if there is one. -/
def after (stored : Option Entity) : Option EntityModification → Option Entity
  | none => stored
  | some change => change.entity

/-- The store's entities after it applies a modification: `Insert` and `Overwrite` replace the
entity of the key, `Remove` deletes it. -/
def applyTo (change : EntityModification) (state : EntityKey → Option Entity) :
    EntityKey → Option Entity :=
  fun key => if change.entityKey = key then change.entity else state key

end EntityModification

/-- The store's entities after it applies modifications in order. -/
def applyModifications (state : EntityKey → Option Entity) (changes : List EntityModification) :
    EntityKey → Option Entity :=
  changes.foldl (fun state change => change.applyTo state) state

/-- Modifications of distinct keys, at most one from each entry of a keyed list, act key by key. -/
theorem applyModifications_flatMap (entries : List (EntityKey × EntityOp))
    (distinct : KeyedList.Distinct Prod.fst entries)
    (change : EntityKey × EntityOp → Option EntityModification)
    (ownKey : ∀ entry modification, change entry = some modification →
      modification.entityKey = entry.1)
    (state : EntityKey → Option Entity) (key : EntityKey) :
    applyModifications state (entries.flatMap fun entry => (change entry).toList) key =
      match KeyedList.find Prod.fst entries key with
      | some entry => EntityModification.after (state key) (change entry)
      | none => state key := by
  induction entries generalizing state with
  | nil => rfl
  | cons entry entries induction =>
      obtain ⟨fresh, distinct⟩ := List.nodup_cons.mp distinct
      have first : ∀ probe, applyModifications state (change entry).toList probe =
          if entry.1 = probe then EntityModification.after (state probe) (change entry)
          else state probe := by
        intro probe
        cases changed : change entry with
        | none => simp [applyModifications, EntityModification.after]
        | some modification =>
            have own := ownKey entry modification changed
            simp [applyModifications, EntityModification.applyTo, EntityModification.after, own]
      rw [List.flatMap_cons, applyModifications, List.foldl_append, ← applyModifications,
        ← applyModifications, induction distinct, KeyedList.find_cons, first]
      by_cases hit : entry.1 = key
      · have absent : KeyedList.find Prod.fst entries key = none :=
          KeyedList.find_eq_none_of_not_mem (hit ▸ fresh)
        simp [hit, absent]
      · cases KeyedList.find Prod.fst entries key <;> simp [hit]

/-- Each entry of a keyed list with distinct keys gives at most one modification of its key: no
key is modified twice. -/
theorem nodup_flatMap_entityKey (entries : List (EntityKey × EntityOp))
    (distinct : KeyedList.Distinct Prod.fst entries)
    (change : EntityKey × EntityOp → Option EntityModification)
    (ownKey : ∀ entry modification, change entry = some modification →
      modification.entityKey = entry.1) :
    ((entries.flatMap fun entry => (change entry).toList).map
      EntityModification.entityKey).Nodup := by
  refine List.Nodup.sublist ?_ distinct
  induction entries with
  | nil => exact List.Sublist.slnil
  | cons entry entries induction =>
      rw [List.flatMap_cons, List.map_append, List.map_cons]
      cases changed : change entry with
      | none => exact (induction (List.nodup_cons.mp distinct).2).cons _
      | some modification =>
          simp only [Option.toList_some, List.map_cons, List.map_nil, List.singleton_append,
            ownKey entry modification changed]
          exact (induction (List.nodup_cons.mp distinct).2).cons_cons _

namespace EntityCache

/-! ## Grouping the missing keys -/

/-- A key is requested by a grouping when its id is listed under its subgraph and type. -/
def Requested (groups : Std.ExtTreeMap String IdsByType compare) (key : EntityKey) : Prop :=
  ∃ types ids, groups[key.subgraphId]? = some types ∧ types[key.entityType]? = some ids ∧
    key.entityId ∈ ids

theorem requested_addMissing_self (groups : Std.ExtTreeMap String IdsByType compare)
    (key : EntityKey) : Requested (addMissing groups key) key := by
  refine ⟨_, _, Std.ExtTreeMap.getElem?_alter_self, Std.ExtTreeMap.getElem?_alter_self, ?_⟩
  simp

/-- Adding a key keeps the keys already requested. -/
theorem Requested.addMissing {groups : Std.ExtTreeMap String IdsByType compare}
    {key : EntityKey} (requested : Requested groups key) (other : EntityKey) :
    Requested (EntityCache.addMissing groups other) key := by
  obtain ⟨types, ids, inGroups, inTypes, member⟩ := requested
  unfold EntityCache.addMissing Requested
  simp only [Std.ExtTreeMap.getElem?_alter, Std.LawfulEqCmp.compare_eq_iff_eq]
  split
  · rename_i sameSubgraph
    rw [sameSubgraph, inGroups]
    have listed : ∃ listedIds, (types.alter other.entityType fun ids =>
        some (ids.getD [] ++ [other.entityId]))[key.entityType]? = some listedIds ∧
        key.entityId ∈ listedIds := by
      simp only [Std.ExtTreeMap.getElem?_alter, Std.LawfulEqCmp.compare_eq_iff_eq]
      split
      · rename_i sameType
        rw [sameType, inTypes]
        exact ⟨ids ++ [other.entityId], rfl, by simp [member]⟩
      · exact ⟨ids, inTypes, member⟩
    obtain ⟨listedIds, found, listedMember⟩ := listed
    exact ⟨_, listedIds, rfl, found, listedMember⟩
  · exact ⟨types, ids, inGroups, inTypes, member⟩

theorem requested_foldl {groups : Std.ExtTreeMap String IdsByType compare}
    {key : EntityKey} (requested : Requested groups key) (keys : List EntityKey) :
    Requested (keys.foldl EntityCache.addMissing groups) key := by
  induction keys generalizing groups with
  | nil => exact requested
  | cons other keys induction => exact induction (requested.addMissing other)

/-- Every key to group is requested. -/
theorem requested_groupMissing {keys : List EntityKey} {key : EntityKey} (member : key ∈ keys) :
    Requested (groupMissing keys) key := by
  suffices grouped : ∀ groups, Requested (keys.foldl EntityCache.addMissing groups) key from
    grouped ∅
  induction keys with
  | nil => simp at member
  | cons other keys induction =>
      intro groups
      rcases List.mem_cons.mp member with rfl | member
      · exact requested_foldl (requested_addMissing_self groups key) keys
      · exact induction member _

/-- The subgraphs of a grouping are those of its keys. -/
theorem subgraph_of_mem_groupMissing {keys : List EntityKey} (P : String → Prop)
    (subgraphs : ∀ key ∈ keys, P key.subgraphId) {group : String × IdsByType}
    (member : group ∈ (groupMissing keys).toList) : P group.1 := by
  suffices grouped : ∀ groups : Std.ExtTreeMap String IdsByType compare,
      (∀ subgraphId ∈ groups, P subgraphId) →
      ∀ subgraphId ∈ keys.foldl EntityCache.addMissing groups, P subgraphId by
    have found := Std.ExtTreeMap.mem_toList_iff_getElem?_eq_some.mp member
    unfold groupMissing at found
    refine grouped ∅ (by simp) group.1 ?_
    rw [Std.ExtTreeMap.mem_iff_isSome_getElem?, found]
    rfl
  clear member
  induction keys with
  | nil => exact fun _ start => start
  | cons key keys induction =>
      intro groups start
      refine induction (fun key member => subgraphs key (List.mem_cons_of_mem _ member))
        (EntityCache.addMissing groups key) ?_
      intro subgraphId added
      unfold EntityCache.addMissing at added
      simp only [Std.ExtTreeMap.mem_alter, Std.LawfulEqCmp.compare_eq_iff_eq] at added
      split at added
      · rename_i same
        exact same ▸ subgraphs key List.mem_cons_self
      · exact start subgraphId added

/-! ## Loading what is missing -/

/-- A cache that agrees with the store and still holds every key of an earlier one. -/
structure CacheGrows (state : EntityKey → Option Entity)
    (before after : LfuCache EntityKey (Option Entity)) : Prop where
  agrees : CacheAgrees state after
  keeps : ∀ key, (before.lookup key).isSome → (after.lookup key).isSome

section

variable {store : StoreView} {deployment : String} {state : EntityKey → Option Entity}
  (reads : store.Reads deployment state) (weight : EntityKey → Option Entity → Nat)
  {current : LfuCache EntityKey (Option Entity)}

theorem CacheGrows.refl (agrees : CacheAgrees state current) : CacheGrows state current current :=
  ⟨agrees, fun _ kept => kept⟩

theorem CacheGrows.trans {middle after : LfuCache EntityKey (Option Entity)}
    (first : CacheGrows state current middle) (second : CacheGrows state middle after) :
    CacheGrows state current after :=
  ⟨second.agrees, fun key kept => second.keeps key (first.keeps key kept)⟩

/-- Caching an entity of the store does not panic and grows the cache. -/
theorem CacheGrows.insert (agrees : CacheAgrees state current) {key : EntityKey}
    {entity : Entity} (stored : state key = some entity) :
    ∃ inserted, current.insert weight key (some entity) = some inserted ∧
      CacheGrows state current inserted := by
  obtain ⟨inserted, insertedIs, wellFormed⟩ :=
    LfuCache.insert_eq_some weight agrees.wellFormed key (some entity)
  refine ⟨inserted, insertedIs, ⟨wellFormed, ?_⟩, ?_⟩
  · intro probe cached found
    rw [LfuCache.lookup_of_insert insertedIs] at found
    split at found
    · rename_i same
      subst same
      cases found
      rw [stored]
    · exact agrees.agree probe cached found
  · intro probe _
    rw [LfuCache.lookup_of_insert insertedIs]
    split <;> simp_all

include reads in
/-- The inner loop of the loading: each returned entity is cached under the key it is the
entity of, by induction on the entities. -/
theorem cacheEntities_grows (entityType : String) (entities : List Entity)
    (sound : ∀ entity ∈ entities, ∃ entityId,
      state ⟨deployment, entityType, entityId⟩ = some entity)
    (agrees : CacheAgrees state current) :
    ∃ loaded, cacheEntities weight current deployment entityType entities = some loaded ∧
      CacheGrows state current loaded ∧
      ∀ entity ∈ entities, ∀ entityId, state ⟨deployment, entityType, entityId⟩ = some entity →
        (loaded.lookup ⟨deployment, entityType, entityId⟩).isSome := by
  induction entities generalizing current with
  | nil => exact ⟨current, rfl, .refl agrees, by simp⟩
  | cons entity entities induction =>
      obtain ⟨entityId, stored⟩ := sound entity List.mem_cons_self
      -- the store's entity carries the id of its key, so `unwrap` does not panic
      have keyed := reads.keyed _ entity stored
      obtain ⟨inserted, insertedIs, grown⟩ := CacheGrows.insert weight agrees stored
      obtain ⟨loaded, cached, grows, listed⟩ := induction
        (fun other member => sound other (List.mem_cons_of_mem _ member)) grown.agrees
      refine ⟨loaded, ?_, grown.trans grows, ?_⟩
      · simp only [cacheEntities, List.foldlM_cons, keyed, insertedIs] at cached ⊢
        exact cached
      · intro other member otherId otherStored
        rcases List.mem_cons.mp member with rfl | member
        · have sameId : otherId = entityId := by
            have := reads.keyed _ other otherStored
            simp_all
          subst sameId
          exact grows.keeps _ (by simp [LfuCache.lookup_of_insert insertedIs])
        · exact listed other member otherId otherStored

include reads in
/-- The loop over the types `get_many` returned, by induction on them. -/
theorem cacheLoaded_grows (found : List (String × List Entity))
    (sound : ∀ entityType entities, (entityType, entities) ∈ found → ∀ entity ∈ entities,
      ∃ entityId, state ⟨deployment, entityType, entityId⟩ = some entity)
    (agrees : CacheAgrees state current) :
    ∃ loaded, cacheLoaded weight current deployment found = some loaded ∧
      CacheGrows state current loaded ∧
      ∀ entityType entities, (entityType, entities) ∈ found → ∀ entity ∈ entities,
        ∀ entityId, state ⟨deployment, entityType, entityId⟩ = some entity →
          (loaded.lookup ⟨deployment, entityType, entityId⟩).isSome := by
  induction found generalizing current with
  | nil => exact ⟨current, rfl, .refl agrees, by simp⟩
  | cons group found induction =>
      obtain ⟨entityType, entities⟩ := group
      obtain ⟨middle, cachedFirst, growsFirst, listedFirst⟩ := cacheEntities_grows reads weight
        entityType entities (sound entityType entities List.mem_cons_self) agrees
      obtain ⟨loaded, cachedRest, growsRest, listedRest⟩ := induction
        (fun entityType entities member => sound entityType entities
          (List.mem_cons_of_mem _ member)) growsFirst.agrees
      refine ⟨loaded, ?_, growsFirst.trans growsRest, ?_⟩
      · simp only [cacheLoaded, List.foldlM_cons, cachedFirst] at cachedRest ⊢
        exact cachedRest
      · intro otherType otherEntities member
        rcases List.mem_cons.mp member with same | member
        · cases same
          intro entity listed entityId stored
          exact growsRest.keeps _ (listedFirst entity listed entityId stored)
        · exact listedRest otherType otherEntities member

include reads in
/-- Loading the missing entities, one `get_many` per subgraph of the deployment, never fails
and caches every requested entity the store has, by induction on the subgraphs. -/
theorem loadMissing_grows (groups : List (String × IdsByType))
    (inDeployment : ∀ group ∈ groups, group.1 = deployment)
    (agrees : CacheAgrees state current) :
    ∃ loaded, loadMissing store weight current groups = some (.ok loaded) ∧
      CacheGrows state current loaded ∧
      ∀ group ∈ groups, ∀ entityType ids entityId entity, group.2[entityType]? = some ids →
        entityId ∈ ids → state ⟨deployment, entityType, entityId⟩ = some entity →
          (loaded.lookup ⟨deployment, entityType, entityId⟩).isSome := by
  induction groups generalizing current with
  | nil => exact ⟨current, rfl, .refl agrees, by simp⟩
  | cons group groups induction =>
      obtain ⟨subgraphId, request⟩ := group
      obtain rfl : subgraphId = deployment := inDeployment _ List.mem_cons_self
      obtain ⟨found, answered, sound, complete⟩ := reads.getMany request
      obtain ⟨middle, cachedFirst, growsFirst, listedFirst⟩ :=
        cacheLoaded_grows reads weight found sound agrees
      obtain ⟨loaded, loadedRest, growsRest, listedRest⟩ := induction
        (fun group member => inDeployment group (List.mem_cons_of_mem _ member)) growsFirst.agrees
      refine ⟨loaded, ?_, growsFirst.trans growsRest, ?_⟩
      · simp only [loadMissing, answered, cachedFirst]
        exact loadedRest
      · intro group member
        rcases List.mem_cons.mp member with rfl | member
        · intro entityType ids entityId entity requested listed stored
          obtain ⟨entities, foundMember, entityMember⟩ :=
            complete entityType ids entityId entity requested listed stored
          exact growsRest.keeps _
            (listedFirst entityType entities foundMember entity entityMember entityId stored)
        · exact listedRest group member

include reads in
/-- After loading, every key of `updates` that the store has an entity for is cached. -/
theorem loadMissing_covers (cache : EntityCache) (agrees : CacheAgrees state cache.current)
    (inDeployment : ∀ entry ∈ cache.updates, entry.1.subgraphId = deployment ∧
      store.isImmutable entry.1.entityType = false) :
    ∃ loaded, loadMissing store weight cache.current (groupMissing (cache.missing store)).toList =
        some (.ok loaded) ∧ CacheAgrees state loaded ∧
      ∀ entry ∈ cache.updates, (loaded.lookup entry.1).isSome ∨ state entry.1 = none := by
  have missingDeployment : ∀ key ∈ cache.missing store, key.subgraphId = deployment := by
    intro key member
    obtain ⟨entry, entryMember, rfl⟩ := List.mem_map.mp (List.mem_filter.mp member).1
    exact (inDeployment entry entryMember).1
  obtain ⟨loaded, loadedEq, grows, listed⟩ := loadMissing_grows reads weight _
    (fun _ member => subgraph_of_mem_groupMissing (· = deployment) missingDeployment member)
    agrees
  refine ⟨loaded, loadedEq, grows.agrees, fun entry member => ?_⟩
  obtain ⟨⟨subgraphId, entityType, entityId⟩, op⟩ := entry
  obtain ⟨rfl, mutable⟩ := inDeployment _ member
  by_cases cached : (cache.current.lookup ⟨subgraphId, entityType, entityId⟩).isSome
  · exact Or.inl (grows.keeps _ cached)
  have isMissing : ⟨subgraphId, entityType, entityId⟩ ∈ cache.missing store := by
    refine List.mem_filter.mpr ⟨List.mem_map_of_mem member, ?_⟩
    simp_all [LfuCache.containsKey_eq]
  obtain ⟨types, ids, inGroups, inTypes, listedId⟩ := requested_groupMissing isMissing
  cases stored : state ⟨subgraphId, entityType, entityId⟩ with
  | none => exact Or.inr rfl
  | some entity =>
      exact Or.inl (listed _ (Std.ExtTreeMap.mem_toList_iff_getElem?_eq_some.mpr inGroups)
        entityType ids entityId entity inTypes listedId stored)

end

/-! ## Resolving the operations -/

section

variable (weight : EntityKey → Option Entity → Nat)

/-- The loop of `as_modifications` resolves each key against what it cached before the loop. -/
theorem resolve_spec {current : LfuCache EntityKey (Option Entity)}
    (wellFormed : current.WellFormed) (updates : Updates)
    (distinct : KeyedList.Distinct Prod.fst updates) :
    ∃ resolved, resolve weight current updates = some (resolved, updates.flatMap fun entry =>
        (modification entry.1 ((current.lookup entry.1).bind id) entry.2).2.toList) ∧
      resolved.WellFormed ∧
      ∀ probe, resolved.lookup probe =
        (KeyedList.find Prod.fst updates probe).elim (current.lookup probe) fun entry =>
          (modification entry.1 ((current.lookup entry.1).bind id) entry.2).1 := by
  induction updates generalizing current with
  | nil => exact ⟨current, rfl, wellFormed, fun _ => rfl⟩
  | cons entry updates induction =>
      obtain ⟨key, op⟩ := entry
      obtain ⟨fresh, distinct⟩ := List.nodup_cons.mp distinct
      obtain ⟨removed, removedEq, removedWellFormed, removedLookup⟩ :=
        LfuCache.remove_spec wellFormed key
      have rest : ∀ (next : LfuCache EntityKey (Option Entity)) (change : Option EntityModification),
          (modification key ((current.lookup key).bind id) op).2 = change → next.WellFormed →
          (∀ probe, next.lookup probe = if key = probe then
            (modification key ((current.lookup key).bind id) op).1 else current.lookup probe) →
          ∃ resolved, (resolve weight next updates).map
              (fun result => (result.1, change.toList ++ result.2)) =
              some (resolved, ((key, op) :: updates).flatMap fun entry =>
                (modification entry.1 ((current.lookup entry.1).bind id) entry.2).2.toList) ∧
            resolved.WellFormed ∧
            ∀ probe, resolved.lookup probe =
              (KeyedList.find Prod.fst ((key, op) :: updates) probe).elim (current.lookup probe)
                fun entry => (modification entry.1 ((current.lookup entry.1).bind id) entry.2).1 := by
        intro next change changeEq nextWellFormed nextLookup
        have others : ∀ other ∈ updates, next.lookup other.1 = current.lookup other.1 := by
          intro other member
          rw [nextLookup, if_neg]
          intro same
          exact fresh (List.mem_map.mpr ⟨other, member, same.symm⟩)
        obtain ⟨resolved, resolvedEq, resolvedWellFormed, resolvedLookup⟩ :=
          induction nextWellFormed distinct
        refine ⟨resolved, ?_, resolvedWellFormed, fun probe => ?_⟩
        · rw [resolvedEq, List.flatMap_cons, changeEq,
            List.flatMap_congr fun other member => by rw [others other member]]
          rfl
        · rw [resolvedLookup, KeyedList.find_cons]
          by_cases same : key = probe
          · -- the rest of the updates leaves the key alone
            subst same
            have absent : KeyedList.find Prod.fst updates key = none :=
              KeyedList.find_eq_none_of_not_mem fresh
            simp [absent, nextLookup]
          · rw [if_neg same]
            cases found : KeyedList.find Prod.fst updates probe with
            | none => simp [nextLookup, same]
            | some other =>
                simp only [Option.elim_some]
                rw [others other (KeyedList.mem_of_find found)]
      rcases resolvedKey : modification key ((current.lookup key).bind id) op with
        ⟨cached, change⟩
      simp only [resolve, removedEq, resolvedKey]
      have changeEq : (modification key ((current.lookup key).bind id) op).2 = change := by
        rw [resolvedKey]
      have cachedEq : (modification key ((current.lookup key).bind id) op).1 = cached := by
        rw [resolvedKey]
      cases cached with
      | some value =>
          obtain ⟨inserted, insertedIs, insertedWellFormed⟩ :=
            LfuCache.insert_eq_some weight removedWellFormed key value
          simp only [insertedIs, Option.bind_some]
          refine rest _ change changeEq insertedWellFormed fun probe => ?_
          rw [LfuCache.lookup_of_insert insertedIs, removedLookup, cachedEq]
          split <;> simp_all
      | none =>
          simp only [Option.bind_some]
          refine rest removed change changeEq removedWellFormed fun probe => ?_
          rw [removedLookup, cachedEq]

end

/-! ## One key -/

theorem modification_entityKey {key : EntityKey} {current : Option Entity} {op : EntityOp}
    {change : EntityModification} (changed : (modification key current op).2 = some change) :
    change.entityKey = key := by
  cases current <;> cases op <;> simp only [modification] at changed <;>
    (try split at changed) <;> cases changed <;> rfl

/-- The arm of `as_modifications` for one key leaves it, up to what the store keeps, with the
meaning of its operation. -/
theorem modification_persisted (key : EntityKey) (op : EntityOp) {current stored : Option Entity}
    (same : current.map Entity.persisted = stored.map Entity.persisted) :
    (EntityModification.after stored (modification key current op).2).map Entity.persisted =
        (op.meaning stored).map Entity.persisted ∧
      ∀ cached, (modification key current op).1 = some cached →
        cached.map Entity.persisted = (op.meaning stored).map Entity.persisted := by
  rw [← op.meaning_persisted same]
  cases current with
  | none =>
      have absent : stored = none := Option.map_eq_none_iff.mp same.symm
      subst absent
      cases op with
      | remove => simp [modification, EntityModification.after]
      | update updates => simp [modification, EntityModification.after, EntityModification.entity]
      | overwrite data => simp [modification, EntityModification.after, EntityModification.entity]
  | some current =>
      cases op with
      | remove => simp [modification, EntityModification.after, EntityModification.entity]
      | update updates =>
          simp only [modification]
          refine ⟨?_, by simp⟩
          split
          · simp [EntityModification.after, EntityModification.entity]
          · rename_i unchanged
            simp only [ne_eq, Decidable.not_not] at unchanged
            simp [EntityModification.after, ← same, ← unchanged]
      | overwrite data =>
          simp only [modification]
          refine ⟨?_, by simp [Entity.persisted_empty_mergeRemoveNullFields]⟩
          split
          · simp [EntityModification.after, EntityModification.entity,
              Entity.persisted_empty_mergeRemoveNullFields]
          · rename_i unchanged
            simp only [ne_eq, Decidable.not_not] at unchanged
            simp [EntityModification.after, ← same, unchanged,
              Entity.persisted_empty_mergeRemoveNullFields]

end EntityCache

/-! ## A store of given entities -/

/-- The store view of deployment `deployment` holding the entities `state`: `get_many` returns,
for each requested type, the requested entities there are. -/
def StoreView.ofState (deployment : String) (state : EntityKey → Option Entity)
    (idValue : EntityKey → Except String Value) (isImmutable : String → Bool)
    (validate : Entity → EntityKey → Except String Unit) : StoreView where
  get key := .ok (state key)
  getMany request := .ok (request.toList.map fun entry =>
    (entry.1, entry.2.filterMap fun entityId => state ⟨deployment, entry.1, entityId⟩))
  idValue := idValue
  isImmutable := isImmutable
  validate := validate

/-- Every state whose entities carry the ids of their keys is read by a store view. -/
theorem StoreView.reads_ofState {deployment : String} {state : EntityKey → Option Entity}
    (keyed : ∀ key entity, state key = some entity → entity.id = .ok key.entityId)
    (idValue : EntityKey → Except String Value) (isImmutable : String → Bool)
    (validate : Entity → EntityKey → Except String Unit) :
    (StoreView.ofState deployment state idValue isImmutable validate).Reads deployment state := by
  refine ⟨keyed, fun _ _ => rfl, fun request => ⟨_, rfl, ?_, ?_⟩⟩
  · intro entityType entities member entity listed
    obtain ⟨⟨_, ids⟩, -, same⟩ := List.mem_map.mp member
    cases same
    obtain ⟨entityId, -, stored⟩ := List.mem_filterMap.mp listed
    exact ⟨entityId, stored⟩
  · intro entityType ids entityId entity requested listed stored
    refine ⟨_, List.mem_map_of_mem
      (Std.ExtTreeMap.mem_toList_iff_getElem?_eq_some.mpr requested), ?_⟩
    exact List.mem_filterMap.mpr ⟨entityId, listed, stored⟩

/-! ## The whole block -/

section

variable {store : StoreView} {deployment : String} {state : EntityKey → Option Entity}
  (reads : store.Reads deployment state) (weight : EntityKey → Option Entity → Nat)

/-- The entity a key is resolved against agrees with the store's when the key is cached or the
store has no entity for it. -/
theorem CacheAgrees.resolvedAgainst {loaded : LfuCache EntityKey (Option Entity)}
    (agrees : CacheAgrees state loaded) {key : EntityKey}
    (covered : (loaded.lookup key).isSome ∨ state key = none) :
    ((loaded.lookup key).bind id).map Entity.persisted = (state key).map Entity.persisted := by
  cases found : loaded.lookup key with
  | some entity => exact agrees.agree key entity found
  | none =>
      rw [found] at covered
      simp only [Option.isSome_none, Bool.false_eq_true, false_or] at covered
      simp [covered]

/-- Eviction keeps the cache agreeing with the store. -/
theorem CacheAgrees.evict {current : LfuCache EntityKey (Option Entity)}
    (agrees : CacheAgrees state current) (maxWeight : Nat) :
    ∃ evicted report, current.evict maxWeight = some (evicted, report) ∧
      CacheAgrees state evicted := by
  obtain ⟨evicted, report, evictedEq, wellFormed, kept⟩ :=
    LfuCache.evictWithPeriod_spec agrees.wellFormed maxWeight LfuCache.stalePeriod
  exact ⟨evicted, report, evictedEq, wellFormed,
    fun key entity found => agrees.agree key entity (kept key entity found)⟩

include reads in
/-- The spec of `as_modifications` on a cache that agrees with the store: no panic, one
modification per key, each the key's operation applied. -/
theorem CacheAgrees.asModifications (entityCacheSize : Nat) {cache : EntityCache}
    (agrees : CacheAgrees state cache.current) (outside : cache.inHandler = false)
    (distinct : KeyedList.Distinct Prod.fst cache.updates)
    (updateKeys : ∀ entry ∈ cache.updates, entry.1.subgraphId = deployment ∧
      store.isImmutable entry.1.entityType = false) :
    ∃ result, cache.asModifications store weight entityCacheSize = some (.ok result) ∧
      (result.modifications.map EntityModification.entityKey).Nodup ∧
      (∀ key, (applyModifications state result.modifications key).map Entity.persisted =
        (WriteLog.applyAt EntityOp.meaning cache.updates key (state key)).map Entity.persisted) ∧
      CacheAgrees (applyModifications state result.modifications) result.entityLfuCache := by
  obtain ⟨loaded, loadedEq, loadedAgrees, covers⟩ :=
    EntityCache.loadMissing_covers reads weight cache agrees updateKeys
  obtain ⟨resolved, resolvedEq, resolvedWellFormed, resolvedLookup⟩ :=
    EntityCache.resolve_spec weight loadedAgrees.wellFormed cache.updates distinct
  let change := fun entry : EntityKey × EntityOp =>
    (EntityCache.modification entry.1 ((loaded.lookup entry.1).bind id) entry.2).2
  have ownKey : ∀ entry modification, change entry = some modification →
      modification.entityKey = entry.1 :=
    fun _ _ changed => EntityCache.modification_entityKey changed
  let written := applyModifications state (cache.updates.flatMap fun entry => (change entry).toList)
  have perKey : ∀ key, (written key).map Entity.persisted =
      (WriteLog.applyAt EntityOp.meaning cache.updates key (state key)).map Entity.persisted := by
    intro key
    simp only [written, applyModifications_flatMap cache.updates distinct change ownKey,
      WriteLog.applyAt]
    cases found : KeyedList.find Prod.fst cache.updates key with
    | none => rfl
    | some entry =>
        obtain rfl := KeyedList.key_of_find found
        exact (EntityCache.modification_persisted entry.1 entry.2
          (loadedAgrees.resolvedAgainst (covers entry (KeyedList.mem_of_find found)))).1
  have resolvedAgrees : CacheAgrees written resolved := by
    refine ⟨resolvedWellFormed, fun key cached found => ?_⟩
    rw [perKey, WriteLog.applyAt]
    rw [resolvedLookup] at found
    cases inUpdates : KeyedList.find Prod.fst cache.updates key with
    | none =>
        rw [inUpdates] at found
        exact loadedAgrees.agree key cached found
    | some entry =>
        rw [inUpdates] at found
        obtain rfl := KeyedList.key_of_find inUpdates
        exact (EntityCache.modification_persisted entry.1 entry.2
          (loadedAgrees.resolvedAgainst (covers entry (KeyedList.mem_of_find inUpdates)))).2
          cached found
  obtain ⟨evicted, report, evictedEq, evictedAgrees⟩ := resolvedAgrees.evict entityCacheSize
  refine ⟨⟨_, evicted⟩, ?_, nodup_flatMap_entityKey cache.updates distinct change ownKey, perKey,
    evictedAgrees⟩
  simp only [EntityCache.asModifications, outside, Bool.false_eq_true, if_false, loadedEq,
    resolvedEq, evictedEq]
  rfl

/-- The keys of the block's update map are keys of the calls: no operation is the identity. -/
theorem Simulates.updateKeys {cache : EntityCache} {calls : List CacheCall}
    (simulates : Simulates cache (Journal.start.run store calls)) (admits : EntityKey → Prop)
    (keys : ∀ call ∈ calls, ∀ key ∈ call.keys, admits key) :
    ∀ entry ∈ cache.updates, admits entry.1 := by
  intro entry member
  obtain ⟨logged, loggedMember, sameKey⟩ := simulates.updates.exists_mem_log EntityOp.moves member
  rw [← sameKey]
  exact Journal.run_keys store _ calls Journal.start keys (by simp [Journal.start]) logged
    (List.mem_append_left _ loggedMember)

include reads in
/-- A block refines its journal: `as_modifications` gives each key the entity its committed
operations give it. -/
theorem asModifications_refines (entityCacheSize : Nat)
    {current : LfuCache EntityKey (Option Entity)} (agrees : CacheAgrees state current)
    {calls : List CacheCall} {final : EntityCache}
    (ran : (EntityCache.withCurrent current).run store weight calls = some final)
    (outside : final.inHandler = false)
    (keys : ∀ call ∈ calls, ∀ key ∈ call.keys,
      key.subgraphId = deployment ∧ store.isImmutable key.entityType = false) :
    ∃ result, final.asModifications store weight entityCacheSize = some (.ok result) ∧
      (result.modifications.map EntityModification.entityKey).Nodup ∧
      (∀ key, (applyModifications state result.modifications key).map Entity.persisted =
        (WriteLog.replay EntityOp.meaning (Journal.start.run store calls).committed key
          (state key)).map Entity.persisted) ∧
      CacheAgrees (applyModifications state result.modifications) result.entityLfuCache := by
  have simulates := (Simulates.withCurrent current).run ran
  have finalAgrees := CacheAgrees.run reads weight agrees
    (fun call member key named => (keys call member key named).1) ran
  obtain ⟨result, computed, nodup, perKey, resultAgrees⟩ :=
    finalAgrees.asModifications reads weight entityCacheSize outside simulates.updates.distinct
      (simulates.updateKeys _ keys)
  exact ⟨result, computed, nodup,
    fun key => (perKey key).trans (by rw [simulates.updates.applyAt_eq]), resultAgrees⟩

include reads in
/-- From a new cache, the state the block's modifications leave in the store replays the committed
operations. -/
theorem asModifications_persisted_eq_replay (entityCacheSize : Nat) {calls : List CacheCall}
    {final : EntityCache} (ran : EntityCache.new.run store weight calls = some final)
    (outside : final.inHandler = false)
    (keys : ∀ call ∈ calls, ∀ key ∈ call.keys,
      key.subgraphId = deployment ∧ store.isImmutable key.entityType = false) :
    ∃ result, final.asModifications store weight entityCacheSize = some (.ok result) ∧
      (result.modifications.map EntityModification.entityKey).Nodup ∧
      (fun key => (applyModifications state result.modifications key).map Entity.persisted) =
        fun key => (WriteLog.replay EntityOp.meaning (Journal.start.run store calls).committed key
          (state key)).map Entity.persisted := by
  have simulates := (Simulates.withCurrent LfuCache.new).run ran
  have finalAgrees := CacheAgrees.run reads weight CacheAgrees.new
    (fun call member key named => (keys call member key named).1) ran
  obtain ⟨result, computed, nodup, perKey, -⟩ :=
    finalAgrees.asModifications reads weight entityCacheSize outside simulates.updates.distinct
      (simulates.updateKeys _ keys)
  refine ⟨result, computed, nodup, funext fun key => ?_⟩
  rw [perKey, simulates.updates.applyAt_eq]

end

/-! ## An entity removed and set again -/

/-- The key of an entity that a block removes and then sets again. -/
def resetKey : EntityKey := ⟨"deployment", "Thing", "1"⟩

/-- The entity the store holds under `resetKey`. -/
def storedThing : Entity := (∅ : Entity).insert "id" (.string "1")

/-- The entity set after the removal: the stored one with a `Null` attribute. -/
def resetThing : Entity := storedThing.insert "note" .null

/-- The store's entities: `storedThing` under `resetKey`. -/
def resetState (key : EntityKey) : Option Entity :=
  if key = resetKey then some storedThing else none

/-- The store holding `resetState`, with a schema that accepts every entity. -/
def resetStore : StoreView :=
  StoreView.ofState "deployment" resetState (fun key => .ok (.string key.entityId))
    (fun _ => false) (fun _ _ => .ok ())

/-- A handler removes the entity and sets it again. -/
def resetCalls : List CacheCall := [.remove resetKey, .set resetKey resetThing]

theorem resetState_keyed :
    ∀ key entity, resetState key = some entity → entity.id = .ok key.entityId := by
  intro key entity stored
  unfold resetState at stored
  split at stored
  · rename_i same
    cases stored
    subst same
    decide
  · cases stored

theorem asModifications_refines_reset :
    ∃ result, (((EntityCache.withCurrent LfuCache.new).run resetStore (fun _ _ => 1)
        resetCalls).getD EntityCache.new).asModifications resetStore (fun _ _ => 1) 100 =
        some (.ok result) ∧
      (result.modifications.map EntityModification.entityKey).Nodup ∧
      (∀ key, (applyModifications resetState result.modifications key).map Entity.persisted =
        (WriteLog.replay EntityOp.meaning (Journal.start.run resetStore resetCalls).committed key
          (resetState key)).map Entity.persisted) ∧
      CacheAgrees (applyModifications resetState result.modifications) result.entityLfuCache :=
  asModifications_refines (StoreView.reads_ofState resetState_keyed _ _ _) (fun _ _ => 1) 100
    CacheAgrees.new rfl rfl (by decide)

theorem asModifications_persisted_eq_replay_reset :
    ∃ result, ((EntityCache.new.run resetStore (fun _ _ => 1) resetCalls).getD
        EntityCache.new).asModifications resetStore (fun _ _ => 1) 100 = some (.ok result) ∧
      (result.modifications.map EntityModification.entityKey).Nodup ∧
      (fun key => (applyModifications resetState result.modifications key).map
          Entity.persisted) =
        fun key => (WriteLog.replay EntityOp.meaning
          (Journal.start.run resetStore resetCalls).committed key (resetState key)).map
            Entity.persisted :=
  asModifications_persisted_eq_replay (StoreView.reads_ofState resetState_keyed _ _ _)
    (fun _ _ => 1) 100 rfl rfl (by decide)

/-- The same block overwrites an entity whose end state is the stored one, and hands on a cache
that keeps the `Null`. -/
theorem asModifications_reset_overwrites_unchanged :
    (((EntityCache.withCurrent LfuCache.new).run resetStore (fun _ _ => 1) resetCalls).bind
        fun final => final.asModifications resetStore (fun _ _ => 1) 100).map
      (Except.map fun result => result.modifications) =
      some (.ok [.overwrite resetKey resetThing]) ∧
    (((EntityCache.withCurrent LfuCache.new).run resetStore (fun _ _ => 1) resetCalls).bind
        fun final => final.asModifications resetStore (fun _ _ => 1) 100).map
      (Except.map fun result => result.entityLfuCache.lookup resetKey) =
      some (.ok (some (some resetThing))) ∧
    WriteLog.replay EntityOp.meaning (Journal.start.run resetStore resetCalls).committed resetKey
      (resetState resetKey) = resetState resetKey :=
  ⟨by decide +kernel, by decide +kernel, by decide +kernel⟩

end GraphNode
