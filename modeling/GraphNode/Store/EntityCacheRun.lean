import GraphNode.Store.EntityCache

/-!
# Runs of the entity cache

The calls block processing makes on an `EntityCache` while the handlers of a block run: the host
exports `store.get`, `store.set` and `store.remove` (`runtime/wasm/src/host_exports.rs`), `append`,
and the brackets `enter_handler` and `exit_handler`, or `exit_handler_and_discard_changes` when
the handler fails (`runtime/wasm/src/module/mod.rs`).

What the calls mean is a `Journal`: the log of the operations the handlers issued, split into
the part that is committed and that of the running handler.  The cache simulates the journal:
each of its two update maps is the coalesced form of one part (`WriteLog.Coalesces`), and the
entities it has looked up agree with the store's, up to what the store keeps.
-/

namespace GraphNode

/-- A call that block processing makes on the entity cache. -/
inductive CacheCall where
  | get (key : EntityKey)
  | set (key : EntityKey) (entity : Entity)
  | remove (key : EntityKey)
  | append (operations : List EntityOperation)
  | enterHandler
  | exitHandler
  | exitHandlerAndDiscardChanges

/-- The key and the operation that `append` records for an `EntityOperation`. -/
def EntityOperation.entry : EntityOperation → EntityKey × EntityOp
  | .set key data => (key, .update data)
  | .remove key => (key, .remove)

namespace CacheCall

/-- The keys a call names. -/
def keys : CacheCall → List EntityKey
  | get key | set key _ | remove key => [key]
  | append operations => operations.map fun operation => operation.entry.1
  | enterHandler | exitHandler | exitHandlerAndDiscardChanges => []

/-- The operations a call issues: a `set` issues its entity, once its id is checked, as an
update, and nothing when the id is rejected. -/
def issued (store : StoreView) : CacheCall → List (EntityKey × EntityOp)
  | set key entity =>
      match EntityCache.checkedEntity store key entity with
      | .ok entity => [(key, .update entity)]
      | .error _ => []
  | remove key => [(key, .remove)]
  | append operations => operations.map EntityOperation.entry
  | get _ | enterHandler | exitHandler | exitHandlerAndDiscardChanges => []

theorem issued_keys (store : StoreView) (call : CacheCall) :
    ∀ entry ∈ call.issued store, entry.1 ∈ call.keys := by
  intro entry member
  cases call with
  | set key entity =>
      simp only [issued] at member
      split at member <;> simp_all [keys]
  | append operations =>
      obtain ⟨operation, operationMember, rfl⟩ := List.mem_map.mp member
      exact List.mem_map_of_mem operationMember
  | remove key => simp_all [issued, keys]
  | get _ | enterHandler | exitHandler | exitHandlerAndDiscardChanges => simp [issued] at member

end CacheCall

namespace EntityCache

section

variable (store : StoreView) (weight : EntityKey → Option Entity → Nat)

/-- One call; `none` is a panic.  A failed `get` or `set` returns its error to the handler and
leaves the cache as far as the call got. -/
def step (cache : EntityCache) : CacheCall → Option EntityCache
  | .get key => (cache.get store weight key).map Prod.fst
  | .set key entity => (cache.set store weight key entity).map Prod.fst
  | .remove key => some (cache.remove key)
  | .append operations => cache.append operations
  | .enterHandler => cache.enterHandler
  | .exitHandler => cache.exitHandler
  | .exitHandlerAndDiscardChanges => cache.exitHandlerAndDiscardChanges

/-- A sequence of calls; `none` when one of them panics. -/
def run (cache : EntityCache) : List CacheCall → Option EntityCache
  | [] => some cache
  | call :: calls => (cache.step store weight call).bind fun cache => run cache calls

@[simp]
theorem run_nil (cache : EntityCache) : cache.run store weight [] = some cache := rfl

@[simp]
theorem run_cons (cache : EntityCache) (call : CacheCall) (calls : List CacheCall) :
    cache.run store weight (call :: calls) =
      (cache.step store weight call).bind fun cache => cache.run store weight calls := rfl

end

end EntityCache

/-- The operations issued so far: those committed by finished handlers and by `append`, and
those of the running handler. -/
structure Journal where
  committed : List (EntityKey × EntityOp)
  pending : List (EntityKey × EntityOp)
  inHandler : Bool

namespace Journal

/-- Nothing issued yet, outside any handler. -/
def start : Journal := ⟨[], [], false⟩

/-- Operations issued go to the running handler, or are committed outside one. -/
def issue (journal : Journal) (entries : List (EntityKey × EntityOp)) : Journal :=
  if journal.inHandler then { journal with pending := journal.pending ++ entries }
  else { journal with committed := journal.committed ++ entries }

/-- What a call does to the journal: a finished handler commits its operations, a failed one
drops them. -/
def step (store : StoreView) (journal : Journal) : CacheCall → Journal
  | .enterHandler => { journal with inHandler := true }
  | .exitHandler => ⟨journal.committed ++ journal.pending, [], false⟩
  | .exitHandlerAndDiscardChanges => ⟨journal.committed, [], false⟩
  | call => journal.issue (call.issued store)

/-- The journal after a sequence of calls. -/
def run (store : StoreView) (journal : Journal) (calls : List CacheCall) : Journal :=
  calls.foldl (step store) journal

@[simp]
theorem inHandler_issue (journal : Journal) (entries : List (EntityKey × EntityOp)) :
    (journal.issue entries).inHandler = journal.inHandler := by
  unfold issue
  split <;> rfl

@[simp]
theorem issue_nil (journal : Journal) : journal.issue [] = journal := by
  unfold issue
  split <;> simp

theorem issue_append (journal : Journal) (front back : List (EntityKey × EntityOp)) :
    (journal.issue front).issue back = journal.issue (front ++ back) := by
  unfold issue
  cases journal.inHandler <;> simp

theorem mem_issue {journal : Journal} {entries : List (EntityKey × EntityOp)}
    {entry : EntityKey × EntityOp} :
    entry ∈ (journal.issue entries).committed ++ (journal.issue entries).pending ↔
      entry ∈ journal.committed ++ journal.pending ∨ entry ∈ entries := by
  unfold issue
  split <;> simp [or_comm, or_left_comm]

/-- A step keeps the entries of the journal, or drops them, and adds those the call issues. -/
theorem mem_step {store : StoreView} {journal : Journal} {call : CacheCall}
    {entry : EntityKey × EntityOp}
    (member : entry ∈ (journal.step store call).committed ++ (journal.step store call).pending) :
    entry ∈ journal.committed ++ journal.pending ∨ entry ∈ call.issued store := by
  cases call with
  | enterHandler => exact Or.inl member
  | exitHandler => exact Or.inl (by simpa [step] using member)
  | exitHandlerAndDiscardChanges => simp_all [step]
  | get | set | remove | append => exact mem_issue.mp member

/-- The keys of the journal are keys of the calls: a property of the keys of the calls holds of
every key in the journal, by induction on the calls. -/
theorem run_keys (store : StoreView) (P : EntityKey → Prop) :
    ∀ (calls : List CacheCall) (journal : Journal),
      (∀ call ∈ calls, ∀ key ∈ call.keys, P key) →
      (∀ entry ∈ journal.committed ++ journal.pending, P entry.1) →
      ∀ entry ∈ (journal.run store calls).committed ++ (journal.run store calls).pending,
        P entry.1
  | [], _, _, start => start
  | call :: calls, journal, keys, start => by
      refine run_keys store P calls (journal.step store call)
        (fun call member => keys call (List.mem_cons_of_mem _ member)) ?_
      intro entry member
      rcases mem_step member with old | issued
      · exact start entry old
      · exact keys call List.mem_cons_self _ (call.issued_keys store entry issued)

end Journal

/-- The cache's two update maps are the coalesced forms of the journal's two logs. -/
structure Simulates (cache : EntityCache) (journal : Journal) : Prop where
  updates : WriteLog.Coalesces EntityOp.meaning cache.updates journal.committed
  handlerUpdates : WriteLog.Coalesces EntityOp.meaning cache.handlerUpdates journal.pending
  inHandler : cache.inHandler = journal.inHandler

namespace Simulates

variable {cache : EntityCache} {journal : Journal}

theorem withCurrent (current : LfuCache EntityKey (Option Entity)) :
    Simulates (EntityCache.withCurrent current) Journal.start :=
  ⟨WriteLog.coalesces_nil _, WriteLog.coalesces_nil _, rfl⟩

theorem entityOp (simulates : Simulates cache journal) (key : EntityKey) (op : EntityOp) :
    Simulates (cache.entityOp key op) (journal.issue [(key, op)]) := by
  unfold EntityCache.entityOp Journal.issue
  rw [← simulates.inHandler]
  cases inHandler : cache.inHandler with
  | false =>
      simp only [Bool.false_eq_true, if_false]
      exact ⟨simulates.updates.record EntityOp.meaning_accumulate key op,
        simulates.handlerUpdates, rfl⟩
  | true =>
      simp only [if_true]
      exact ⟨simulates.updates,
        simulates.handlerUpdates.record EntityOp.meaning_accumulate key op, rfl⟩

/-- Issuing operations one by one, by induction on them. -/
theorem foldl_entityOp (simulates : Simulates cache journal)
    (entries : List (EntityKey × EntityOp)) :
    Simulates (entries.foldl (fun cache entry => cache.entityOp entry.1 entry.2) cache)
      (journal.issue entries) := by
  induction entries generalizing cache journal with
  | nil => simpa using simulates
  | cons entry entries induction =>
      have next := induction (simulates.entityOp entry.1 entry.2)
      rwa [Journal.issue_append] at next

/-- The log part of the cache does not depend on the cached entities. -/
theorem withCurrentOf (simulates : Simulates cache journal)
    (current : LfuCache EntityKey (Option Entity)) :
    Simulates { cache with current := current } journal :=
  ⟨simulates.updates, simulates.handlerUpdates, simulates.inHandler⟩

end Simulates

namespace EntityCache

variable (store : StoreView) (weight : EntityKey → Option Entity → Nat)

@[simp]
theorem current_entityOp (cache : EntityCache) (key : EntityKey) (op : EntityOp) :
    (cache.entityOp key op).current = cache.current := by
  unfold entityOp
  split <;> rfl

/-- A `get` that does not panic keeps the log and caches what the lookup caches. -/
theorem get_fst {cache cache' : EntityCache} {key : EntityKey}
    {read : Except String (Option Entity)} (got : cache.get store weight key = some (cache', read)) :
    ∃ looked, getEntity store weight cache.current key = some looked ∧
      cache' = { cache with current := looked.1 } := by
  obtain ⟨⟨current, _⟩, lookedUp, same⟩ := Option.map_eq_some_iff.mp got
  simp only [Prod.mk.injEq] at same
  exact ⟨_, lookedUp, same.1.symm⟩

theorem getEntity_of_hit {current touched : LfuCache EntityKey (Option Entity)} {key : EntityKey}
    {data : Option Entity} (got : current.get key = (touched, some data)) :
    getEntity store weight current key = some (touched, .ok data) := by
  simp only [getEntity, got]

theorem getEntity_of_miss_error {current touched : LfuCache EntityKey (Option Entity)}
    {key : EntityKey} (got : current.get key = (touched, none)) {message : String}
    (answered : store.get key = .error message) :
    getEntity store weight current key = some (touched, .error message) := by
  simp only [getEntity, got, answered]

theorem getEntity_of_miss_ok {current touched : LfuCache EntityKey (Option Entity)}
    {key : EntityKey} (got : current.get key = (touched, none)) {stored : Option Entity}
    (answered : store.get key = .ok stored) :
    getEntity store weight current key =
      (touched.insert weight key (stored.map fun entity => entity.erase "__typename")).map
        fun current => (current, .ok (stored.map fun entity => entity.erase "__typename")) := by
  simp only [getEntity, got, answered]

/-- What a lookup that does not panic leaves cached: what was cached before, and on a miss the
store's answer without `__typename`. -/
theorem lookup_getEntity {current : LfuCache EntityKey (Option Entity)} {key : EntityKey}
    {looked : LfuCache EntityKey (Option Entity) × Except String (Option Entity)}
    (lookedUp : getEntity store weight current key = some looked) {probe : EntityKey}
    {entity : Option Entity} (cached : looked.1.lookup probe = some entity) :
    current.lookup probe = some entity ∨
      probe = key ∧ ∃ stored, store.get key = .ok stored ∧
        entity = stored.map fun stored => stored.erase "__typename" := by
  rcases got : current.get key with ⟨touched, _ | _⟩ <;>
    have kept : touched.lookup probe = current.lookup probe := by
      rw [← LfuCache.get_lookup current key probe, got]
  · cases answered : store.get key with
    | error message =>
        rw [getEntity_of_miss_error store weight got answered] at lookedUp
        cases lookedUp
        exact .inl (by rw [← kept]; exact cached)
    | ok stored =>
        rw [getEntity_of_miss_ok store weight got answered] at lookedUp
        obtain ⟨inserted, insertedIs, rfl⟩ := Option.map_eq_some_iff.mp lookedUp
        rw [LfuCache.lookup_of_insert insertedIs] at cached
        split at cached
        · rename_i same
          exact .inr ⟨same.symm, stored, rfl, (Option.some.inj cached).symm⟩
        · exact .inl (by rw [← kept]; exact cached)
  · rw [getEntity_of_hit store weight got] at lookedUp
    cases lookedUp
    exact .inl (by rw [← kept]; exact cached)

/-- A lookup that does not panic keeps the cache well formed. -/
theorem getEntity_wellFormed {current : LfuCache EntityKey (Option Entity)}
    (wellFormed : current.WellFormed) {key : EntityKey}
    {looked : LfuCache EntityKey (Option Entity) × Except String (Option Entity)}
    (lookedUp : getEntity store weight current key = some looked) : looked.1.WellFormed := by
  have touched := LfuCache.get_wellFormed wellFormed key
  rcases got : current.get key with ⟨_, _ | _⟩ <;> rw [got] at touched
  · cases answered : store.get key with
    | error message =>
        rw [getEntity_of_miss_error store weight got answered] at lookedUp
        cases lookedUp
        exact touched
    | ok stored =>
        rw [getEntity_of_miss_ok store weight got answered] at lookedUp
        obtain ⟨_, insertedIs, rfl⟩ := Option.map_eq_some_iff.mp lookedUp
        exact LfuCache.insert_wellFormed touched insertedIs
  · rw [getEntity_of_hit store weight got] at lookedUp
    cases lookedUp
    exact touched

/-- What a lookup that does not panic returns: the cached entity, or the store's answer without
`__typename`. -/
theorem getEntity_snd_eq {current : LfuCache EntityKey (Option Entity)} {key : EntityKey}
    {looked : LfuCache EntityKey (Option Entity) × Except String (Option Entity)}
    (lookedUp : getEntity store weight current key = some looked) :
    looked.2 = match current.lookup key with
      | some data => .ok data
      | none => (store.get key).map fun entity => entity.map fun entity =>
          entity.erase "__typename" := by
  rw [← LfuCache.get_value]
  rcases got : current.get key with ⟨_, _ | _⟩
  · cases answered : store.get key with
    | error message =>
        rw [getEntity_of_miss_error store weight got answered] at lookedUp
        cases lookedUp
        rfl
    | ok stored =>
        rw [getEntity_of_miss_ok store weight got answered] at lookedUp
        obtain ⟨_, _, rfl⟩ := Option.map_eq_some_iff.mp lookedUp
        rfl
  · rw [getEntity_of_hit store weight got] at lookedUp
    cases lookedUp
    rfl

/-- A lookup never panics: it inserts only a key it did not find. -/
theorem getEntity_eq_some (current : LfuCache EntityKey (Option Entity)) (key : EntityKey) :
    ∃ looked, getEntity store weight current key = some looked := by
  rcases got : current.get key with ⟨touched, _ | _⟩
  · have absent := (LfuCache.get_lookup current key key).trans (LfuCache.get_value current key).symm
    simp only [got] at absent
    cases answered : store.get key with
    | error message => exact ⟨_, getEntity_of_miss_error store weight got answered⟩
    | ok stored =>
        obtain ⟨_, insertedIs⟩ := LfuCache.insert_of_lookup_eq_none weight absent _
        exact ⟨_, by rw [getEntity_of_miss_ok store weight got answered, insertedIs]; rfl⟩
  · exact ⟨_, getEntity_of_hit store weight got⟩

/-- A `set` whose id is accepted records the update, and may look the key up. -/
theorem setChecked_fst {cache : EntityCache} {key : EntityKey} {entity : Entity}
    {result : EntityCache × Except String Unit}
    (set : cache.setChecked store weight key entity = some result) :
    result.1 = cache.entityOp key (.update entity) ∨
      ∃ looked, getEntity store weight cache.current key = some looked ∧
        result.1 = { cache.entityOp key (.update entity) with current := looked.1 } := by
  dsimp only [setChecked] at set
  split at set
  · cases set
    exact .inl rfl
  · obtain ⟨⟨read, value⟩, got, rfl⟩ := Option.map_eq_some_iff.mp set
    obtain ⟨looked, lookedUp, readIs⟩ := get_fst store weight got
    rw [current_entityOp] at lookedUp
    refine .inr ⟨looked, lookedUp, ?_⟩
    rcases value with _ | _ | _ <;> exact readIs

/-- A `set` never panics. -/
theorem setChecked_eq_some (cache : EntityCache) (key : EntityKey) (entity : Entity) :
    ∃ current : LfuCache EntityKey (Option Entity),
      (cache.setChecked store weight key entity).map Prod.fst =
        some { cache.entityOp key (.update entity) with current } := by
  have returns : (cache.setChecked store weight key entity).isSome := by
    dsimp only [setChecked]
    split
    · rfl
    · obtain ⟨looked, lookedUp⟩ := getEntity_eq_some store weight cache.current key
      simp [get, lookedUp]
  obtain ⟨result, set⟩ := Option.isSome_iff_exists.mp returns
  rw [set, Option.map_some]
  rcases setChecked_fst store weight set with same | ⟨looked, -, same⟩
  · exact ⟨_, by rw [same]⟩
  · exact ⟨looked.1, by rw [same]⟩

theorem append_eq (cache : EntityCache) (operations : List EntityOperation) :
    cache.append operations =
      if cache.inHandler then none
      else some ((operations.map EntityOperation.entry).foldl
        (fun cache entry => cache.entityOp entry.1 entry.2) cache) := by
  unfold append
  split
  · rfl
  · rw [List.foldl_map]
    congr 2
    funext cache operation
    cases operation <;> rfl

theorem current_foldl_entityOp (cache : EntityCache) (entries : List (EntityKey × EntityOp)) :
    (entries.foldl (fun cache entry => cache.entityOp entry.1 entry.2) cache).current =
      cache.current := by
  induction entries generalizing cache with
  | nil => rfl
  | cons entry entries induction => simp [induction]

/-- Only a lookup changes the cached entities: after a call they are as before, or as after a
lookup of one of the call's keys. -/
theorem current_step (cache : EntityCache) {call : CacheCall} {cache' : EntityCache}
    (stepped : cache.step store weight call = some cache') :
    cache'.current = cache.current ∨
      ∃ key ∈ call.keys, ∃ looked, getEntity store weight cache.current key = some looked ∧
        cache'.current = looked.1 := by
  cases call with
  | get key =>
      obtain ⟨⟨_, _⟩, got, rfl⟩ := Option.map_eq_some_iff.mp stepped
      obtain ⟨looked, lookedUp, rfl⟩ := get_fst store weight got
      exact .inr ⟨key, List.mem_cons_self, looked, lookedUp, rfl⟩
  | set key entity =>
      obtain ⟨_, set, rfl⟩ := Option.map_eq_some_iff.mp stepped
      simp only [EntityCache.set] at set
      split at set
      · cases set
        exact .inl rfl
      · rcases setChecked_fst store weight set with same | ⟨looked, lookedUp, same⟩ <;>
          rw [same]
        · exact .inl (current_entityOp cache key _)
        · exact .inr ⟨key, List.mem_cons_self, looked, lookedUp, rfl⟩
  | remove key =>
      cases stepped
      exact .inl (current_entityOp cache key _)
  | append operations =>
      simp only [EntityCache.step, append_eq] at stepped
      split at stepped
      · cases stepped
      · cases stepped
        exact .inl (current_foldl_entityOp cache _)
  | enterHandler =>
      simp only [EntityCache.step, EntityCache.enterHandler] at stepped
      split at stepped
      · cases stepped
      · cases stepped
        exact .inl rfl
  | exitHandler =>
      simp only [EntityCache.step, EntityCache.exitHandler] at stepped
      split at stepped
      · cases stepped
        exact .inl (current_foldl_entityOp _ _)
      · cases stepped
  | exitHandlerAndDiscardChanges =>
      simp only [EntityCache.step, EntityCache.exitHandlerAndDiscardChanges] at stepped
      split at stepped
      · cases stepped
        exact .inl rfl
      · cases stepped

/-- The run lemma for the cached entities: a property of them that every lookup of a key the
calls admit keeps holds after the calls, by induction on them. -/
theorem current_run {keeps : LfuCache EntityKey (Option Entity) → Prop}
    (admits : EntityKey → Prop)
    (lookup : ∀ {current key looked}, keeps current → admits key →
      getEntity store weight current key = some looked → keeps looked.1) :
    ∀ {cache : EntityCache} {calls : List CacheCall} {final : EntityCache},
      keeps cache.current → (∀ call ∈ calls, ∀ key ∈ call.keys, admits key) →
      cache.run store weight calls = some final → keeps final.current
  | _, [], _, kept, _, ran => by
      cases ran
      exact kept
  | cache, call :: calls, _, kept, admitted, ran => by
      rw [run_cons, Option.bind_eq_some_iff] at ran
      obtain ⟨next, stepped, ran⟩ := ran
      refine current_run admits lookup ?_
        (fun call member => admitted call (List.mem_cons_of_mem _ member)) ran
      rcases current_step store weight cache stepped with same | ⟨key, member, _, lookedUp, same⟩ <;>
        rw [same]
      · exact kept
      · exact lookup kept (admitted call List.mem_cons_self key member) lookedUp

end EntityCache

namespace Simulates

variable {store : StoreView} {weight : EntityKey → Option Entity → Nat}
  {cache cache' : EntityCache} {journal : Journal}

/-- The step lemma: each call that does not panic keeps the simulation, one case per call. -/
theorem step (simulates : Simulates cache journal) {call : CacheCall}
    (stepped : cache.step store weight call = some cache') :
    Simulates cache' (journal.step store call) := by
  cases call with
  | get key =>
      obtain ⟨⟨_, _⟩, got, rfl⟩ := Option.map_eq_some_iff.mp stepped
      obtain ⟨_, -, rfl⟩ := EntityCache.get_fst store weight got
      simp only [Journal.step, CacheCall.issued, Journal.issue_nil]
      exact simulates.withCurrentOf _
  | set key entity =>
      obtain ⟨_, set, rfl⟩ := Option.map_eq_some_iff.mp stepped
      simp only [EntityCache.set] at set
      simp only [Journal.step, CacheCall.issued]
      cases checked : EntityCache.checkedEntity store key entity with
      | error message =>
          rw [checked] at set
          cases set
          simpa using simulates
      | ok entity =>
          rw [checked] at set
          rcases EntityCache.setChecked_fst store weight set with same | ⟨_, -, same⟩ <;>
            rw [same]
          · exact simulates.entityOp key _
          · exact (simulates.entityOp key _).withCurrentOf _
  | remove key =>
      cases stepped
      exact simulates.entityOp key .remove
  | append operations =>
      simp only [EntityCache.step, EntityCache.append_eq] at stepped
      split at stepped
      · cases stepped
      · cases stepped
        exact simulates.foldl_entityOp _
  | enterHandler =>
      simp only [EntityCache.step, EntityCache.enterHandler] at stepped
      split at stepped
      · cases stepped
      · cases stepped
        exact ⟨simulates.updates, simulates.handlerUpdates, rfl⟩
  | exitHandler =>
      simp only [EntityCache.step, EntityCache.exitHandler] at stepped
      split at stepped
      · cases stepped
        have outside : Simulates { cache with inHandler := false, handlerUpdates := [] }
            ⟨journal.committed, [], false⟩ :=
          ⟨simulates.updates, WriteLog.coalesces_nil _, rfl⟩
        have folded := outside.foldl_entityOp cache.handlerUpdates
        simp only [Journal.issue, Bool.false_eq_true, if_false] at folded
        exact ⟨folded.updates.congr fun _ _ => simulates.handlerUpdates.replay_append_log,
          folded.handlerUpdates, folded.inHandler⟩
      · cases stepped
  | exitHandlerAndDiscardChanges =>
      simp only [EntityCache.step, EntityCache.exitHandlerAndDiscardChanges] at stepped
      split at stepped
      · cases stepped
        exact ⟨simulates.updates, WriteLog.coalesces_nil _, rfl⟩
      · cases stepped

/-- The run lemma: a run that does not panic keeps the simulation, by induction on the calls. -/
theorem run (simulates : Simulates cache journal) {calls : List CacheCall} {final : EntityCache}
    (ran : cache.run store weight calls = some final) :
    Simulates final (journal.run store calls) := by
  induction calls generalizing cache journal with
  | nil =>
      cases ran
      exact simulates
  | cons call calls induction =>
      rw [EntityCache.run_cons, Option.bind_eq_some_iff] at ran
      obtain ⟨next, stepped, ran⟩ := ran
      exact induction (simulates.step stepped) ran

end Simulates

/-! ## The cached entities -/

/-- The store view reads the entity state `state` of deployment `deployment`: each entity has
the id of its key, `get` returns the entity of a key of the deployment, and `get_many` returns,
by type, entities of the deployment, among them every requested one that exists.  The schema
is left open. -/
structure StoreView.Reads (store : StoreView) (deployment : String)
    (state : EntityKey → Option Entity) : Prop where
  keyed : ∀ key entity, state key = some entity → entity.id = .ok key.entityId
  get : ∀ key, key.subgraphId = deployment → store.get key = .ok (state key)
  getMany : ∀ request : EntityCache.IdsByType, ∃ found, store.getMany request = .ok found ∧
    (∀ entityType entities, (entityType, entities) ∈ found → ∀ entity ∈ entities,
      ∃ entityId, state ⟨deployment, entityType, entityId⟩ = some entity) ∧
    (∀ entityType ids entityId entity, request[entityType]? = some ids → entityId ∈ ids →
      state ⟨deployment, entityType, entityId⟩ = some entity →
        ∃ entities, (entityType, entities) ∈ found ∧ entity ∈ entities)

/-- The cached entities agree with the store's entities, up to what the store keeps. -/
structure CacheAgrees (state : EntityKey → Option Entity)
    (current : LfuCache EntityKey (Option Entity)) : Prop where
  wellFormed : current.WellFormed
  agree : ∀ key entity, current.lookup key = some entity →
    entity.map Entity.persisted = (state key).map Entity.persisted

theorem Entity.persisted_erase_typename (entity : Entity) :
    Entity.persisted (entity.erase "__typename") = entity.persisted := by
  apply Std.ExtTreeMap.ext_getElem?
  intro key
  by_cases typename : key = "__typename"
  · simp [typename]
  · simp [typename, Std.ExtTreeMap.getElem?_erase, Ne.symm typename]

namespace CacheAgrees

variable {store : StoreView} {deployment : String} {state : EntityKey → Option Entity}
  (reads : store.Reads deployment state) (weight : EntityKey → Option Entity → Nat)
  {current : LfuCache EntityKey (Option Entity)} {cache : EntityCache}

theorem new : CacheAgrees state (LfuCache.new : LfuCache EntityKey (Option Entity)) :=
  ⟨LfuCache.wellFormed_new, by simp⟩

include reads in
/-- A cached lookup caches what the store returns, without `__typename`. -/
theorem getEntity (agrees : CacheAgrees state current) {key : EntityKey}
    (inDeployment : key.subgraphId = deployment)
    {looked : LfuCache EntityKey (Option Entity) × Except String (Option Entity)}
    (lookedUp : EntityCache.getEntity store weight current key = some looked) :
    CacheAgrees state looked.1 := by
  refine ⟨EntityCache.getEntity_wellFormed store weight agrees.wellFormed lookedUp, ?_⟩
  intro probe entity cached
  rcases EntityCache.lookup_getEntity store weight lookedUp cached with
    kept | ⟨rfl, stored, answered, rfl⟩
  · exact agrees.agree probe entity kept
  · rw [reads.get probe inDeployment] at answered
    cases answered
    cases state probe <;> simp [Entity.persisted_erase_typename]

include reads in
/-- The run lemma for the cached entities. -/
theorem run {cache final : EntityCache} {calls : List CacheCall}
    (agrees : CacheAgrees state cache.current)
    (inDeployment : ∀ call ∈ calls, ∀ key ∈ call.keys, key.subgraphId = deployment)
    (ran : cache.run store weight calls = some final) : CacheAgrees state final.current :=
  EntityCache.current_run store weight (fun key => key.subgraphId = deployment)
    (fun agrees inDeployment lookedUp => agrees.getEntity reads weight inDeployment lookedUp)
    agrees inDeployment ran

end CacheAgrees

end GraphNode
