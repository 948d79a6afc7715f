import GraphNode.Store.Value

/-!
# Entity keys and entity operations

`graph/src/components/store/mod.rs`: the key of an entity, the operations a mapping issues
(`EntityOperation`), the accumulated form the entity cache keeps per key (`EntityOp`), and the
modifications it hands to the store (`EntityModification`).

Besides the functions of the source, `EntityOp.meaning` says what an accumulated operation does
to the entity it finds: a set merges its attributes into the entity (or into an empty one),
dropping `Null`s, and a remove deletes it.  Accumulating operations composes their meanings.
-/

namespace GraphNode

/-- `EntityKey`. -/
structure EntityKey where
  subgraphId : String
  entityType : String
  entityId : String
  deriving DecidableEq, Repr

/-- `EntityOperation`: what a mapping asks for. -/
inductive EntityOperation where
  | set (key : EntityKey) (data : Entity)
  | remove (key : EntityKey)

/-- `EntityModification`: a change the store applies. -/
inductive EntityModification where
  | insert (key : EntityKey) (data : Entity)
  | overwrite (key : EntityKey) (data : Entity)
  | remove (key : EntityKey)
  deriving DecidableEq

namespace EntityModification

/-- `EntityModification::entity_key`. -/
def entityKey : EntityModification → EntityKey
  | insert key _ | overwrite key _ | remove key => key

/-- `EntityModification::entity`. -/
def entity : EntityModification → Option Entity
  | insert _ data | overwrite _ data => some data
  | remove _ => none

end EntityModification

/-- `EntityOp`: the operations on one key, accumulated. -/
inductive EntityOp where
  | remove
  | update (entity : Entity)
  | overwrite (entity : Entity)
  deriving DecidableEq

namespace EntityOp

/-- `EntityOp::apply_to`. -/
def applyTo : EntityOp → Option Entity → Option Entity
  | remove, _ => none
  | overwrite new, _ => some new
  | update new, none => some new
  | update updates, some entity => some (entity.mergeRemoveNullFields updates)

/-- `EntityOp::accumulate`: `next` after `self`.  An update after a remove becomes an
overwrite. -/
def accumulate (self next : EntityOp) : EntityOp :=
  match next, self with
  | remove, _ => remove
  | overwrite entity, _ => overwrite entity
  | update changes, remove => overwrite changes
  | update changes, update current => update (current.merge changes)
  | update changes, overwrite current => overwrite (current.merge changes)

/-- What the operation does to the entity it finds, with `Null`s dropped as the store drops
them. -/
def meaning : EntityOp → Option Entity → Option Entity
  | remove, _ => none
  | update updates, entity => some ((entity.getD ∅).mergeRemoveNullFields updates)
  | overwrite entity, _ => some ((∅ : Entity).mergeRemoveNullFields entity)

@[simp] theorem meaning_remove (entity : Option Entity) : remove.meaning entity = none := rfl

@[simp] theorem meaning_update (updates : Entity) (entity : Option Entity) :
    (update updates).meaning entity = some ((entity.getD ∅).mergeRemoveNullFields updates) :=
  rfl

@[simp] theorem meaning_overwrite (data : Entity) (entity : Option Entity) :
    (overwrite data).meaning entity = some ((∅ : Entity).mergeRemoveNullFields data) := rfl

end EntityOp

namespace Entity

/-- Merging two updates and then applying them is applying one after the other. -/
theorem mergeRemoveNullFields_merge (entity first second : Entity) :
    entity.mergeRemoveNullFields (first.merge second) =
      (entity.mergeRemoveNullFields first).mergeRemoveNullFields second := by
  apply Std.ExtTreeMap.ext_getElem?
  intro key
  simp only [getElem?_mergeRemoveNullFields, getElem?_merge]
  rcases second[key]? with _ | ⟨_ | _ | _ | _ | _ | _ | _ | _⟩ <;> simp

end Entity

namespace EntityOp

/-- Accumulating composes meanings: the meaning of `self.accumulate next` is that of `next`
after that of `self`. -/
theorem meaning_accumulate (self next : EntityOp) (entity : Option Entity) :
    (self.accumulate next).meaning entity = next.meaning (self.meaning entity) := by
  cases next with
  | remove => rfl
  | overwrite data => rfl
  | update updates =>
      cases self with
      | remove => rfl
      | update current =>
          simp [accumulate, Entity.mergeRemoveNullFields_merge]
      | overwrite current =>
          simp [accumulate, Entity.mergeRemoveNullFields_merge]

/-- Operations act alike on entities the store keeps alike. -/
theorem meaning_persisted (op : EntityOp) {current stored : Option Entity}
    (same : current.map Entity.persisted = stored.map Entity.persisted) :
    (op.meaning current).map Entity.persisted = (op.meaning stored).map Entity.persisted := by
  cases op with
  | remove => rfl
  | overwrite data => rfl
  | update updates =>
      cases current <;> cases stored <;> simp only [Option.map_some, Option.map_none,
        reduceCtorEq, Option.some.injEq] at same
      · rfl
      · simp only [meaning_update, Option.getD_some, Option.map_some]
        rw [Entity.persisted_mergeRemoveNullFields, same,
          ← Entity.persisted_mergeRemoveNullFields]

/-- No operation leaves every entity alone. -/
theorem moves (op : EntityOp) : ∃ entity, op.meaning entity ≠ entity := by
  cases op with
  | remove => exact ⟨some ∅, by simp⟩
  | update updates => exact ⟨none, by simp⟩
  | overwrite data => exact ⟨none, by simp⟩

end EntityOp

theorem Entity.merge_assoc (first second third : Entity) :
    (first.merge second).merge third = first.merge (second.merge third) := by
  apply Std.ExtTreeMap.ext_getElem?
  intro key
  simp only [getElem?_merge, Option.or_assoc]

/-- Accumulation is associative, over every combination of the three kinds of operation: a
handler's accumulated operations can be accumulated into a block's as one. -/
theorem EntityOp.accumulate_assoc (first second third : EntityOp) :
    (first.accumulate second).accumulate third =
      first.accumulate (second.accumulate third) := by
  cases third with
  | remove | overwrite _ => rfl
  | update changes =>
      cases second with
      | remove | overwrite _ => rfl
      | update middle =>
          cases first <;> simp [accumulate, Entity.merge_assoc]

end GraphNode
