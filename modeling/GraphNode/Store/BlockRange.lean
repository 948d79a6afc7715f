import GraphNode.Library.Period
import GraphNode.Library.KeyedList
import GraphNode.Library.MapFold
import GraphNode.Store.Operations

/-!
# Block ranges

How the relational store keeps the history of a mutable entity table: each version of an entity
is a row whose `block_range` column is the range of blocks at which the version holds
(`store/postgres/src/block_range.rs`).  Inserting starts a range `[block, ∞)`; updating or
deleting ends the current range at the block (`ClampRangeQuery`); reverting to a block deletes
the versions that start at or after it (`RevertRemoveQuery`) and lets the versions that hold
just before it hold on again (`RevertClampQuery`).  A query at a block reads the versions whose
range contains it (`FindQuery`).

The model follows `relational_queries.rs` and `Layout` in `relational.rs`, and
`DeploymentStore::apply_entity_modifications` in `deployment_store.rs`, which checks before each
insert and overwrite that no type sharing an interface with the key's type has a row of its id,
in any block range (`check_interface_entity_uniqueness`).  A table's rows are a
list, a block number is an integer, and Postgres' `int4range` is a `Period` of integers.  The
table's constraint `exclude using gist (id with =, block_range with &&)` makes a statement fail
when two rows of one id would overlap; an immutable table stores its `block$` column `b` as the
range `[b, ∞)`, so that its constraint `unique(id)` is the same check.
-/

namespace GraphNode

/-- `BLOCK_NUMBER_MAX`, `i32::MAX`: the ranges of current versions contain it.  A block number,
an `i32` in the source, is an integer here. -/
def blockNumberMax : Int := 2147483647

/-- The `StoreError` variants these functions return. -/
inductive StoreError where
  | unknownTable (entityType : String)
  | constraintViolation (message : String)
  | unknown (message : String)
  | duplicateBlockProcessing (deployment : String) (block : Int)
  | conflictingId (entity id conflictingEntity : String)
  deriving DecidableEq, Repr

/-- A row of an entity table: the entity's id, the stored version and its block range. -/
structure Row (α : Type) where
  id : String
  data : α
  blockRange : Period Int
  deriving DecidableEq, Repr

/-- `Table`: the entity type it stores and its rows. -/
structure Table (α : Type) where
  object : String
  qualifiedName : String
  immutable : Bool
  isAccountLike : Bool
  rows : List (Row α)
  deriving Repr

/-- `BlockRangeColumn`: the block range column of a table, at a block. -/
inductive BlockRangeColumn where
  | mutable (isAccountLike : Bool) (block : Int)
  | immutable (block : Int)

namespace BlockRangeColumn

variable {α : Type}

/-- `BlockRangeColumn::new`. -/
def new (table : Table α) (block : Int) : BlockRangeColumn :=
  if table.immutable then immutable block else mutable table.isAccountLike block

/-- `BlockRangeColumn::contains`: the rows whose range contains the block.  For an account-like
table the source states the bounds a second time, for the index. -/
def contains : BlockRangeColumn → Row α → Bool
  | mutable isAccountLike block, row =>
      row.blockRange.contains block &&
        if isAccountLike && decide (block < blockNumberMax) then
          decide (block < row.blockRange.upper.getD blockNumberMax) &&
            decide (row.blockRange.lower ≤ block)
        else true
  | immutable block, row =>
      if block = blockNumberMax then true else decide (row.blockRange.lower ≤ block)

/-- `BlockRangeColumn::latest`: the rows of current versions. -/
def latest : BlockRangeColumn → Row α → Bool
  | mutable _ _, row => row.blockRange.contains blockNumberMax
  | immutable _, _ => true

/-- `BlockRangeColumn::changed_since`: the rows whose version starts at or after the block. -/
def changedSince : BlockRangeColumn → Row α → Bool
  | mutable _ block, row => decide (block ≤ row.blockRange.lower)
  | immutable block, row => decide (block ≤ row.blockRange.lower)

end BlockRangeColumn

/-- Postgres' `int4range(lower, upper)`, which refuses a lower bound above the upper one. -/
def int4range (lower : Int) (upper : Option Int) : Except StoreError (Period Int) :=
  match upper with
  | some upper =>
      if upper < lower then
        .error (.unknown "range lower bound must be less than or equal to range upper bound")
      else .ok ⟨lower, some upper⟩
  | none => .ok ⟨lower, none⟩

namespace Table

variable {α : Type}

/-- The table's exclusion constraint: no two rows of one id have overlapping ranges. -/
def Exclusion (rows : List (Row α)) : Prop :=
  rows.Pairwise fun row other => row.id = other.id → row.blockRange.overlaps other.blockRange = false

instance (rows : List (Row α)) : Decidable (Exclusion rows) :=
  inferInstanceAs (Decidable (List.Pairwise _ rows))

/-- The table with the rows a statement leaves, unless they break the table's constraint. -/
def withRows (table : Table α) (rows : List (Row α)) : Except StoreError (Table α) :=
  if Exclusion rows then .ok { table with rows }
  else if table.immutable then .error (.unknown "duplicate key value violates unique constraint")
  else .error (.unknown "conflicting key value violates exclusion constraint")

/-- `FindQuery`: the rows of `id` whose version holds at `block`. -/
def findQuery (table : Table α) (id : String) (block : Int) : List (Row α) :=
  table.rows.filter fun row => row.id == id && (BlockRangeColumn.new table block).contains row

/-- `InsertQuery`: a row per entity with the range `[block, ∞)`; it returns the inserted ids. -/
def insertQuery (table : Table α) (entities : List (String × α)) (block : Int) :
    Except StoreError (Table α × List String) := do
  let inserted := entities.map fun entity => ⟨entity.1, entity.2, Period.startingAt block⟩
  let table ← table.withRows (table.rows ++ inserted)
  pure (table, entities.map Prod.fst)

/-- `ClampRangeQuery`: end at `block` the current version of each of `entityIds`.  It returns the
number of rows it changes. -/
def clampRangeQuery (table : Table α) (entityIds : List String) (block : Int) :
    Except StoreError (Table α × Nat) :=
  if table.immutable then
    .error (.constraintViolation
      ("immutable entities can not be deleted or updated (table `" ++ table.qualifiedName ++ "`)"))
  else do
    let column := BlockRangeColumn.new table block
    let clamped := fun row : Row α => entityIds.contains row.id && column.latest row
    let rows ← table.rows.mapM fun row =>
      if clamped row then do
        let blockRange ← int4range row.blockRange.lower (some block)
        pure { row with blockRange }
      else pure row
    let updated ← table.withRows rows
    pure (updated, (table.rows.filter clamped).length)

/-- `RevertRemoveQuery`: delete the versions that start at or after `block`, returning their ids. -/
def revertRemoveQuery (table : Table α) (block : Int) : Table α × List String :=
  let column := BlockRangeColumn.new table block
  ({ table with rows := table.rows.filter fun row => !column.changedSince row },
    (table.rows.filter column.changedSince).map Row.id)

/-- The condition of `RevertClampQuery` at `block`: the range contains `block` and not
`BLOCK_NUMBER_MAX`, stated once on the range and once on its bounds. -/
def revertClampCondition (block : Int) (row : Row α) : Bool :=
  row.blockRange.contains block && !row.blockRange.contains blockNumberMax &&
    decide (row.blockRange.lower ≤ block) &&
    decide (block < row.blockRange.upper.getD blockNumberMax) &&
    decide (row.blockRange.upper.getD blockNumberMax < blockNumberMax)

/-- `RevertClampQuery`: let the versions that hold at `block` but not at `BLOCK_NUMBER_MAX` hold
from their start on, as `int4range(lower(block_range), null)`; it returns their ids. -/
def revertClampQuery (table : Table α) (block : Int) : Except StoreError (Table α × List String) :=
  if table.immutable then
    .error (.constraintViolation
      ("can not revert clamping in immutable table `" ++ table.qualifiedName ++ "`"))
  else do
    let updated ← table.withRows (table.rows.map fun row =>
      if revertClampCondition block row then { row with blockRange := row.blockRange.unbound }
      else row)
    pure (updated, (table.rows.filter (revertClampCondition block)).map Row.id)

/-- The loop body of `Layout::revert_block` for one table: remove the versions from `block` on,
unclamp those that held at `block - 1`, and count the ids unclamped and not removed as inserted
and the ids removed and not unclamped as deleted. -/
def revertBlock (table : Table α) (block : Int) : Except StoreError (Table α × Int) := do
  let (table, removed) := table.revertRemoveQuery block
  let (table, unclamped) ← if table.immutable then pure (table, []) else
    table.revertClampQuery (block - 1)
  let deleted := (removed.toFinset \ unclamped.toFinset).card
  let inserted := (unclamped.toFinset \ removed.toFinset).card
  pure (table, (inserted : Int) - deleted)

/-- One table's part of `Layout::count_query`: every row of an immutable table, and the rows of a
mutable one whose range contains `BLOCK_NUMBER_MAX`. -/
def countQuery (table : Table α) : Nat :=
  if table.immutable then table.rows.length
  else (table.rows.filter fun row => row.blockRange.contains blockNumberMax).length

end Table

/-- `Layout`: the tables of a deployment.  The source keeps them in a hash map under each table's
`object`, the entity type it stores; here a list of tables whose `object`s are distinct. -/
structure Layout where
  tables : List (Table Entity)
  distinct : KeyedList.Distinct Table.object tables

namespace Layout

/-- `Layout::table_for_entity`. -/
def tableForEntity (layout : Layout) (entityType : String) : Except StoreError (Table Entity) :=
  match KeyedList.find Table.object layout.tables entityType with
  | some table => .ok table
  | none => .error (.unknownTable entityType)

/-- The layout with the rows of the table of `entityType` replaced by those of `table`: a
statement changes the rows of a table and nothing else of it. -/
def replace (layout : Layout) (entityType : String) (table : Table Entity) : Layout where
  tables := KeyedList.modify Table.object layout.tables entityType fun other =>
    { other with rows := table.rows }
  distinct := KeyedList.distinct_modify
    (fun _ => rfl : ∀ other : Table Entity,
      ({ other with rows := table.rows } : Table Entity).object = other.object)
    layout.distinct entityType

/-- `Layout::count_query`: the entities whose current version exists, over all tables. -/
def countQuery (layout : Layout) : Int :=
  (layout.tables.map fun table => (table.countQuery : Int)).sum

/-- `Layout::find`: the version of the entity that holds at `block`, if any. -/
def find (layout : Layout) (entityType id : String) (block : Int) :
    Except StoreError (Option Entity) := do
  let table ← layout.tableForEntity entityType
  pure ((table.findQuery id block).head?.map Row.data)

/-- `Layout::insert`: the number of rows inserted. -/
def insert (layout : Layout) (entityType : String) (entities : List (EntityKey × Entity))
    (block : Int) : Except StoreError (Layout × Nat) := do
  let table ← layout.tableForEntity entityType
  let (table, ids) ← table.insertQuery (entities.map fun entity => (entity.1.entityId, entity.2))
    block
  pure (layout.replace entityType table, ids.length)

/-- `Layout::update`: clamp the current versions, then insert the new ones. -/
def update (layout : Layout) (entityType : String) (entities : List (EntityKey × Entity))
    (block : Int) : Except StoreError (Layout × Nat) := do
  let table ← layout.tableForEntity entityType
  let entityIds := entities.map fun entity => entity.1.entityId
  if table.immutable then
    throw (.constraintViolation ("entities of type `" ++ entityType ++
      "` can not be updated since they are immutable. Entity ids are [" ++
      ", ".intercalate entityIds ++ "]"))
  let (table, _) ← table.clampRangeQuery entityIds block
  let (table, ids) ← table.insertQuery (entities.map fun entity => (entity.1.entityId, entity.2))
    block
  pure (layout.replace entityType table, ids.length)

/-- `Layout::delete`: the number of versions clamped. -/
def delete (layout : Layout) (entityType : String) (entityIds : List String)
    (block : Int) : Except StoreError (Layout × Nat) := do
  let table ← layout.tableForEntity entityType
  if table.immutable then
    throw (.constraintViolation ("entities of type `" ++ entityType ++
      "` can not be deleted since they are immutable. Entity ids are [" ++
      ", ".intercalate entityIds ++ "]"))
  let (table, count) ← table.clampRangeQuery entityIds block
  pure (layout.replace entityType table, count)

/-- A pass of the loop of `Layout::revert_block`: revert one table, adding its count. -/
def revertTable (block : Int) (state : Layout × Int) (table : Table Entity) :
    Except StoreError (Layout × Int) := do
  let (updated, tableCount) ← table.revertBlock block
  pure (state.1.replace table.object updated, state.2 + tableCount)

/-- `Layout::revert_block`: revert every table, adding up their counts. -/
def revertBlock (layout : Layout) (block : Int) : Except StoreError (Layout × Int) :=
  layout.tables.foldlM (revertTable block) (layout, 0)

end Layout

/-- The groups `apply_entity_modifications` collects: the inserted and the overwritten entities,
and the removed ids, each under its entity type.  The source groups into hash maps; the model's
maps are ordered. -/
structure ModificationGroups where
  inserts : Std.ExtTreeMap String (List (EntityKey × Entity)) compare
  overwrites : Std.ExtTreeMap String (List (EntityKey × Entity)) compare
  removals : Std.ExtTreeMap String (List String) compare

/-- A pass of the grouping loop of `apply_entity_modifications`: add the modification to the
group of its kind and entity type. -/
def groupModification (groups : ModificationGroups) : EntityModification → ModificationGroups
  | .insert key data =>
      { groups with inserts := MapFold.push groups.inserts key.entityType (key, data) }
  | .overwrite key data =>
      { groups with overwrites := MapFold.push groups.overwrites key.entityType (key, data) }
  | .remove key =>
      { groups with removals := MapFold.push groups.removals key.entityType key.entityId }

/-- The modifications of a block grouped by kind and entity type. -/
def groupModifications (mods : List EntityModification) : ModificationGroups :=
  mods.foldl groupModification ⟨∅, ∅, ∅⟩

/-- `DeploymentStore::remove_entities`: a failure of `Layout::delete` is reported as a failure to
remove the ids. -/
def removeEntities (layout : Layout) (entityType : String) (entityIds : List String)
    (block : Int) : Except StoreError (Layout × Nat) :=
  match layout.delete entityType entityIds block with
  | .ok result => .ok result
  | .error _ => .error (.unknown ("Failed to remove entities: [" ++
      ", ".intercalate (entityIds.map fun id => "\"" ++ id ++ "\"") ++ "]"))

/-- What `check_interface_entity_uniqueness` reads of the deployment's `ApiSchema`: the interfaces
a type implements (`interfaces_for_type`, none for a type that implements none) and the object
types that implement an interface (`types_for_interface`).  The schema builds both maps from one
document, so every interface a type implements has its types, and the index
`types_for_interface[&interface]` never panics: the second map is a total function here. -/
structure InterfaceSchema where
  interfacesForType : String → List String
  typesForInterface : String → List String

/-- The types that share an interface with `entityType`, other than `entityType` itself, in the
order `check_interface_entity_uniqueness` collects them. -/
def InterfaceSchema.typesWithSharedInterface (api : InterfaceSchema) (entityType : String) :
    List String :=
  ((api.interfacesForType entityType).flatMap api.typesForInterface).filter (· != entityType)

/-- `Layout::conflicting_entity`: `ConflictingEntityQuery` selects the type's name for every row of
the id in the table of each type in turn, whatever the row's block range; the last row found
answers. -/
def Layout.conflictingEntity (layout : Layout) (entityId : String) (entities : List String) :
    Except StoreError (Option String) := do
  let tables ← entities.mapM layout.tableForEntity
  pure (tables.flatMap fun table =>
    (table.rows.filter fun row => row.id == entityId).map fun _ => table.object).getLast?

/-- `DeploymentStore::check_interface_entity_uniqueness`: no type that shares an interface with
the key's type may have an entity of the key's id.  Its assertion that the key is of the layout's
deployment is the check `transact_block_operations` makes before any write. -/
def checkInterfaceEntityUniqueness (api : InterfaceSchema) (layout : Layout) (key : EntityKey) :
    Except StoreError Unit := do
  let typesWithSharedInterface := api.typesWithSharedInterface key.entityType
  unless typesWithSharedInterface.isEmpty do
    match ← layout.conflictingEntity key.entityId typesWithSharedInterface with
    | some conflictingEntity =>
        throw (.conflictingId key.entityType key.entityId conflictingEntity)
    | none => pure ()

/-- `DeploymentStore::insert_entities`: the interface check of every key, then `Layout::insert`. -/
def insertEntities (api : InterfaceSchema) (layout : Layout) (entityType : String)
    (entities : List (EntityKey × Entity)) (block : Int) : Except StoreError (Layout × Nat) := do
  entities.forM fun entity => checkInterfaceEntityUniqueness api layout entity.1
  layout.insert entityType entities block

/-- `DeploymentStore::overwrite_entities`: the interface check of every key, then
`Layout::update`. -/
def overwriteEntities (api : InterfaceSchema) (layout : Layout) (entityType : String)
    (entities : List (EntityKey × Entity)) (block : Int) : Except StoreError (Layout × Nat) := do
  entities.forM fun entity => checkInterfaceEntityUniqueness api layout entity.1
  layout.update entityType entities block

/-- A pass of the loop over the inserts in `apply_entity_modifications`: insert the entities of
one type, adding the rows inserted to the count. -/
def insertGroup (api : InterfaceSchema) (block : Int) (state : Layout × Int)
    (group : String × List (EntityKey × Entity)) : Except StoreError (Layout × Int) := do
  let (layout, inserted) ← insertEntities api state.1 group.1 group.2 block
  pure (layout, state.2 + inserted)

/-- A pass of the loop over the overwrites: update the entities of one type; the count stays. -/
def overwriteGroup (api : InterfaceSchema) (block : Int) (layout : Layout)
    (group : String × List (EntityKey × Entity)) : Except StoreError Layout := do
  let (layout, _) ← overwriteEntities api layout group.1 group.2 block
  pure layout

/-- A pass of the loop over the removals: remove the ids of one type, subtracting the versions
clamped from the count. -/
def removeGroup (block : Int) (state : Layout × Int) (group : String × List String) :
    Except StoreError (Layout × Int) := do
  let (layout, removed) ← removeEntities state.1 group.1 group.2 block
  pure (layout, state.2 - removed)

/-- `DeploymentStore::apply_entity_modifications`: all inserts, then all overwrites, then all
removals, each group on the table of its entity type.  The count is the rows inserted less the
versions clamped by removals. -/
def applyEntityModifications (api : InterfaceSchema) (layout : Layout)
    (mods : List EntityModification) (block : Int) : Except StoreError (Layout × Int) := do
  let groups := groupModifications mods
  let (layout, count) ← groups.inserts.foldlM (fun state entityType entities =>
    insertGroup api block state (entityType, entities)) (layout, 0)
  let layout ← groups.overwrites.foldlM (fun layout entityType entities =>
    overwriteGroup api block layout (entityType, entities)) layout
  groups.removals.foldlM (fun state entityType entityIds =>
    removeGroup block state (entityType, entityIds)) (layout, count)

end GraphNode
