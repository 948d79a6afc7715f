import GraphNode.Store.BlockRangeTable
import GraphNode.Store.EntityCacheModifications

/-!
# What a layout's tables stand for

A layout *tracks* a timeline of a deployment's entities when each of its tables tracks the
entities of its type (`Table.Tracks`).  `apply_entity_modifications` at a block above the
timeline's last runs all inserts, then all overwrites, then all removals, one group of an entity
type at a time, and a group edits the table of its type and no other.  On a block that modifies
each key at most once, inserts absent entities and overwrites or removes present ones of mutable
types, and writes no id that a type sharing an interface with the key's type has (or writes in
the block), every statement and interface check succeeds, the layout after the block tracks the timeline with the block's
modifications made from its number on, and the count the block reports is the change in
`count_query`.
-/

namespace GraphNode

attribute [ext] EntityKey

namespace EntityModification

/-- Whether the modification is an `Insert`. -/
def isInsert : EntityModification → Bool
  | insert _ _ => true
  | _ => false

/-- Whether the modification is an `Overwrite`. -/
def isOverwrite : EntityModification → Bool
  | overwrite _ _ => true
  | _ => false

/-- Whether the modification is a `Remove`. -/
def isRemove : EntityModification → Bool
  | remove _ => true
  | _ => false

theorem isRemove_eq_false_of_isInsert {mod : EntityModification} (inserting : mod.isInsert = true) :
    mod.isRemove = false := by
  cases mod <;> first | rfl | cases inserting

/-- The entry `apply_entity_modifications` groups an `Insert` under. -/
def insertEntry : EntityModification → Option (String × (EntityKey × Entity))
  | insert key data => some (key.entityType, (key, data))
  | _ => none

/-- The entry it groups an `Overwrite` under. -/
def overwriteEntry : EntityModification → Option (String × (EntityKey × Entity))
  | overwrite key data => some (key.entityType, (key, data))
  | _ => none

/-- The entry it groups a `Remove` under. -/
def removalEntry : EntityModification → Option (String × String)
  | remove key => some (key.entityType, key.entityId)
  | _ => none

end EntityModification

open EntityModification

/-- The entities `present` with the modifications of a block that `phase` selects made. -/
def applyPhase (phase : EntityModification → Bool) (mods : List EntityModification)
    (present : EntityKey → Option Entity) (key : EntityKey) : Option Entity :=
  (KeyedList.find entityKey mods key).elim (present key) fun mod =>
    if phase mod then mod.entity else present key

/-- The entities of one type of a deployment, by id. -/
def tableEntities (present : EntityKey → Option Entity) (deployment entityType : String) :
    String → Option Entity :=
  fun id => present ⟨deployment, entityType, id⟩

/-- The timeline of the entities of one type of a deployment. -/
def tableTimeline (state : Int → EntityKey → Option Entity) (deployment entityType : String) :
    Int → String → Option Entity :=
  fun t => tableEntities (state t) deployment entityType

theorem tableTimeline_changeFrom (state : Int → EntityKey → Option Entity) (block : Int)
    (present : EntityKey → Option Entity) (deployment entityType : String) :
    tableTimeline (Table.changeFrom state block present) deployment entityType =
      Table.changeFrom (tableTimeline state deployment entityType) block
        (tableEntities present deployment entityType) := by
  funext t
  unfold tableTimeline Table.changeFrom
  split <;> rfl

/-! ## The modifications of a block -/

section Block

variable {mods : List EntityModification}

/-- Modifications of distinct keys make each key what its own modification makes it. -/
theorem applyModifications_eq_find (distinct : (mods.map entityKey).Nodup)
    (present : EntityKey → Option Entity) (key : EntityKey) :
    applyModifications present mods key =
      (KeyedList.find entityKey mods key).elim (present key) EntityModification.entity := by
  induction mods generalizing present with
  | nil => rfl
  | cons mod mods induction =>
      obtain ⟨fresh, distinct⟩ := List.nodup_cons.mp distinct
      rw [applyModifications, List.foldl_cons, ← applyModifications, induction distinct,
        KeyedList.find_cons]
      by_cases own : mod.entityKey = key
      · have absent : KeyedList.find entityKey mods key = none :=
          KeyedList.find_eq_none_of_not_mem (own ▸ fresh)
        simp [absent, own, EntityModification.applyTo]
      · simp [own, EntityModification.applyTo]

/-- The three phases of `apply_entity_modifications` make together the block's modifications. -/
theorem applyPhase_all (distinct : (mods.map entityKey).Nodup)
    (present : EntityKey → Option Entity) :
    applyPhase isRemove mods (applyPhase isOverwrite mods (applyPhase isInsert mods present)) =
      applyModifications present mods := by
  funext key
  rw [applyModifications_eq_find distinct]
  unfold applyPhase
  cases KeyedList.find entityKey mods key with
  | none => rfl
  | some mod => cases mod <;> rfl

/-- The kinds of modification the phases of `apply_entity_modifications` make. -/
theorem applyPhase_of_find {phase : EntityModification → Bool}
    {present : EntityKey → Option Entity} {key : EntityKey} {mod : EntityModification}
    (found : KeyedList.find entityKey mods key = some mod) (other : phase mod = false) :
    applyPhase phase mods present key = present key := by
  simp [applyPhase, found, other]

end Block

/-! ## The groups of a block -/

theorem foldl_groupModification (mods : List EntityModification) (groups : ModificationGroups) :
    mods.foldl groupModification groups =
      ⟨(mods.filterMap insertEntry).foldl
          (fun inserts entry => MapFold.push inserts entry.1 entry.2) groups.inserts,
        (mods.filterMap overwriteEntry).foldl
          (fun overwrites entry => MapFold.push overwrites entry.1 entry.2) groups.overwrites,
        (mods.filterMap removalEntry).foldl
          (fun removals entry => MapFold.push removals entry.1 entry.2) groups.removals⟩ := by
  induction mods generalizing groups with
  | nil => rfl
  | cons mod mods induction =>
      rw [List.foldl_cons, induction]
      cases mod <;> rfl

/-- The groups of a block: each kind of modification grouped by entity type. -/
theorem groupModifications_eq (mods : List EntityModification) :
    groupModifications mods = ⟨MapFold.group (mods.filterMap insertEntry),
      MapFold.group (mods.filterMap overwriteEntry),
      MapFold.group (mods.filterMap removalEntry)⟩ :=
  foldl_groupModification mods ⟨∅, ∅, ∅⟩

section Groups

variable {β : Type} {entryOf : EntityModification → Option (String × β)} (idOf : β → String)
  {mods : List EntityModification} {deployment : String}

/-- The values filed under `entityType`, found by id, are those of the modification of the key of
that type and id. -/
theorem find_filed
    (filed : ∀ mod entry, entryOf mod = some entry →
      mod.entityKey.entityType = entry.1 ∧ mod.entityKey.entityId = idOf entry.2)
    (distinct : (mods.map entityKey).Nodup)
    (ofDeployment : ∀ mod ∈ mods, mod.entityKey.subgraphId = deployment)
    (entityType id : String) :
    KeyedList.find idOf ((mods.filterMap entryOf).filterMap fun entry =>
        if entry.1 = entityType then some entry.2 else none) id =
      (KeyedList.find entityKey mods ⟨deployment, entityType, id⟩).bind fun mod =>
        (entryOf mod).map Prod.snd := by
  induction mods with
  | nil => rfl
  | cons mod mods induction =>
      obtain ⟨fresh, distinct⟩ := List.nodup_cons.mp distinct
      have rest := induction distinct fun other member =>
        ofDeployment other (List.mem_cons_of_mem _ member)
      have own := ofDeployment mod List.mem_cons_self
      rw [KeyedList.find_cons]
      cases filedAt : entryOf mod with
      | none =>
          rw [List.filterMap_cons_none filedAt, rest]
          by_cases hit : mod.entityKey = ⟨deployment, entityType, id⟩
          · have absent : KeyedList.find entityKey mods ⟨deployment, entityType, id⟩ = none :=
              KeyedList.find_eq_none_of_not_mem (hit ▸ fresh)
            simp [hit, absent, filedAt]
          · simp [hit]
      | some entry =>
          obtain ⟨typed, named⟩ := filed mod entry filedAt
          rw [List.filterMap_cons_some filedAt, List.filterMap_cons]
          by_cases sameType : entry.1 = entityType
          · rw [if_pos sameType, KeyedList.find_cons, rest]
            by_cases sameId : idOf entry.2 = id
            · have hit : mod.entityKey = ⟨deployment, entityType, id⟩ := by
                ext <;> simp [own, typed, named, sameType, sameId]
              simp [hit, sameId, filedAt]
            · have miss : mod.entityKey ≠ ⟨deployment, entityType, id⟩ := fun hit =>
                sameId (by rw [← named, hit])
              simp [sameId, miss]
          · have miss : mod.entityKey ≠ ⟨deployment, entityType, id⟩ := fun hit =>
              sameType (by rw [← typed, hit])
            simp [sameType, miss, rest]

/-- The values filed under `entityType` have distinct ids. -/
theorem distinct_filed
    (filed : ∀ mod entry, entryOf mod = some entry →
      mod.entityKey.entityType = entry.1 ∧ mod.entityKey.entityId = idOf entry.2)
    (distinct : (mods.map entityKey).Nodup)
    (ofDeployment : ∀ mod ∈ mods, mod.entityKey.subgraphId = deployment) (entityType : String) :
    KeyedList.Distinct idOf ((mods.filterMap entryOf).filterMap fun entry =>
      if entry.1 = entityType then some entry.2 else none) := by
  induction mods with
  | nil => exact List.nodup_nil
  | cons mod mods induction =>
      obtain ⟨fresh, distinct⟩ := List.nodup_cons.mp distinct
      have rest := induction distinct fun other member =>
        ofDeployment other (List.mem_cons_of_mem _ member)
      cases filedAt : entryOf mod with
      | none => rwa [List.filterMap_cons_none filedAt]
      | some entry =>
          rw [List.filterMap_cons_some filedAt]
          by_cases sameType : entry.1 = entityType
          · rw [List.filterMap_cons, if_pos sameType]
            dsimp only
            unfold KeyedList.Distinct at rest ⊢
            rw [List.map_cons]
            refine List.nodup_cons.mpr ⟨fun member => ?_, rest⟩
            obtain ⟨value, valueMember, sameId⟩ := List.mem_map.mp member
            obtain ⟨later, laterMember, laterFiled⟩ := List.mem_filterMap.mp valueMember
            obtain ⟨other, otherMember, otherFiled⟩ := List.mem_filterMap.mp laterMember
            have laterType : later.1 = entityType := by
              by_contra different
              simp [different] at laterFiled
            have laterValue : later.2 = value := by simpa [laterType] using laterFiled
            obtain ⟨typed, named⟩ := filed mod entry filedAt
            obtain ⟨otherTyped, otherNamed⟩ := filed other later otherFiled
            have same : other.entityKey = mod.entityKey := by
              ext
              · rw [ofDeployment other (List.mem_cons_of_mem _ otherMember),
                  ofDeployment mod List.mem_cons_self]
              · rw [otherTyped, typed, laterType, sameType]
              · rw [otherNamed, named, laterValue, sameId]
            exact fresh (same ▸ List.mem_map_of_mem otherMember)
          · rw [List.filterMap_cons, if_neg sameType]
            exact rest

end Groups

theorem insertEntry_filed (mod : EntityModification) (entry : String × (EntityKey × Entity))
    (filed : insertEntry mod = some entry) :
    mod.entityKey.entityType = entry.1 ∧ mod.entityKey.entityId = entry.2.1.entityId := by
  cases mod with
  | insert key data => cases filed; exact ⟨rfl, rfl⟩
  | overwrite => cases filed
  | remove => cases filed

theorem overwriteEntry_filed (mod : EntityModification) (entry : String × (EntityKey × Entity))
    (filed : overwriteEntry mod = some entry) :
    mod.entityKey.entityType = entry.1 ∧ mod.entityKey.entityId = entry.2.1.entityId := by
  cases mod with
  | overwrite key data => cases filed; exact ⟨rfl, rfl⟩
  | insert => cases filed
  | remove => cases filed

theorem removalEntry_filed (mod : EntityModification) (entry : String × String)
    (filed : removalEntry mod = some entry) :
    mod.entityKey.entityType = entry.1 ∧ mod.entityKey.entityId = entry.2 := by
  cases mod with
  | remove key => cases filed; exact ⟨rfl, rfl⟩
  | insert => cases filed
  | overwrite => cases filed

theorem isInsert_of_insertEntry {mod : EntityModification} {entry : String × (EntityKey × Entity)}
    (filed : insertEntry mod = some entry) : mod.isInsert = true := by
  cases mod <;> first | rfl | cases filed

theorem kind_of_overwriteEntry {mod : EntityModification}
    {entry : String × (EntityKey × Entity)} (filed : overwriteEntry mod = some entry) :
    mod.isInsert = false ∧ mod.isRemove = false := by
  cases mod <;> first | exact ⟨rfl, rfl⟩ | cases filed

theorem kind_of_removalEntry {mod : EntityModification} {entry : String × String}
    (filed : removalEntry mod = some entry) :
    mod.isRemove = true ∧ mod.isInsert = false ∧ mod.isOverwrite = false := by
  cases mod <;> first | exact ⟨rfl, rfl, rfl⟩ | cases filed

section Views

variable {mods : List EntityModification} {deployment entityType : String}

/-- The entities a group of inserts sets are those the block's inserts make. -/
theorem setAll_inserts (distinct : (mods.map entityKey).Nodup)
    (ofDeployment : ∀ mod ∈ mods, mod.entityKey.subgraphId = deployment)
    {values : List (EntityKey × Entity)}
    (member : (entityType, values) ∈ (MapFold.group (mods.filterMap insertEntry) :
      Std.ExtTreeMap String (List (EntityKey × Entity)) compare).toList)
    (present : EntityKey → Option Entity) :
    Table.setAll (values.map fun value => (value.1.entityId, value.2))
        (tableEntities present deployment entityType) =
      tableEntities (applyPhase isInsert mods present) deployment entityType := by
  funext id
  rw [MapFold.eq_of_mem_toList_group member]
  unfold Table.setAll tableEntities applyPhase
  rw [KeyedList.find_map, find_filed (fun value : EntityKey × Entity => value.1.entityId) insertEntry_filed distinct ofDeployment]
  cases KeyedList.find entityKey mods ⟨deployment, entityType, id⟩ with
  | none => rfl
  | some mod => cases mod <;> rfl

/-- The entities a group of overwrites sets are those the block's overwrites make. -/
theorem setAll_overwrites (distinct : (mods.map entityKey).Nodup)
    (ofDeployment : ∀ mod ∈ mods, mod.entityKey.subgraphId = deployment)
    {values : List (EntityKey × Entity)}
    (member : (entityType, values) ∈ (MapFold.group (mods.filterMap overwriteEntry) :
      Std.ExtTreeMap String (List (EntityKey × Entity)) compare).toList)
    (present : EntityKey → Option Entity) :
    Table.setAll (values.map fun value => (value.1.entityId, value.2))
        (tableEntities present deployment entityType) =
      tableEntities (applyPhase isOverwrite mods present) deployment entityType := by
  funext id
  rw [MapFold.eq_of_mem_toList_group member]
  unfold Table.setAll tableEntities applyPhase
  rw [KeyedList.find_map, find_filed (fun value : EntityKey × Entity => value.1.entityId) overwriteEntry_filed distinct ofDeployment]
  cases KeyedList.find entityKey mods ⟨deployment, entityType, id⟩ with
  | none => rfl
  | some mod => cases mod <;> rfl

/-- The entities a group of removals leaves are those the block's removals leave. -/
theorem removeAll_removals (distinct : (mods.map entityKey).Nodup)
    (ofDeployment : ∀ mod ∈ mods, mod.entityKey.subgraphId = deployment)
    {values : List String}
    (member : (entityType, values) ∈ (MapFold.group (mods.filterMap removalEntry) :
      Std.ExtTreeMap String (List String) compare).toList)
    (present : EntityKey → Option Entity) :
    Table.removeAll values (tableEntities present deployment entityType) =
      tableEntities (applyPhase isRemove mods present) deployment entityType := by
  funext id
  have found := find_filed (fun value : String => value) removalEntry_filed distinct ofDeployment
    entityType id
  rw [← MapFold.eq_of_mem_toList_group member] at found
  have listed : id ∈ values ↔ KeyedList.find (fun value => value) values id ≠ none := by
    rw [ne_eq, KeyedList.find_eq_none]
    exact ⟨fun listed unlisted => unlisted id listed rfl,
      fun listed => by_contra fun unlisted => listed fun value member same => unlisted (same ▸ member)⟩
  unfold Table.removeAll tableEntities applyPhase
  cases modified : KeyedList.find entityKey mods ⟨deployment, entityType, id⟩ with
  | none =>
      rw [modified, Option.bind_none] at found
      simp [listed, found]
  | some mod =>
      rw [modified, Option.bind_some] at found
      cases mod <;> simp [listed, found, removalEntry, isRemove, EntityModification.entity]

end Views

/-! ## Layouts partway through a block -/

namespace Layout

/-- Whether the layout has a table of `entityType`, and whether that table is immutable. -/
def schema (layout : Layout) (entityType : String) : Option Bool :=
  (KeyedList.find Table.object layout.tables entityType).map Table.immutable

theorem find_of_schema {layout : Layout} {entityType : String}
    (has : layout.schema entityType ≠ none) :
    ∃ table, KeyedList.find Table.object layout.tables entityType = some table := by
  unfold schema at has
  cases found : KeyedList.find Table.object layout.tables entityType with
  | none => simp [found] at has
  | some table => exact ⟨table, rfl⟩

/-- Each table of the layout tracks the deployment's entities of its type in the timeline `state`,
settled by `next`. -/
def Tracks (layout : Layout) (deployment : String) (state : Int → EntityKey → Option Entity)
    (next : Int) : Prop :=
  ∀ table ∈ layout.tables, table.Tracks (tableTimeline state deployment table.object) next

theorem tableForEntity_of_find {layout : Layout} {entityType : String} {table : Table Entity}
    (found : KeyedList.find Table.object layout.tables entityType = some table) :
    layout.tableForEntity entityType = .ok table := by
  simp [tableForEntity, found]

theorem find_replace (layout : Layout) (entityType : String) (table : Table Entity) (k : String) :
    KeyedList.find Table.object (layout.replace entityType table).tables k =
      if entityType = k then (KeyedList.find Table.object layout.tables k).map fun other =>
        { other with rows := table.rows }
      else KeyedList.find Table.object layout.tables k :=
  KeyedList.find_modify (fun _ => rfl : ∀ other : Table Entity,
    ({ other with rows := table.rows } : Table Entity).object = other.object) layout.tables
    entityType k

theorem countQuery_replace {layout : Layout} {entityType : String} {current : Table Entity}
    (found : KeyedList.find Table.object layout.tables entityType = some current)
    (table : Table Entity) :
    (layout.replace entityType table).countQuery = layout.countQuery +
      (((({ current with rows := table.rows } : Table Entity).countQuery : Nat) : Int) -
        current.countQuery) :=
  KeyedList.sum_map_modify layout.distinct found

/-- After a fold that edits the tables of the entity types of some entries, a property holds of
every table when it holds of the tables no entry edits and of the edited ones. -/
theorem forall_of_reads {ι : Type} {keyOf : ι → String} {layout layout' : Layout} {groups : List ι}
    {edited : ι → Table Entity → Table Entity} {P : Table Entity → Prop}
    (reads : ∀ k, KeyedList.find Table.object layout'.tables k =
      (groups.find? fun group => keyOf group = k).elim (KeyedList.find Table.object layout.tables k)
        fun group => (KeyedList.find Table.object layout.tables k).map (edited group))
    (untouched : ∀ table ∈ layout.tables, (∀ group ∈ groups, keyOf group ≠ table.object) → P table)
    (touched : ∀ group ∈ groups, ∀ table ∈ layout.tables, table.object = keyOf group →
      P (edited group table)) :
    ∀ table ∈ layout'.tables, P table := by
  intro table member
  have found := reads table.object
  rw [KeyedList.find_of_mem layout'.distinct member] at found
  cases grouped : groups.find? fun group => keyOf group = table.object with
  | none =>
      rw [grouped, Option.elim_none] at found
      exact untouched table (KeyedList.mem_of_find found.symm) fun group groupMember same =>
        List.find?_eq_none.mp grouped group groupMember (by simpa using same)
  | some group =>
      rw [grouped, Option.elim_some] at found
      obtain ⟨original, originalFound, edits⟩ := Option.map_eq_some_iff.mp found.symm
      have sameType : keyOf group = table.object := by simpa using List.find?_some grouped
      have typed : original.object = keyOf group :=
        (KeyedList.key_of_find originalFound).trans sameType.symm
      exact edits ▸ touched group (List.mem_of_find?_eq_some grouped) original
        (KeyedList.mem_of_find originalFound) typed

/-- A fold whose edits keep each table's mutability keeps the schema. -/
theorem schema_of_reads {ι : Type} {keyOf : ι → String} {layout layout' : Layout}
    {groups : List ι} {edited : ι → Table Entity → Table Entity}
    (reads : ∀ k, KeyedList.find Table.object layout'.tables k =
      (groups.find? fun group => keyOf group = k).elim (KeyedList.find Table.object layout.tables k)
        fun group => (KeyedList.find Table.object layout.tables k).map (edited group))
    (keeps : ∀ group table, (edited group table).immutable = table.immutable) :
    layout'.schema = layout.schema := by
  funext k
  unfold schema
  rw [reads]
  cases groups.find? fun group => keyOf group = k with
  | none => rfl
  | some group =>
      simp only [Option.elim_some, Option.map_map]
      congr 1
      funext table
      exact keeps group table

end Layout

section Writing

variable {deployment : String} {state : Int → EntityKey → Option Entity} {block : Int}

/-- A table partway through the statements of a block at `block`: it tracks the timeline changed
to `present` from `block` on, and its rows that start at `block` are of keys `written` holds of. -/
structure Table.Writing (table : Table Entity) (deployment : String)
    (state : Int → EntityKey → Option Entity) (block : Int) (present : EntityKey → Option Entity)
    (written : EntityKey → Bool) : Prop where
  tracks : table.Tracks
    (tableTimeline (Table.changeFrom state block present) deployment table.object) block
  started : ∀ row ∈ table.rows, block ≤ row.blockRange.lower →
    written ⟨deployment, table.object, row.id⟩ = true

/-- A table no group of a phase edits goes on writing the same entities. -/
theorem Table.Writing.untouched {table : Table Entity} {present present' : EntityKey → Option Entity}
    {written written' : EntityKey → Bool}
    (writing : table.Writing deployment state block present written)
    (same : tableEntities present' deployment table.object =
      tableEntities present deployment table.object)
    (grows : ∀ key, written key = true → written' key = true) :
    table.Writing deployment state block present' written' where
  tracks := by
    rw [tableTimeline_changeFrom, same, ← tableTimeline_changeFrom]
    exact writing.tracks
  started row member late := grows _ (writing.started row member late)

/-- The current versions of ids a writing table has not written yet all started before the
block, which is what `ClampRangeQuery` needs of them. -/
theorem Table.Writing.started_of_unwritten {table : Table Entity}
    {present : EntityKey → Option Entity} {written : EntityKey → Bool}
    (writing : table.Writing deployment state block present written) {ids : List String}
    (unwritten : ∀ id ∈ ids, written ⟨deployment, table.object, id⟩ = false) :
    ∀ row ∈ table.rows, row.id ∈ ids → row.blockRange.upper = none →
      row.blockRange.lower < block := by
  intro row rowMember listed _
  by_contra late
  have written := writing.started row rowMember (not_lt.mp late)
  rw [unwritten row.id listed] at written
  exact Bool.false_ne_true written

/-- Before the first statement of a block above `next`, a tracking layout writes nothing. -/
theorem Layout.Tracks.writing {layout : Layout} {next : Int}
    (tracks : layout.Tracks deployment state next) (advanced : next < block) :
    ∀ table ∈ layout.tables, table.Writing deployment state block (state next) fun _ => false := by
  intro table member
  have tracked := tracks table member
  constructor
  · have settled := Table.changeFrom_settled tracked.settled (le_of_lt advanced)
    rw [tableTimeline_changeFrom]
    show table.Tracks (Table.changeFrom (tableTimeline state deployment table.object) block
      (tableTimeline state deployment table.object next)) block
    rw [settled]
    exact tracked.advance (le_of_lt advanced)
  · intro row rowMember late
    have early := tracked.lower_le row rowMember
    omega

end Writing

/-! ## The interface check -/

section Interfaces

variable {api : InterfaceSchema} {layout : Layout}

/-- What `check_interface_entity_uniqueness` needs of the tables `tables` for a key: every type
that shares an interface with the key's type has a table, and no row of it, of any block range,
has the key's id. -/
def InterfaceClear (api : InterfaceSchema) (tables : String → Option (Table Entity))
    (key : EntityKey) : Prop :=
  ∀ other ∈ api.typesWithSharedInterface key.entityType,
    ∃ table, tables other = some table ∧ ∀ row ∈ table.rows, row.id ≠ key.entityId

/-- Every key a block inserts or overwrites is clear on the tables `tables`. -/
def InterfaceFree (api : InterfaceSchema) (tables : String → Option (Table Entity))
    (mods : List EntityModification) : Prop :=
  ∀ mod ∈ mods, mod.isRemove = false → InterfaceClear api tables mod.entityKey

/-- A block inserts or overwrites no two keys of one id under types that share an interface. -/
def InterfaceApart (api : InterfaceSchema) (mods : List EntityModification) : Prop :=
  ∀ mod ∈ mods, ∀ other ∈ mods, mod.isRemove = false → other.isRemove = false →
    other.entityKey.entityType ∈ api.typesWithSharedInterface mod.entityKey.entityType →
      other.entityKey.entityId ≠ mod.entityKey.entityId

/-- `ConflictingEntityQuery` is built when every type has a table: its tables are those found. -/
theorem mapM_tableForEntity {entities : List String}
    (tabled : ∀ other ∈ entities, layout.schema other ≠ none) :
    ∃ tables, entities.mapM layout.tableForEntity = .ok tables ∧
      (∀ table ∈ tables, ∃ other ∈ entities,
        KeyedList.find Table.object layout.tables other = some table) ∧
      ∀ other ∈ entities, ∃ table ∈ tables,
        KeyedList.find Table.object layout.tables other = some table := by
  induction entities with
  | nil => exact ⟨[], rfl, by simp, by simp⟩
  | cons other rest induction =>
      obtain ⟨table, found⟩ := Layout.find_of_schema (tabled other List.mem_cons_self)
      obtain ⟨tables, mapped, fromEntity, toTable⟩ :=
        induction fun later member => tabled later (List.mem_cons_of_mem _ member)
      refine ⟨table :: tables, ?_, ?_, ?_⟩
      · simp [List.mapM_cons, Layout.tableForEntity_of_find found, mapped, bind, Except.bind,
          pure, Except.pure]
      · rintro listed (_ | ⟨_, member⟩)
        · exact ⟨other, List.mem_cons_self, found⟩
        · obtain ⟨later, laterMember, laterFound⟩ := fromEntity listed member
          exact ⟨later, List.mem_cons_of_mem _ laterMember, laterFound⟩
      · rintro later (_ | ⟨_, member⟩)
        · exact ⟨table, List.mem_cons_self, found⟩
        · obtain ⟨listed, listedMember, listedFound⟩ := toTable later member
          exact ⟨listed, List.mem_cons_of_mem _ listedMember, listedFound⟩

/-- The check passes on a key that is clear. -/
theorem checkInterfaceEntityUniqueness_of_clear {key : EntityKey}
    (clear : InterfaceClear api (KeyedList.find Table.object layout.tables) key) :
    checkInterfaceEntityUniqueness api layout key = .ok () := by
  have tabled : ∀ other ∈ api.typesWithSharedInterface key.entityType,
      layout.schema other ≠ none := fun other shared => by
    obtain ⟨table, found, -⟩ := clear other shared
    simp [Layout.schema, found]
  obtain ⟨tables, mapped, fromEntity, -⟩ := mapM_tableForEntity tabled
  have none : (tables.flatMap fun table =>
      (table.rows.filter fun row => row.id == key.entityId).map fun _ => table.object) = [] := by
    refine List.flatMap_eq_nil_iff.mpr fun table member => ?_
    obtain ⟨other, shared, found⟩ := fromEntity table member
    obtain ⟨same, sameFound, fresh⟩ := clear other shared
    rw [found, Option.some.injEq] at sameFound
    subst sameFound
    simpa using fun row rowMember => fresh row rowMember
  unfold checkInterfaceEntityUniqueness Layout.conflictingEntity
  simp only [mapped, none, List.getLast?_nil, bind, Except.bind, pure, Except.pure]
  split <;> rfl

/-- The check fails on a key of an id that a type sharing an interface with the key's type has a
row of, naming one such type, when all of them have a table. -/
theorem checkInterfaceEntityUniqueness_eq_error {key : EntityKey}
    (tabled : ∀ other ∈ api.typesWithSharedInterface key.entityType, layout.schema other ≠ none)
    {other : String} (shared : other ∈ api.typesWithSharedInterface key.entityType)
    {table : Table Entity} (found : KeyedList.find Table.object layout.tables other = some table)
    {row : Row Entity} (rowMember : row ∈ table.rows) (same : row.id = key.entityId) :
    ∃ conflicting ∈ api.typesWithSharedInterface key.entityType,
      checkInterfaceEntityUniqueness api layout key =
        .error (.conflictingId key.entityType key.entityId conflicting) := by
  obtain ⟨tables, mapped, fromEntity, toTable⟩ := mapM_tableForEntity tabled
  have selects : other ∈ tables.flatMap fun table =>
      (table.rows.filter fun row => row.id == key.entityId).map fun _ => table.object := by
    obtain ⟨listedTable, tableMember, listedFound⟩ := toTable other shared
    rw [found, Option.some.injEq] at listedFound
    subst listedFound
    refine List.mem_flatMap.mpr ⟨table, tableMember, List.mem_map.mpr ⟨row, ?_, ?_⟩⟩
    · simpa [same] using rowMember
    · exact KeyedList.key_of_find found
  obtain ⟨conflicting, last⟩ := Option.ne_none_iff_exists'.mp
    (List.getLast?_eq_none_iff.not.mpr (List.ne_nil_of_mem selects))
  have typed : conflicting ∈ api.typesWithSharedInterface key.entityType := by
    obtain ⟨selectedTable, tableMember, named⟩ :=
      List.mem_flatMap.mp (List.mem_of_getLast? last)
    obtain ⟨-, -, rfl⟩ := List.mem_map.mp named
    obtain ⟨listedType, typeMember, typeFound⟩ := fromEntity selectedTable tableMember
    exact KeyedList.key_of_find typeFound ▸ typeMember
  have nonempty : (api.typesWithSharedInterface key.entityType).isEmpty = false :=
    List.isEmpty_eq_false_iff_exists_mem.mpr ⟨other, shared⟩
  refine ⟨conflicting, typed, ?_⟩
  unfold checkInterfaceEntityUniqueness Layout.conflictingEntity
  simp only [mapped, last, nonempty, bind, Except.bind, pure, Except.pure]
  rfl

/-- The checks of a group pass when every key of it is clear. -/
theorem forM_checkInterfaceEntityUniqueness {entities : List (EntityKey × Entity)}
    (clear : ∀ entity ∈ entities,
      InterfaceClear api (KeyedList.find Table.object layout.tables) entity.1) :
    entities.forM (fun entity => checkInterfaceEntityUniqueness api layout entity.1) = .ok () := by
  induction entities with
  | nil => rfl
  | cons entity rest induction =>
      rw [List.forM, checkInterfaceEntityUniqueness_of_clear (clear entity List.mem_cons_self)]
      exact induction fun later member => clear later (List.mem_cons_of_mem _ member)

/-- Editing the table of `entityType` keeps a block's keys clear when each row it leaves has the
id of a row that was there or of a key the block writes under `entityType`. -/
theorem InterfaceFree.update {tables : String → Option (Table Entity)}
    {mods : List EntityModification} (free : InterfaceFree api tables mods)
    (apart : InterfaceApart api mods) {entityType : String} {current edited : Table Entity}
    (found : tables entityType = some current)
    (rows : ∀ row ∈ edited.rows, (∃ old ∈ current.rows, old.id = row.id) ∨
      ∃ mod ∈ mods, mod.isRemove = false ∧ mod.entityKey.entityType = entityType ∧
        mod.entityKey.entityId = row.id) :
    InterfaceFree api (Function.update tables entityType (some edited)) mods := by
  intro mod member written other shared
  by_cases hit : other = entityType
  · subst hit
    obtain ⟨same, sameFound, fresh⟩ := free mod member written other shared
    rw [found, Option.some.injEq] at sameFound
    subst sameFound
    refine ⟨edited, Function.update_self .., fun row rowMember => ?_⟩
    rcases rows row rowMember with
      ⟨old, oldMember, sameId⟩ | ⟨writer, writerMember, writes, typed, named⟩
    · exact sameId ▸ fresh old oldMember
    · exact named ▸ apart mod member writer writerMember written writes (typed ▸ shared)
  · rw [Function.update_of_ne hit]
    exact free mod member written other shared

/-- The keys a block inserts or overwrites. -/
def writtenKeys (mods : List EntityModification) : List EntityKey :=
  (mods.filter fun mod => !mod.isRemove).map entityKey

theorem mem_writtenKeys {mods : List EntityModification} {mod : EntityModification}
    (member : mod ∈ mods) (writes : mod.isRemove = false) : mod.entityKey ∈ writtenKeys mods :=
  List.mem_map_of_mem (List.mem_filter.mpr ⟨member, by simp [writes]⟩)

/-- No key of `written` has an id that a type sharing an interface with its type has at a block
of `timeline` or has in `written`, and each such type has a table in `schema`. -/
def InterfaceUnique (api : InterfaceSchema) (schema : String → Option Bool)
    (timeline : Int → EntityKey → Option Entity) (written : List EntityKey) : Prop :=
  ∀ key ∈ written, ∀ other ∈ api.typesWithSharedInterface key.entityType,
    schema other ≠ none ∧ (∀ t, timeline t { key with entityType := other } = none) ∧
      { key with entityType := other } ∉ written

section Unique

variable {schema : String → Option Bool} {timeline : Int → EntityKey → Option Entity}
  {written : List EntityKey}

theorem InterfaceUnique.mono (unique : InterfaceUnique api schema timeline written)
    {fewer : List EntityKey} (sub : ∀ key ∈ fewer, key ∈ written) :
    InterfaceUnique api schema timeline fewer := by
  intro key member other shared
  obtain ⟨tabled, never, absent⟩ := unique key (sub key member) other shared
  exact ⟨tabled, never, fun listed => absent (sub _ listed)⟩

/-- On a timeline with no entities, the written keys are unique when they are apart and the types
they conflict with have tables. -/
theorem interfaceUnique_of_apart
    (apart : ∀ key ∈ written, ∀ other ∈ api.typesWithSharedInterface key.entityType,
      schema other ≠ none ∧ { key with entityType := other } ∉ written) :
    InterfaceUnique api schema (fun _ _ => none) written := fun key member other shared =>
  ⟨(apart key member other shared).1, fun _ => rfl, (apart key member other shared).2⟩

/-- A block of keys among `written` keeps them unique in the timeline it makes: it writes none
of the keys they conflict with, and a removal leaves nothing. -/
theorem InterfaceUnique.changeFrom (unique : InterfaceUnique api schema timeline written)
    {mods : List EntityModification} (distinct : (mods.map entityKey).Nodup)
    (covered : ∀ key ∈ writtenKeys mods, key ∈ written) (head block : Int) :
    InterfaceUnique api schema
      (Table.changeFrom timeline block (applyModifications (timeline head) mods)) written := by
  intro key member other shared
  obtain ⟨tabled, never, absent⟩ := unique key member other shared
  refine ⟨tabled, fun t => ?_, absent⟩
  unfold Table.changeFrom
  split
  · exact never t
  · rw [applyModifications_eq_find distinct]
    cases found : KeyedList.find entityKey mods { key with entityType := other } with
    | none => exact never head
    | some mod =>
        have keyed := KeyedList.key_of_find found
        cases writes : mod.isRemove with
        | false =>
            exact absurd (keyed ▸ covered _ (mem_writtenKeys (KeyedList.mem_of_find found) writes))
              absent
        | true => cases mod <;> first | rfl | cases writes

/-- A revert keeps the keys unique: the timeline it leaves is cut from the one before. -/
theorem InterfaceUnique.cut (unique : InterfaceUnique api schema timeline written)
    (blockPtrTo : Int) :
    InterfaceUnique api schema (fun t => timeline (min t blockPtrTo)) written := by
  intro key member other shared
  obtain ⟨tabled, never, absent⟩ := unique key member other shared
  exact ⟨tabled, fun t => never _, absent⟩

end Unique

/-- On a layout that tracks a timeline in which the keys a block writes are unique, the block's
keys are clear on the tables and apart. -/
theorem Layout.Tracks.interfaceFree {deployment : String}
    {timeline : Int → EntityKey → Option Entity} {next : Int}
    (tracks : layout.Tracks deployment timeline next) {mods : List EntityModification}
    (ofDeployment : ∀ mod ∈ mods, mod.entityKey.subgraphId = deployment)
    {written : List EntityKey} (unique : InterfaceUnique api layout.schema timeline written)
    (covered : ∀ key ∈ writtenKeys mods, key ∈ written) :
    InterfaceFree api (KeyedList.find Table.object layout.tables) mods ∧
      InterfaceApart api mods := by
  constructor
  · intro mod member writes other shared
    obtain ⟨tabled, never, -⟩ :=
      unique _ (covered _ (mem_writtenKeys member writes)) other shared
    obtain ⟨table, found⟩ := Layout.find_of_schema tabled
    refine ⟨table, found, fun row rowMember same => ?_⟩
    have holds := (tracks table (KeyedList.mem_of_find found)).eq_some_of_mem rowMember
    have keyed : { mod.entityKey with entityType := other } =
        ⟨deployment, table.object, row.id⟩ :=
      EntityKey.ext (ofDeployment mod member) (KeyedList.key_of_find found).symm same.symm
    rw [tableTimeline, tableEntities, ← keyed, never] at holds
    cases holds
  · intro mod member other otherMember writes otherWrites shared same
    obtain ⟨-, -, absent⟩ :=
      unique _ (covered _ (mem_writtenKeys member writes)) _ shared
    have keyed : { mod.entityKey with entityType := other.entityKey.entityType } =
        other.entityKey :=
      EntityKey.ext ((ofDeployment mod member).trans (ofDeployment other otherMember).symm) rfl
        same.symm
    rw [keyed] at absent
    exact absent (covered _ (mem_writtenKeys otherMember otherWrites))

end Interfaces

/-! ## The passes of `apply_entity_modifications` -/

/-- What a pass of the inserts does to the table of its type, with the change in `count_query`
less the rows it reports. -/
def insertEdit (block : Int) (group : String × List (EntityKey × Entity))
    (current : Table Entity) : Except StoreError (Table Entity × Int) := do
  let (inserted, ids) ← current.insertQuery
    (group.2.map fun entity => (entity.1.entityId, entity.2)) block
  let edited : Table Entity := { current with rows := inserted.rows }
  pure (edited, (edited.countQuery : Int) - current.countQuery - ids.length)

/-- What a pass of the overwrites does to the table of its type, with the change in
`count_query`. -/
def overwriteEdit (block : Int) (group : String × List (EntityKey × Entity))
    (current : Table Entity) : Except StoreError (Table Entity × Int) := do
  let (clamped, _) ← current.clampRangeQuery (group.2.map fun entity => entity.1.entityId) block
  let (inserted, _) ← clamped.insertQuery
    (group.2.map fun entity => (entity.1.entityId, entity.2)) block
  let edited : Table Entity := { current with rows := inserted.rows }
  pure (edited, (edited.countQuery : Int) - current.countQuery)

/-- What a pass of the removals does to the table of its type, with the change in `count_query`
plus the versions it reports clamped. -/
def removeEdit (block : Int) (group : String × List String) (current : Table Entity) :
    Except StoreError (Table Entity × Int) := do
  let (clamped, removed) ← current.clampRangeQuery group.2 block
  let edited : Table Entity := { current with rows := clamped.rows }
  pure (edited, (edited.countQuery : Int) - current.countQuery + removed)

theorem immutable_eq_false_of_clampRangeQuery {table : Table Entity} {entityIds : List String}
    {block : Int} {result : Table Entity × Nat}
    (clamped : table.clampRangeQuery entityIds block = .ok result) : table.immutable = false := by
  unfold Table.clampRangeQuery at clamped
  cases immutable : table.immutable
  · rfl
  · rw [if_pos immutable] at clamped
    cases clamped

/-- A pass of the inserts edits the table of its type as `insertEdit` does, where the keys of its
group are clear. -/
theorem editsAtWhen_insertGroup (api : InterfaceSchema) (block : Int) :
    MapFold.EditsAtWhen (fun tables group => ∀ entity ∈ group.2, InterfaceClear api tables entity.1)
      (insertGroup api block) Prod.fst
      (fun state entityType => KeyedList.find Table.object state.1.tables entityType)
      (fun state => state.1.countQuery - state.2) (insertEdit block) := by
  intro state group current edited amount clear found succeeded
  unfold insertEdit at succeeded
  cases inserted : current.insertQuery
      (group.2.map fun entity => (entity.1.entityId, entity.2)) block with
  | error => simp [inserted, bind, Except.bind] at succeeded
  | ok result =>
      obtain ⟨insertedTable, ids⟩ := result
      simp only [inserted, bind, Except.bind, pure, Except.pure, Except.ok.injEq,
        Prod.mk.injEq] at succeeded
      obtain ⟨rfl, rfl⟩ := succeeded
      refine ⟨(state.1.replace group.1 insertedTable, state.2 + ids.length), ?_, ?_,
        fun k other => ?_, ?_⟩
      · simp [insertGroup, insertEntities, forM_checkInterfaceEntityUniqueness clear, Layout.insert,
          Layout.tableForEntity_of_find found, inserted, bind, Except.bind, pure, Except.pure]
      · simp [Layout.find_replace, found]
      · simp [Layout.find_replace, Ne.symm other]
      · dsimp only
        rw [Layout.countQuery_replace found]
        ring

/-- A pass of the overwrites edits the table of its type as `overwriteEdit` does, where the keys
of its group are clear. -/
theorem editsAtWhen_overwriteGroup (api : InterfaceSchema) (block : Int) :
    MapFold.EditsAtWhen (fun tables group => ∀ entity ∈ group.2, InterfaceClear api tables entity.1)
      (overwriteGroup api block) Prod.fst
      (fun layout entityType => KeyedList.find Table.object layout.tables entityType)
      Layout.countQuery (overwriteEdit block) := by
  intro layout group current edited amount clear found succeeded
  unfold overwriteEdit at succeeded
  cases clamped : current.clampRangeQuery (group.2.map fun entity => entity.1.entityId) block with
  | error => simp [clamped, bind, Except.bind] at succeeded
  | ok clampResult =>
      obtain ⟨clampedTable, count⟩ := clampResult
      cases inserted : clampedTable.insertQuery
          (group.2.map fun entity => (entity.1.entityId, entity.2)) block with
      | error => simp [clamped, inserted, bind, Except.bind] at succeeded
      | ok result =>
          obtain ⟨insertedTable, ids⟩ := result
          simp only [clamped, inserted, bind, Except.bind, pure, Except.pure, Except.ok.injEq,
            Prod.mk.injEq] at succeeded
          obtain ⟨rfl, rfl⟩ := succeeded
          have mutable := immutable_eq_false_of_clampRangeQuery clamped
          refine ⟨layout.replace group.1 insertedTable, ?_, ?_, fun k other => ?_, ?_⟩
          · simp [overwriteGroup, overwriteEntities, forM_checkInterfaceEntityUniqueness clear,
              Layout.update, Layout.tableForEntity_of_find found, mutable, clamped, inserted, bind,
              Except.bind, pure, Except.pure]
          · simp [Layout.find_replace, found]
          · simp [Layout.find_replace, Ne.symm other]
          · rw [Layout.countQuery_replace found]

/-- A pass of the removals edits the table of its type as `removeEdit` does. -/
theorem editsAt_removeGroup (block : Int) :
    MapFold.EditsAt (removeGroup block) Prod.fst
      (fun state entityType => KeyedList.find Table.object state.1.tables entityType)
      (fun state => state.1.countQuery - state.2) (removeEdit block) := by
  intro state group current edited amount found succeeded
  unfold removeEdit at succeeded
  cases clamped : current.clampRangeQuery group.2 block with
  | error => simp [clamped, bind, Except.bind] at succeeded
  | ok result =>
      obtain ⟨clampedTable, removed⟩ := result
      simp only [clamped, bind, Except.bind, pure, Except.pure, Except.ok.injEq,
        Prod.mk.injEq] at succeeded
      obtain ⟨rfl, rfl⟩ := succeeded
      have mutable := immutable_eq_false_of_clampRangeQuery clamped
      refine ⟨(state.1.replace group.1 clampedTable, state.2 - removed), ?_, ?_,
        fun k other => ?_, ?_⟩
      · simp [removeGroup, removeEntities, Layout.delete, Layout.tableForEntity_of_find found,
          mutable, clamped, bind, Except.bind, pure, Except.pure]
      · simp [Layout.find_replace, found]
      · simp [Layout.find_replace, Ne.symm other]
      · dsimp only
        rw [Layout.countQuery_replace found]
        ring

/-- A block `apply_entity_modifications` is given on top of the entities `present` of a deployment
with tables `schema`: at most one modification of each key, all of the deployment and of types
with a table, inserts of absent entities, and overwrites and removals of present entities of
mutable types. -/
structure ValidBlock (schema : String → Option Bool) (deployment : String)
    (present : EntityKey → Option Entity) (mods : List EntityModification) : Prop where
  distinct : (mods.map entityKey).Nodup
  ofDeployment : ∀ mod ∈ mods, mod.entityKey.subgraphId = deployment
  hasTable : ∀ mod ∈ mods, schema mod.entityKey.entityType ≠ none
  mutable : ∀ mod ∈ mods, mod.isInsert = false → schema mod.entityKey.entityType = some false
  absent : ∀ mod ∈ mods, mod.isInsert = true → present mod.entityKey = none
  present : ∀ mod ∈ mods, mod.isInsert = false → present mod.entityKey ≠ none

section Passes

variable {deployment : String} {state : Int → EntityKey → Option Entity} {block : Int}
  {present : EntityKey → Option Entity} {mods : List EntityModification}
  {schema : String → Option Bool}

/-- A value filed under `entityType` is filed by one of the block's modifications. -/
theorem mem_filed {β : Type} {entryOf : EntityModification → Option (String × β)}
    {entityType : String} {value : β} (member : value ∈ (mods.filterMap entryOf).filterMap
      fun entry => if entry.1 = entityType then some entry.2 else none) :
    ∃ mod ∈ mods, entryOf mod = some (entityType, value) := by
  obtain ⟨entry, entryMember, selected⟩ := List.mem_filterMap.mp member
  obtain ⟨mod, modMember, filedAt⟩ := List.mem_filterMap.mp entryMember
  have typed : entry.1 = entityType := by
    by_contra other
    simp [other] at selected
  have valued : entry.2 = value := by simpa [typed] using selected
  exact ⟨mod, modMember, by rw [filedAt, ← typed, ← valued]⟩

/-- A value filed under `entityType` is filed by the modification of its key. -/
theorem find_of_mem_filed {β : Type} {entryOf : EntityModification → Option (String × β)}
    (idOf : β → String)
    (filed : ∀ mod entry, entryOf mod = some entry →
      mod.entityKey.entityType = entry.1 ∧ mod.entityKey.entityId = idOf entry.2)
    (distinct : (mods.map entityKey).Nodup)
    (ofDeployment : ∀ mod ∈ mods, mod.entityKey.subgraphId = deployment) ⦃entityType : String⦄
    ⦃value : β⦄ (member : value ∈ (mods.filterMap entryOf).filterMap fun entry =>
      if entry.1 = entityType then some entry.2 else none) :
    ∃ mod, KeyedList.find entityKey mods ⟨deployment, entityType, idOf value⟩ = some mod ∧
      entryOf mod = some (entityType, value) := by
  obtain ⟨mod, modMember, filedAt⟩ := mem_filed member
  obtain ⟨modType, modId⟩ := filed mod _ filedAt
  have key : mod.entityKey = ⟨deployment, entityType, idOf value⟩ := by
    apply EntityKey.ext
    · exact ofDeployment mod modMember
    · exact modType
    · exact modId
  exact ⟨mod, key ▸ KeyedList.find_of_mem distinct modMember, filedAt⟩

/-- The insert pass of a valid block succeeds, adding a version from the block on per entity. -/
theorem Table.Writing.insertPass {table : Table Entity} {values : List (EntityKey × Entity)}
    (writing : table.Writing deployment state block present fun _ => false)
    (valid : ValidBlock schema deployment present mods) (belowMax : block ≤ blockNumberMax)
    (member : (table.object, values) ∈ (MapFold.group (mods.filterMap insertEntry) :
      Std.ExtTreeMap String (List (EntityKey × Entity)) compare).toList) :
    insertEdit block (table.object, values) table = .ok ({ table with
      rows := table.rows ++ Table.insertedRows (values.map fun value =>
        (value.1.entityId, value.2)) block }, 0) ∧
    Table.Writing { table with
        rows := table.rows ++ Table.insertedRows (values.map fun value =>
          (value.1.entityId, value.2)) block }
      deployment state block (applyPhase isInsert mods present)
      fun key => (KeyedList.find entityKey mods key).any isInsert := by
  have filedValues := MapFold.eq_of_mem_toList_group member
  have filedBy := find_of_mem_filed (fun value : EntityKey × Entity => value.1.entityId)
    insertEntry_filed valid.distinct valid.ofDeployment
  have distinctIds : KeyedList.Distinct Prod.fst
      (values.map fun value => (value.1.entityId, value.2)) := by
    have ids := distinct_filed (fun value : EntityKey × Entity => value.1.entityId)
      insertEntry_filed valid.distinct valid.ofDeployment table.object
    rw [← filedValues] at ids
    unfold KeyedList.Distinct at ids ⊢
    rwa [List.map_map]
  have timeline := writing.tracks
  rw [tableTimeline_changeFrom] at timeline
  have fresh : ∀ entity ∈ values.map fun value => (value.1.entityId, value.2),
      Table.changeFrom (tableTimeline state deployment table.object) block
        (tableEntities present deployment table.object) block entity.1 = none := by
    intro entity entityMember
    obtain ⟨value, valueMember, rfl⟩ := List.mem_map.mp entityMember
    obtain ⟨mod, found, filedAt⟩ := filedBy (filedValues ▸ valueMember)
    have absent := valid.absent mod (KeyedList.mem_of_find found)
      (isInsert_of_insertEntry filedAt)
    rw [KeyedList.key_of_find found] at absent
    simpa [tableEntities] using absent
  obtain ⟨queried, tracked⟩ := timeline.insertQuery distinctIds fresh
  have counted := timeline.countQuery_insertedRows belowMax distinctIds fresh
  constructor
  · simp only [insertEdit, queried, bind, Except.bind, pure, Except.pure]
    simp [counted]
  · constructor
    · rw [tableTimeline_changeFrom]
      show Table.Tracks _ (Table.changeFrom (tableTimeline state deployment table.object) block
        (tableEntities (applyPhase isInsert mods present) deployment table.object)) block
      rw [← setAll_inserts valid.distinct valid.ofDeployment member present]
      simpa using tracked
    · intro row rowMember late
      rcases List.mem_append.mp rowMember with old | new
      · exact absurd (writing.started row old late) (by simp)
      · obtain ⟨entity, entityMember, rfl⟩ := List.mem_map.mp new
        obtain ⟨value, valueMember, rfl⟩ := List.mem_map.mp entityMember
        obtain ⟨mod, found, filedAt⟩ := filedBy (filedValues ▸ valueMember)
        rw [found]
        exact isInsert_of_insertEntry filedAt

/-- The overwrite pass of a valid block succeeds, ending the ids' current versions and adding the
new ones. -/
theorem Table.Writing.overwritePass {table : Table Entity} {values : List (EntityKey × Entity)}
    (writing : table.Writing deployment state block (applyPhase isInsert mods present)
      fun key => (KeyedList.find entityKey mods key).any isInsert)
    (valid : ValidBlock schema deployment present mods) (mutable : table.immutable = false)
    (belowMax : block ≤ blockNumberMax)
    (member : (table.object, values) ∈ (MapFold.group (mods.filterMap overwriteEntry) :
      Std.ExtTreeMap String (List (EntityKey × Entity)) compare).toList) :
    overwriteEdit block (table.object, values) table = .ok ({ table with
      rows := Table.clampedRows table.rows (values.map fun value => value.1.entityId) block ++
        Table.insertedRows (values.map fun value => (value.1.entityId, value.2)) block }, 0) ∧
    Table.Writing { table with
        rows := Table.clampedRows table.rows (values.map fun value => value.1.entityId) block ++
          Table.insertedRows (values.map fun value => (value.1.entityId, value.2)) block }
      deployment state block (applyPhase isOverwrite mods (applyPhase isInsert mods present))
      fun key => (KeyedList.find entityKey mods key).any fun mod => !mod.isRemove := by
  have filedValues := MapFold.eq_of_mem_toList_group member
  have filedBy := find_of_mem_filed (fun value : EntityKey × Entity => value.1.entityId)
    overwriteEntry_filed valid.distinct valid.ofDeployment
  have distinctIds : (values.map fun value => value.1.entityId).Nodup := by
    have ids := distinct_filed (fun value : EntityKey × Entity => value.1.entityId)
      overwriteEntry_filed valid.distinct valid.ofDeployment table.object
    rwa [← filedValues] at ids
  have distinctEntities : KeyedList.Distinct Prod.fst
      (values.map fun value => (value.1.entityId, value.2)) := by
    unfold KeyedList.Distinct
    rwa [List.map_map]
  have overwritten : ∀ id ∈ values.map fun value => value.1.entityId, ∃ mod,
      KeyedList.find entityKey mods ⟨deployment, table.object, id⟩ = some mod ∧
        mod.isInsert = false ∧ mod.isRemove = false := by
    intro id listed
    obtain ⟨value, valueMember, rfl⟩ := List.mem_map.mp listed
    obtain ⟨mod, found, filedAt⟩ := filedBy (filedValues ▸ valueMember)
    exact ⟨mod, found, kind_of_overwriteEntry filedAt⟩
  have timeline := writing.tracks
  rw [tableTimeline_changeFrom] at timeline
  have started := writing.started_of_unwritten fun id listed => by
    obtain ⟨mod, found, inserting, _⟩ := overwritten id listed
    simp [found, inserting]
  have present' : ∀ id ∈ values.map fun value => value.1.entityId,
      Table.changeFrom (tableTimeline state deployment table.object) block
        (tableEntities (applyPhase isInsert mods present) deployment table.object) block id ≠
        none := by
    intro id listed
    obtain ⟨mod, found, inserting, _⟩ := overwritten id listed
    rw [Table.changeFrom_at]
    unfold tableEntities
    rw [applyPhase_of_find found inserting, ← KeyedList.key_of_find found]
    exact valid.present mod (KeyedList.mem_of_find found) inserting
  obtain ⟨clampQueried, clampTracked⟩ :=
    timeline.clampRangeQuery mutable belowMax (values.map fun value => value.1.entityId) started
  simp only [Table.changeFrom_changeFrom, Table.changeFrom_at] at clampTracked
  have fresh : ∀ entity ∈ values.map fun value => (value.1.entityId, value.2),
      Table.changeFrom (tableTimeline state deployment table.object) block
        (Table.removeAll (values.map fun value => value.1.entityId)
          (tableEntities (applyPhase isInsert mods present) deployment table.object)) block
        entity.1 = none := by
    intro entity entityMember
    obtain ⟨value, valueMember, rfl⟩ := List.mem_map.mp entityMember
    simp [Table.removeAll, List.mem_map_of_mem valueMember]
  obtain ⟨insertQueried, insertTracked⟩ := clampTracked.insertQuery distinctEntities fresh
  have clampCount := timeline.countQuery_clampedRows mutable belowMax _ started
  have current := timeline.length_current distinctIds present'
  have insertCount := clampTracked.countQuery_insertedRows belowMax distinctEntities fresh
  constructor
  · simp only [overwriteEdit, clampQueried, insertQueried, bind, Except.bind, pure, Except.pure]
    have same : (({ table with
        rows := Table.clampedRows table.rows (values.map fun value => value.1.entityId) block ++
          Table.insertedRows (values.map fun value => (value.1.entityId, value.2)) block } :
        Table Entity).countQuery : Int) = table.countQuery := by
      have := insertCount
      simp only [List.length_map] at current this
      omega
    simp [same]
  · constructor
    · rw [tableTimeline_changeFrom]
      show Table.Tracks _ (Table.changeFrom (tableTimeline state deployment table.object) block
        (tableEntities (applyPhase isOverwrite mods (applyPhase isInsert mods present)) deployment
          table.object)) block
      have ids : (values.map fun value => (value.1.entityId, value.2)).map Prod.fst =
          values.map fun value => value.1.entityId := by
        rw [List.map_map]
        rfl
      rw [← setAll_overwrites valid.distinct valid.ofDeployment member,
        ← Table.setAll_removeAll, ids]
      simpa only [Table.changeFrom_changeFrom, Table.changeFrom_at] using insertTracked
    · intro row rowMember late
      rcases List.mem_append.mp rowMember with old | new
      · obtain ⟨original, originalMember, rfl⟩ := List.mem_map.mp old
        have kept : block ≤ original.blockRange.lower := by
          split at late <;> simpa using late
        have written := writing.started original originalMember kept
        have sameId : (if (values.map (fun value => value.1.entityId)).contains original.id &&
            original.blockRange.upper.isNone then
              { original with blockRange := original.blockRange.clamp block }
            else original).id = original.id := by
          split <;> rfl
        rw [sameId]
        cases found : KeyedList.find entityKey mods ⟨deployment, table.object, original.id⟩ with
        | none => simp [found] at written
        | some mod =>
            have inserting : mod.isInsert = true := by simpa [found] using written
            simp [isRemove_eq_false_of_isInsert inserting]
      · obtain ⟨entity, entityMember, rfl⟩ := List.mem_map.mp new
        obtain ⟨value, valueMember, rfl⟩ := List.mem_map.mp entityMember
        obtain ⟨mod, found, _, removing⟩ :=
          overwritten value.1.entityId (List.mem_map_of_mem valueMember)
        simp [found, removing]

/-- The removal pass of a valid block succeeds, ending the ids' current versions. -/
theorem Table.Writing.removePass {table : Table Entity} {values : List String}
    (writing : table.Writing deployment state block
      (applyPhase isOverwrite mods (applyPhase isInsert mods present))
      fun key => (KeyedList.find entityKey mods key).any fun mod => !mod.isRemove)
    (valid : ValidBlock schema deployment present mods) (mutable : table.immutable = false)
    (belowMax : block ≤ blockNumberMax)
    (member : (table.object, values) ∈ (MapFold.group (mods.filterMap removalEntry) :
      Std.ExtTreeMap String (List String) compare).toList) :
    removeEdit block (table.object, values) table =
      .ok ({ table with rows := Table.clampedRows table.rows values block }, 0) ∧
    Table.Tracks { table with rows := Table.clampedRows table.rows values block }
      (tableTimeline (Table.changeFrom state block (applyPhase isRemove mods
        (applyPhase isOverwrite mods (applyPhase isInsert mods present)))) deployment
        table.object) block := by
  have filedValues := MapFold.eq_of_mem_toList_group member
  have filedBy := find_of_mem_filed (fun value : String => value) removalEntry_filed
    valid.distinct valid.ofDeployment
  have distinctIds : values.Nodup := by
    have ids := distinct_filed (fun value : String => value) removalEntry_filed valid.distinct
      valid.ofDeployment table.object
    rw [← filedValues] at ids
    simpa [KeyedList.Distinct] using ids
  have removed : ∀ id ∈ values, ∃ mod,
      KeyedList.find entityKey mods ⟨deployment, table.object, id⟩ = some mod ∧
        mod.isRemove = true ∧ mod.isInsert = false ∧ mod.isOverwrite = false := by
    intro id listed
    obtain ⟨mod, found, filedAt⟩ := filedBy (filedValues ▸ listed)
    exact ⟨mod, found, kind_of_removalEntry filedAt⟩
  have timeline := writing.tracks
  rw [tableTimeline_changeFrom] at timeline
  have started := writing.started_of_unwritten fun id listed => by
    obtain ⟨mod, found, removing, _⟩ := removed id listed
    simp [found, removing]
  have present' : ∀ id ∈ values, Table.changeFrom (tableTimeline state deployment table.object)
      block (tableEntities (applyPhase isOverwrite mods (applyPhase isInsert mods present))
        deployment table.object) block id ≠ none := by
    intro id listed
    obtain ⟨mod, found, _, inserting, overwriting⟩ := removed id listed
    rw [Table.changeFrom_at]
    unfold tableEntities
    rw [applyPhase_of_find found overwriting, applyPhase_of_find found inserting,
      ← KeyedList.key_of_find found]
    exact valid.present mod (KeyedList.mem_of_find found) inserting
  obtain ⟨clampQueried, clampTracked⟩ := timeline.clampRangeQuery mutable belowMax values started
  have clampCount := timeline.countQuery_clampedRows mutable belowMax values started
  have current := timeline.length_current distinctIds present'
  constructor
  · simp only [removeEdit, clampQueried, bind, Except.bind, pure, Except.pure]
    have same : (({ table with rows := Table.clampedRows table.rows values block } :
        Table Entity).countQuery : Int) - table.countQuery +
          (table.rows.filter fun row => values.contains row.id &&
            row.blockRange.upper.isNone).length = 0 := by
      omega
    simp only [Except.ok.injEq, Prod.mk.injEq, true_and]
    exact same
  · rw [tableTimeline_changeFrom]
    show Table.Tracks _ (Table.changeFrom (tableTimeline state deployment table.object) block
      (tableEntities (applyPhase isRemove mods (applyPhase isOverwrite mods
        (applyPhase isInsert mods present))) deployment table.object)) block
    rw [← removeAll_removals valid.distinct valid.ofDeployment member]
    simpa only [Table.changeFrom_changeFrom, Table.changeFrom_at] using clampTracked

end Passes

/-! ## The phases of `apply_entity_modifications` -/

section Phases

variable {deployment : String} {state : Int → EntityKey → Option Entity} {block : Int}
  {present : EntityKey → Option Entity} {mods : List EntityModification} {api : InterfaceSchema}

theorem Layout.immutable_of_schema {layout : Layout} {entityType : String} {table : Table Entity}
    (found : KeyedList.find Table.object layout.tables entityType = some table)
    (mutable : layout.schema entityType = some false) : table.immutable = false := by
  simpa [Layout.schema, found] using mutable

/-- A group's entity type is the type of one of the block's modifications of its kind. -/
theorem exists_of_mem_group {β : Type} {entryOf : EntityModification → Option (String × β)}
    {entityType : String} {values : List β}
    (member : (entityType, values) ∈ (MapFold.group (mods.filterMap entryOf) :
      Std.ExtTreeMap String (List β) compare).toList) :
    ∃ mod ∈ mods, ∃ value, entryOf mod = some (entityType, value) := by
  obtain ⟨value, valueMember⟩ :=
    List.exists_mem_of_ne_nil _ (MapFold.ne_nil_of_mem_toList_group member)
  rw [MapFold.eq_of_mem_toList_group member] at valueMember
  obtain ⟨mod, modMember, filedAt⟩ := mem_filed valueMember
  exact ⟨mod, modMember, value, filedAt⟩

theorem writes_of_insertEntry (mod : EntityModification) (entry : String × (EntityKey × Entity))
    (filed : insertEntry mod = some entry) :
    mod.isRemove = false ∧ mod.entityKey = entry.2.1 ∧ entry.1 = entry.2.1.entityType := by
  cases mod with
  | insert key data => cases filed; exact ⟨rfl, rfl, rfl⟩
  | overwrite => cases filed
  | remove => cases filed

theorem writes_of_overwriteEntry (mod : EntityModification)
    (entry : String × (EntityKey × Entity)) (filed : overwriteEntry mod = some entry) :
    mod.isRemove = false ∧ mod.entityKey = entry.2.1 ∧ entry.1 = entry.2.1.entityType := by
  cases mod with
  | overwrite key data => cases filed; exact ⟨rfl, rfl, rfl⟩
  | insert => cases filed
  | remove => cases filed

/-- A value of a group of inserts or overwrites is the key and entity of a modification of the
block that writes, of the group's type. -/
theorem written_of_mem_group {entryOf : EntityModification → Option (String × (EntityKey × Entity))}
    (writes : ∀ mod entry, entryOf mod = some entry →
      mod.isRemove = false ∧ mod.entityKey = entry.2.1 ∧ entry.1 = entry.2.1.entityType)
    {group : String × List (EntityKey × Entity)}
    (member : group ∈ (MapFold.group (mods.filterMap entryOf) :
      Std.ExtTreeMap String (List (EntityKey × Entity)) compare).toList)
    {value : EntityKey × Entity} (listed : value ∈ group.2) :
    ∃ mod ∈ mods, mod.isRemove = false ∧ mod.entityKey = value.1 ∧ value.1.entityType = group.1 := by
  obtain ⟨entityType, values⟩ := group
  rw [MapFold.eq_of_mem_toList_group member] at listed
  obtain ⟨mod, modMember, filedAt⟩ := mem_filed listed
  obtain ⟨written, keyed, typed⟩ := writes mod _ filedAt
  exact ⟨mod, modMember, written, keyed, typed.symm⟩

/-- The keys of every group of a phase that writes are clear where the block's keys are. -/
theorem allowed_of_interfaceFree {entryOf : EntityModification → Option (String × (EntityKey × Entity))}
    (writes : ∀ mod entry, entryOf mod = some entry →
      mod.isRemove = false ∧ mod.entityKey = entry.2.1 ∧ entry.1 = entry.2.1.entityType)
    (tables : String → Option (Table Entity)) (free : InterfaceFree api tables mods)
    (group : String × List (EntityKey × Entity))
    (member : group ∈ (MapFold.group (mods.filterMap entryOf) :
      Std.ExtTreeMap String (List (EntityKey × Entity)) compare).toList) :
    ∀ entity ∈ group.2, InterfaceClear api tables entity.1 := by
  intro entity listed
  obtain ⟨mod, modMember, written, keyed, -⟩ := written_of_mem_group writes member listed
  exact keyed ▸ free mod modMember written

/-- The rows a group of a phase that writes adds have the ids of keys the block writes under the
group's type. -/
theorem written_of_mem_insertedRows
    {entryOf : EntityModification → Option (String × (EntityKey × Entity))}
    (writes : ∀ mod entry, entryOf mod = some entry →
      mod.isRemove = false ∧ mod.entityKey = entry.2.1 ∧ entry.1 = entry.2.1.entityType)
    {group : String × List (EntityKey × Entity)}
    (member : group ∈ (MapFold.group (mods.filterMap entryOf) :
      Std.ExtTreeMap String (List (EntityKey × Entity)) compare).toList)
    {row : Row Entity} (inserted : row ∈ Table.insertedRows (group.2.map fun value =>
      (value.1.entityId, value.2)) block) :
    ∃ mod ∈ mods, mod.isRemove = false ∧ mod.entityKey.entityType = group.1 ∧
      mod.entityKey.entityId = row.id := by
  obtain ⟨entity, entityMember, rfl⟩ := List.mem_map.mp inserted
  obtain ⟨value, valueMember, rfl⟩ := List.mem_map.mp entityMember
  obtain ⟨mod, modMember, written, keyed, typed⟩ := written_of_mem_group writes member valueMember
  exact ⟨mod, modMember, written, keyed ▸ typed, by rw [keyed]⟩

/-- The entities of a type no group of a phase is filed under are left as they are. -/
theorem tableEntities_applyPhase_of_unfiled {β : Type} {phase : EntityModification → Bool}
    {entryOf : EntityModification → Option (String × β)}
    (files : ∀ mod, phase mod = true → ∃ value,
      entryOf mod = some (mod.entityKey.entityType, value))
    {entityType : String}
    (unfiled : (MapFold.group (mods.filterMap entryOf) :
      Std.ExtTreeMap String (List β) compare).toList.find? (fun group => group.1 = entityType) =
        none)
    (present : EntityKey → Option Entity) :
    tableEntities (applyPhase phase mods present) deployment entityType =
      tableEntities present deployment entityType := by
  funext id
  unfold tableEntities applyPhase
  cases found : KeyedList.find entityKey mods ⟨deployment, entityType, id⟩ with
  | none => rfl
  | some mod =>
      cases phased : phase mod with
      | false => simp [phased]
      | true =>
          obtain ⟨value, filedAt⟩ := files mod phased
          rw [KeyedList.key_of_find found] at filedAt
          exact absurd (List.mem_filterMap.mpr ⟨mod, KeyedList.mem_of_find found, filedAt⟩)
            (MapFold.not_mem_of_find?_toList_group unfiled value)

theorem find?_eq_none_of_untouched {β : Type} {groups : List (String × β)} {entityType : String}
    (untouched : ∀ group ∈ groups, group.1 ≠ entityType) :
    groups.find? (fun group => group.1 = entityType) = none :=
  List.find?_eq_none.mpr fun group member same => untouched group member (by simpa using same)

/-- The inserts of a valid block succeed, write the entities the inserts make and grow
`count_query` by the count they report. -/
theorem Layout.insertPhase {layout : Layout} (count : Int)
    (valid : ValidBlock layout.schema deployment present mods) (belowMax : block ≤ blockNumberMax)
    (free : InterfaceFree api (KeyedList.find Table.object layout.tables) mods)
    (apart : InterfaceApart api mods)
    (writing : ∀ table ∈ layout.tables,
      table.Writing deployment state block present fun _ => false) :
    ∃ inserted : Layout × Int,
      (MapFold.group (mods.filterMap insertEntry) :
        Std.ExtTreeMap String (List (EntityKey × Entity)) compare).foldlM
          (fun state entityType entities => insertGroup api block state (entityType, entities))
          (layout, count) = .ok inserted ∧
      inserted.1.countQuery - inserted.2 = layout.countQuery - count ∧
      inserted.1.schema = layout.schema ∧
      InterfaceFree api (KeyedList.find Table.object inserted.1.tables) mods ∧
      ∀ table ∈ inserted.1.tables, table.Writing deployment state block
        (applyPhase isInsert mods present) fun key => (KeyedList.find entityKey mods key).any isInsert := by
  rw [Std.ExtTreeMap.foldlM_eq_foldlM_toList]
  have succeeds : ∀ group ∈ (MapFold.group (mods.filterMap insertEntry) :
      Std.ExtTreeMap String (List (EntityKey × Entity)) compare).toList, ∃ current,
      KeyedList.find Table.object layout.tables group.1 = some current ∧
      insertEdit block group current = .ok ({ current with
        rows := current.rows ++ Table.insertedRows (group.2.map fun value =>
          (value.1.entityId, value.2)) block }, 0) := by
    rintro ⟨entityType, values⟩ member
    obtain ⟨mod, modMember, _, filedAt⟩ := exists_of_mem_group member
    obtain ⟨current, found⟩ := Layout.find_of_schema
      ((insertEntry_filed mod _ filedAt).1 ▸ valid.hasTable mod modMember)
    have typed : current.object = entityType := KeyedList.key_of_find found
    have pass := (writing current (KeyedList.mem_of_find found)).insertPass valid belowMax
      (typed ▸ member)
    exact ⟨current, found, typed ▸ pass.1⟩
  obtain ⟨inserted, folded, total, reads, kept⟩ := MapFold.foldlM_of_editsAtWhen
    (editsAtWhen_insertGroup api block) _ (fun _ => 0) _ (MapFold.nodup_keys_toList _)
    (fun tables => InterfaceFree api tables mods)
    (fun tables held => allowed_of_interfaceFree writes_of_insertEntry tables held)
    (fun tables held group member current found => held.update apart found fun row rowMember =>
      (List.mem_append.mp rowMember).imp (fun old => ⟨row, old, rfl⟩)
        (written_of_mem_insertedRows writes_of_insertEntry member))
    (layout, count) free succeeds
  refine ⟨inserted, folded, by simpa using total, Layout.schema_of_reads reads fun _ _ => rfl,
    kept, Layout.forall_of_reads reads ?_ ?_⟩
  · intro table member untouched
    exact (writing table member).untouched
      (tableEntities_applyPhase_of_unfiled (fun mod inserting => by
          cases mod <;> first | exact ⟨_, rfl⟩ | cases inserting)
        (find?_eq_none_of_untouched untouched) present)
      (fun _ never => absurd never (by simp))
  · rintro ⟨entityType, values⟩ groupMember table member typed
    exact ((writing table member).insertPass valid belowMax (typed ▸ groupMember)).2

/-- The overwrites of a valid block, after its inserts, succeed, write the entities the
overwrites make and leave `count_query` as it was. -/
theorem Layout.overwritePhase {layout : Layout}
    (valid : ValidBlock layout.schema deployment present mods) (belowMax : block ≤ blockNumberMax)
    (free : InterfaceFree api (KeyedList.find Table.object layout.tables) mods)
    (apart : InterfaceApart api mods)
    (writing : ∀ table ∈ layout.tables, table.Writing deployment state block
      (applyPhase isInsert mods present) fun key => (KeyedList.find entityKey mods key).any isInsert) :
    ∃ overwritten : Layout,
      (MapFold.group (mods.filterMap overwriteEntry) :
        Std.ExtTreeMap String (List (EntityKey × Entity)) compare).foldlM
          (fun layout entityType entities => overwriteGroup api block layout (entityType, entities))
          layout = .ok overwritten ∧
      overwritten.countQuery = layout.countQuery ∧ overwritten.schema = layout.schema ∧
      ∀ table ∈ overwritten.tables, table.Writing deployment state block
        (applyPhase isOverwrite mods (applyPhase isInsert mods present))
        fun key => (KeyedList.find entityKey mods key).any fun mod => !mod.isRemove := by
  rw [Std.ExtTreeMap.foldlM_eq_foldlM_toList]
  have mutable : ∀ entityType values, (entityType, values) ∈ (MapFold.group
      (mods.filterMap overwriteEntry) :
        Std.ExtTreeMap String (List (EntityKey × Entity)) compare).toList →
      ∀ table, KeyedList.find Table.object layout.tables entityType = some table →
        table.immutable = false := by
    intro entityType values member table found
    obtain ⟨mod, modMember, _, filedAt⟩ := exists_of_mem_group member
    have typed : mod.entityKey.entityType = entityType := (overwriteEntry_filed mod _ filedAt).1
    exact Layout.immutable_of_schema found (typed ▸ valid.mutable mod modMember (kind_of_overwriteEntry filedAt).1)
  have succeeds : ∀ group ∈ (MapFold.group (mods.filterMap overwriteEntry) :
      Std.ExtTreeMap String (List (EntityKey × Entity)) compare).toList, ∃ current,
      KeyedList.find Table.object layout.tables group.1 = some current ∧
      overwriteEdit block group current = .ok ({ current with
        rows := Table.clampedRows current.rows (group.2.map fun value => value.1.entityId) block ++
          Table.insertedRows (group.2.map fun value => (value.1.entityId, value.2)) block }, 0) := by
    rintro ⟨entityType, values⟩ member
    obtain ⟨mod, modMember, _, filedAt⟩ := exists_of_mem_group member
    obtain ⟨current, found⟩ := Layout.find_of_schema
      ((overwriteEntry_filed mod _ filedAt).1 ▸ valid.hasTable mod modMember)
    have typed : current.object = entityType := KeyedList.key_of_find found
    have pass := (writing current (KeyedList.mem_of_find found)).overwritePass valid
      (mutable entityType values member current found) belowMax (typed ▸ member)
    exact ⟨current, found, typed ▸ pass.1⟩
  obtain ⟨overwritten, folded, total, reads, -⟩ := MapFold.foldlM_of_editsAtWhen
    (editsAtWhen_overwriteGroup api block) _ (fun _ => 0) _ (MapFold.nodup_keys_toList _)
    (fun tables => InterfaceFree api tables mods)
    (fun tables held => allowed_of_interfaceFree writes_of_overwriteEntry tables held)
    (fun tables held group member current found => held.update apart found fun row rowMember =>
      (List.mem_append.mp rowMember).imp (Table.exists_of_mem_clampedRows)
        (written_of_mem_insertedRows writes_of_overwriteEntry member))
    layout free succeeds
  refine ⟨overwritten, folded, by simpa using total, Layout.schema_of_reads reads fun _ _ => rfl,
    Layout.forall_of_reads reads ?_ ?_⟩
  · intro table member untouched
    refine (writing table member).untouched
      (tableEntities_applyPhase_of_unfiled (fun mod overwriting => by
          cases mod <;> first | exact ⟨_, rfl⟩ | cases overwriting)
        (find?_eq_none_of_untouched untouched) _) fun key written => ?_
    cases found : KeyedList.find entityKey mods key with
    | none => simp [found] at written
    | some mod =>
        rw [found] at written
        cases mod <;> simp_all [isInsert, isRemove]
  · rintro ⟨entityType, values⟩ groupMember table member typed
    have typed : table.object = entityType := typed
    exact ((writing table member).overwritePass valid (mutable entityType values groupMember table
      (typed ▸ KeyedList.find_of_mem layout.distinct member)) belowMax (typed ▸ groupMember)).2

/-- The removals of a valid block, after its inserts and overwrites, succeed, leave the entities
the block makes, and `count_query` falls by the count they report. -/
theorem Layout.removePhase {layout : Layout} (count : Int)
    (valid : ValidBlock layout.schema deployment present mods) (belowMax : block ≤ blockNumberMax)
    (writing : ∀ table ∈ layout.tables, table.Writing deployment state block
      (applyPhase isOverwrite mods (applyPhase isInsert mods present))
      fun key => (KeyedList.find entityKey mods key).any fun mod => !mod.isRemove) :
    ∃ removed : Layout × Int,
      (MapFold.group (mods.filterMap removalEntry) :
        Std.ExtTreeMap String (List String) compare).foldlM
          (fun state entityType entityIds => removeGroup block state (entityType, entityIds))
          (layout, count) = .ok removed ∧
      removed.1.countQuery - removed.2 = layout.countQuery - count ∧
      removed.1.schema = layout.schema ∧
      removed.1.Tracks deployment (Table.changeFrom state block (applyPhase isRemove mods
        (applyPhase isOverwrite mods (applyPhase isInsert mods present)))) block := by
  rw [Std.ExtTreeMap.foldlM_eq_foldlM_toList]
  have mutable : ∀ entityType values, (entityType, values) ∈ (MapFold.group
      (mods.filterMap removalEntry) : Std.ExtTreeMap String (List String) compare).toList →
      ∀ table, KeyedList.find Table.object layout.tables entityType = some table →
        table.immutable = false := by
    intro entityType values member table found
    obtain ⟨mod, modMember, _, filedAt⟩ := exists_of_mem_group member
    have typed : mod.entityKey.entityType = entityType := (removalEntry_filed mod _ filedAt).1
    exact Layout.immutable_of_schema found (typed ▸ valid.mutable mod modMember (kind_of_removalEntry filedAt).2.1)
  have succeeds : ∀ group ∈ (MapFold.group (mods.filterMap removalEntry) :
      Std.ExtTreeMap String (List String) compare).toList, ∃ current,
      KeyedList.find Table.object layout.tables group.1 = some current ∧
      removeEdit block group current =
        .ok ({ current with rows := Table.clampedRows current.rows group.2 block }, 0) := by
    rintro ⟨entityType, values⟩ member
    obtain ⟨mod, modMember, _, filedAt⟩ := exists_of_mem_group member
    obtain ⟨current, found⟩ := Layout.find_of_schema
      ((removalEntry_filed mod _ filedAt).1 ▸ valid.hasTable mod modMember)
    have typed : current.object = entityType := KeyedList.key_of_find found
    have pass := (writing current (KeyedList.mem_of_find found)).removePass valid
      (mutable entityType values member current found) belowMax (typed ▸ member)
    exact ⟨current, found, typed ▸ pass.1⟩
  obtain ⟨removed, folded, total, reads⟩ := MapFold.foldlM_of_editsAt
    (editsAt_removeGroup block) _ (fun _ => 0) _ (MapFold.nodup_keys_toList _) (layout, count)
    succeeds
  refine ⟨removed, folded, by simpa using total, Layout.schema_of_reads reads fun _ _ => rfl,
    Layout.forall_of_reads reads ?_ ?_⟩
  · intro table member untouched
    exact ((writing table member).untouched
      (tableEntities_applyPhase_of_unfiled (fun mod removing => by
          cases mod <;> first | exact ⟨_, rfl⟩ | cases removing)
        (find?_eq_none_of_untouched untouched) _) fun _ written => written).tracks
  · rintro ⟨entityType, values⟩ groupMember table member typed
    have typed : table.object = entityType := typed
    exact ((writing table member).removePass valid (mutable entityType values groupMember table
      (typed ▸ KeyedList.find_of_mem layout.distinct member)) belowMax (typed ▸ groupMember)).2

end Phases

/-! ## A block -/

/-- The block lemma: `apply_entity_modifications` of a valid block succeeds and keeps the layout
tracking the timeline with the block made. -/
theorem Layout.Tracks.applyEntityModifications {layout : Layout} {deployment : String}
    {state : Int → EntityKey → Option Entity} {next block : Int} {mods : List EntityModification}
    {api : InterfaceSchema} (tracks : layout.Tracks deployment state next) (advanced : next < block)
    (belowMax : block ≤ blockNumberMax)
    (valid : ValidBlock layout.schema deployment (state next) mods)
    (free : InterfaceFree api (KeyedList.find Table.object layout.tables) mods)
    (apart : InterfaceApart api mods) :
    ∃ layout' count, GraphNode.applyEntityModifications api layout mods block = .ok (layout', count) ∧
      layout'.Tracks deployment
        (Table.changeFrom state block (applyModifications (state next) mods)) block ∧
      layout'.countQuery = layout.countQuery + count ∧ layout'.schema = layout.schema := by
  obtain ⟨inserted, insertFolded, insertTotal, insertSchema, insertFree, insertWriting⟩ :=
    Layout.insertPhase 0 valid belowMax free apart (tracks.writing advanced)
  obtain ⟨overwritten, overwriteFolded, overwriteTotal, overwriteSchema, overwriteWriting⟩ :=
    Layout.overwritePhase (insertSchema ▸ valid) belowMax insertFree apart insertWriting
  obtain ⟨removed, removeFolded, removeTotal, removeSchema, removeTracks⟩ :=
    Layout.removePhase inserted.2 ((overwriteSchema.trans insertSchema) ▸ valid) belowMax
      overwriteWriting
  refine ⟨removed.1, removed.2, ?_, ?_, by omega, by rw [removeSchema, overwriteSchema, insertSchema]⟩
  · unfold GraphNode.applyEntityModifications
    rw [groupModifications_eq]
    simp only [insertFolded, overwriteFolded, removeFolded, bind, Except.bind]
  · rw [← applyPhase_all valid.distinct]
    exact removeTracks

/-! ## Reverting and reading -/

/-- What the loop body of `Layout::revert_block` does to the table of its type: the rows the
layout's table reverts to, with the change in `count_query` less the count it reports. -/
def revertEdit (block : Int) (table current : Table Entity) :
    Except StoreError (Table Entity × Int) := do
  let (updated, tableCount) ← table.revertBlock block
  let edited : Table Entity := { current with rows := updated.rows }
  pure (edited, (edited.countQuery : Int) - current.countQuery - tableCount)

/-- The loop body of `Layout::revert_block` edits the table of its type as `revertEdit` does. -/
theorem editsAt_revertTable (block : Int) :
    MapFold.EditsAt (Layout.revertTable block) Table.object
      (fun state entityType => KeyedList.find Table.object state.1.tables entityType)
      (fun state => state.1.countQuery - state.2) (revertEdit block) := by
  intro state table current edited amount found succeeded
  unfold revertEdit at succeeded
  cases reverted : table.revertBlock block with
  | error => simp [reverted, bind, Except.bind] at succeeded
  | ok result =>
      obtain ⟨updated, tableCount⟩ := result
      simp only [reverted, bind, Except.bind, pure, Except.pure, Except.ok.injEq,
        Prod.mk.injEq] at succeeded
      obtain ⟨rfl, rfl⟩ := succeeded
      refine ⟨(state.1.replace table.object updated, state.2 + tableCount), ?_, ?_,
        fun k other => ?_, ?_⟩
      · simp [Layout.revertTable, reverted, bind, Except.bind, pure, Except.pure]
      · simp [Layout.find_replace, found]
      · simp [Layout.find_replace, Ne.symm other]
      · dsimp only
        rw [Layout.countQuery_replace found]
        ring

section Reverting

variable {layout : Layout} {deployment : String} {state : Int → EntityKey → Option Entity}
  {next : Int}

/-- Each table of a layout tracked below `BLOCK_NUMBER_MAX` reverts as `revertEdit` says, to
`revertedRows`. -/
theorem Layout.Tracks.revertEdit (tracks : layout.Tracks deployment state next)
    (belowMax : next < blockNumberMax) (block : Int) {table : Table Entity}
    (member : table ∈ layout.tables) :
    revertEdit block table table = .ok ({ table with rows := Table.revertedRows table.rows block },
      ((({ table with rows := Table.revertedRows table.rows block } : Table Entity).countQuery :
        Int) - table.countQuery - Table.revertCount table.rows block)) := by
  have ended : ∀ row ∈ table.rows, ∀ upper ∈ row.blockRange.upper, upper < blockNumberMax :=
    fun row rowMember upper bounded =>
      lt_of_le_of_lt ((tracks table member).upper_le row rowMember upper bounded) belowMax
  simp [GraphNode.revertEdit, (tracks table member).revertBlock ended block, bind, Except.bind,
    pure, Except.pure]

/-- `Layout::revert_block` on a tracking layout succeeds and tracks the timeline cut at the block
before. -/
theorem Layout.Tracks.revertBlock (tracks : layout.Tracks deployment state next)
    (belowMax : next < blockNumberMax) (block : Int) :
    ∃ layout' count, layout.revertBlock block = .ok (layout', count) ∧
      layout'.Tracks deployment (fun t => state (min t (block - 1))) (min (block - 1) next) ∧
      layout'.schema = layout.schema ∧
      (next ≤ block → layout'.countQuery = layout.countQuery + count) := by
  have succeeds : ∀ table ∈ layout.tables, ∃ current,
      KeyedList.find Table.object layout.tables table.object = some current ∧
      GraphNode.revertEdit block table current =
        .ok ({ current with rows := Table.revertedRows table.rows block },
          ((({ table with rows := Table.revertedRows table.rows block } : Table Entity).countQuery :
            Int) - table.countQuery - Table.revertCount table.rows block)) :=
    fun table member => ⟨table, KeyedList.find_of_mem layout.distinct member,
      tracks.revertEdit belowMax block member⟩
  obtain ⟨reverted, folded, total, reads⟩ := MapFold.foldlM_of_editsAt (editsAt_revertTable block)
    _ _ layout.tables layout.distinct (layout, 0) succeeds
  refine ⟨reverted.1, reverted.2, folded, ?_, Layout.schema_of_reads reads fun _ _ => rfl, ?_⟩
  · -- every table is an entry of the loop, so each reverts its own rows
    refine Layout.forall_of_reads reads
      (fun table member untouched => absurd rfl (untouched table member)) ?_
    intro table member current currentMember typed
    have same : current = table := Option.some.inj
      ((KeyedList.find_of_mem layout.distinct currentMember).symm.trans
        (typed ▸ KeyedList.find_of_mem layout.distinct member))
    subst same
    exact (tracks current member).reverted block
  · intro last
    have unchanged : ∀ amount ∈ layout.tables.map fun table =>
        ((({ table with rows := Table.revertedRows table.rows block } : Table Entity).countQuery :
          Int) - table.countQuery - Table.revertCount table.rows block), amount = 0 := by
      simp only [List.mem_map]
      rintro _ ⟨table, member, rfl⟩
      have counted := (tracks table member).countQuery_revertedRows belowMax.le last
      omega
    rw [List.sum_eq_zero unchanged] at total
    simp only [Layout.countQuery, Int.sub_zero, add_zero] at total ⊢
    omega

/-- On a tracking layout, `Layout::find` reads the timeline at every block. -/
theorem Layout.Tracks.find (tracks : layout.Tracks deployment state next)
    (belowMax : next ≤ blockNumberMax) {entityType : String} {table : Table Entity}
    (found : KeyedList.find Table.object layout.tables entityType = some table) (id : String)
    (t : Int) : layout.find entityType id t = .ok (state t ⟨deployment, entityType, id⟩) := by
  have typed : table.object = entityType := KeyedList.key_of_find found
  have read := (tracks table (KeyedList.mem_of_find found)).findQuery belowMax id t
  rw [typed] at read
  simp only [Layout.find, Layout.tableForEntity_of_find found, bind, Except.bind, pure,
    Except.pure, ← List.head?_map, read, tableTimeline, tableEntities]
  cases state t ⟨deployment, entityType, id⟩ <;> rfl

end Reverting

end GraphNode
