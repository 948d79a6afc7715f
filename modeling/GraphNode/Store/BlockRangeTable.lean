import GraphNode.Library.KeyedList
import GraphNode.Store.BlockRange

/-!
# What a table's block ranges stand for

A table *tracks* a timeline `state : Int → String → Option α` up to a block `next` when
at every block `t` the versions of each id that hold at `t` are exactly the timeline's entity
there, the timeline does not change from `next` on, and every range starts at or before `next`,
ends at or before it and is not empty.  The statements a block runs at `next` keep a tracked
timeline, changed from `next` on as each statement says: `InsertQuery` sets entities that were
absent, `ClampRangeQuery` removes entities.  Reverting to block `r` tracks the timeline cut at
`r - 1`, unless a range ends at `BLOCK_NUMBER_MAX`, which `RevertClampQuery` cannot tell from a
current one.

Two consequences: a tracking table holds at most one version of an id at each block, so its
exclusion constraint holds and its statements are never refused; and `FindQuery` reads the
timeline.
-/

namespace GraphNode

namespace Table

variable {α : Type}

/-- The versions of `id` that hold at block `t`. -/
def versionsAt (rows : List (Row α)) (id : String) (t : Int) : List α :=
  (rows.filter fun row => row.id == id && row.blockRange.contains t).map Row.data

/-- The timeline `state`, with the entities from block `next` on replaced by `present`. -/
def changeFrom {κ : Type} (state : Int → κ → Option α) (next : Int) (present : κ → Option α)
    (t : Int) : κ → Option α :=
  if t < next then state t else present

/-- The entities of `present` with `entities` set. -/
def setAll (entities : List (String × α)) (present : String → Option α) (id : String) :
    Option α :=
  (KeyedList.find Prod.fst entities id).elim (present id) fun entity => some entity.2

/-- The entities of `present` with `entityIds` removed. -/
def removeAll (entityIds : List String) (present : String → Option α) (id : String) :
    Option α :=
  if id ∈ entityIds then none else present id

section

variable {κ : Type}

@[simp]
theorem changeFrom_at (state : Int → κ → Option α) (next : Int) (present : κ → Option α) :
    changeFrom state next present next = present := by
  simp [changeFrom]

@[simp]
theorem changeFrom_changeFrom (state : Int → κ → Option α) (next : Int)
    (present present' : κ → Option α) :
    changeFrom (changeFrom state next present) next present' = changeFrom state next present' := by
  funext t
  unfold changeFrom
  split <;> rfl

/-- A timeline settled by `next` is itself changed, from a later block on, to its entities at
`next`. -/
theorem changeFrom_settled {state : Int → κ → Option α} {next block : Int}
    (settled : ∀ t, next ≤ t → state t = state next) (reached : next ≤ block) :
    changeFrom state block (state next) = state := by
  funext t
  unfold changeFrom
  split
  · rfl
  · rw [settled t (by omega)]

end

/-- Setting entities after removing their ids sets them. -/
theorem setAll_removeAll (entities : List (String × α)) (present : String → Option α) :
    setAll entities (removeAll (entities.map Prod.fst) present) = setAll entities present := by
  funext id
  unfold setAll removeAll
  cases found : KeyedList.find Prod.fst entities id with
  | some entity => rfl
  | none =>
      have absent : id ∉ entities.map Prod.fst := fun member => by
        obtain ⟨entity, entityMember, rfl⟩ := List.mem_map.mp member
        exact KeyedList.find_eq_none.mp found entity entityMember rfl
      simp [absent]

/-! ## Versions at a block -/

@[simp]
theorem versionsAt_append (rows more : List (Row α)) (id : String) (t : Int) :
    versionsAt (rows ++ more) id t = versionsAt rows id t ++ versionsAt more id t := by
  simp [versionsAt, List.filter_append]

/-- Editing rows keeps the versions of `id` at `t` when it keeps each row's id and data and
makes the rows of `id` hold at `t` exactly when they held at `s`. -/
theorem versionsAt_map {rows : List (Row α)} {f : Row α → Row α} {id : String} {s t : Int}
    (keepsId : ∀ row ∈ rows, (f row).id = row.id) (keepsData : ∀ row ∈ rows, (f row).data = row.data)
    (holds : ∀ row ∈ rows, row.id = id → (f row).blockRange.contains t = row.blockRange.contains s) :
    versionsAt (rows.map f) id t = versionsAt rows id s := by
  induction rows with
  | nil => rfl
  | cons row rows induction =>
      have rest := induction (fun other member => keepsId other (List.mem_cons_of_mem _ member))
        (fun other member => keepsData other (List.mem_cons_of_mem _ member))
        (fun other member => holds other (List.mem_cons_of_mem _ member))
      simp only [versionsAt, List.map_cons, List.filter_cons] at rest ⊢
      rw [keepsId row List.mem_cons_self]
      by_cases same : row.id = id
      · rw [holds row List.mem_cons_self same]
        by_cases inside : row.blockRange.contains s = true
        · simp [same, inside, rest, keepsData row List.mem_cons_self]
        · simp [same, inside, rest]
      · simp [same, rest]

/-- Dropping rows of other ids, or rows that do not hold at `t`, keeps the versions at `t`. -/
theorem versionsAt_filter {rows : List (Row α)} {p : Row α → Bool} {id : String} {t : Int}
    (dropped : ∀ row ∈ rows, p row = false → row.id = id → row.blockRange.contains t = false) :
    versionsAt (rows.filter p) id t = versionsAt rows id t := by
  simp only [versionsAt, List.filter_filter]
  congr 1
  apply List.filter_congr
  intro row member
  by_cases kept : p row = true
  · simp [kept]
  · have gone := dropped row member (by simpa using kept)
    by_cases same : row.id = id <;> simp [kept, same, gone]

theorem versionsAt_eq_nil {rows : List (Row α)} {id : String} {t : Int}
    (absent : ∀ row ∈ rows, row.id = id → row.blockRange.contains t = false) :
    versionsAt rows id t = [] := by
  simp only [versionsAt, List.map_eq_nil_iff, List.filter_eq_nil_iff, Bool.and_eq_true, beq_iff_eq,
    not_and]
  intro row member same
  simp [absent row member same]

/-- New rows from `next` on hold, at a block from `next` on, the entity set for the id. -/
theorem versionsAt_inserted {entities : List (String × α)}
    (distinct : KeyedList.Distinct Prod.fst entities) (next : Int) (id : String)
    (t : Int) :
    versionsAt (entities.map fun entity => ⟨entity.1, entity.2, Period.startingAt next⟩) id t =
      if next ≤ t then ((KeyedList.find Prod.fst entities id).map Prod.snd).toList else [] := by
  by_cases reached : next ≤ t
  · rw [if_pos reached, Option.toList_map, ← KeyedList.filter_eq_find distinct, versionsAt,
      List.filter_map, List.map_map]
    congr 1
    apply List.filter_congr
    intro entity _
    have inside : (Period.startingAt next).contains t = true := Period.contains_startingAt.mpr reached
    by_cases same : entity.1 = id <;> simp [same, inside]
  · rw [if_neg reached]
    apply versionsAt_eq_nil
    intro row member _
    obtain ⟨entity, _, rfl⟩ := List.mem_map.mp member
    rw [← Bool.not_eq_true, Period.contains_startingAt]
    exact reached

/-- Rows with at most one version of an id at each block meet the exclusion constraint. -/
theorem exclusion_of_versionsAt {rows : List (Row α)}
    (single : ∀ id t, (versionsAt rows id t).length ≤ 1) : Exclusion rows := by
  induction rows with
  | nil => exact List.Pairwise.nil
  | cons row rows induction =>
      refine List.pairwise_cons.mpr ⟨fun other member same => ?_, induction fun id t => ?_⟩
      · -- two rows of one id holding at a common block would be two versions there
        by_contra overlapping
        obtain ⟨t, inRow, inOther⟩ := Period.overlaps_iff.mp (by simpa using overlapping)
        have head : versionsAt (row :: rows) row.id t = row.data :: versionsAt rows row.id t := by
          simp [versionsAt, inRow]
        have otherMember : other.data ∈ versionsAt rows row.id t :=
          List.mem_map_of_mem (List.mem_filter.mpr ⟨member, by simp [same, inOther]⟩)
        have counted := single row.id t
        rw [head, List.length_cons] at counted
        have := List.length_pos_of_mem otherMember
        omega
      · have counted := single id t
        have shorter : (versionsAt rows id t).length ≤ (versionsAt (row :: rows) id t).length := by
          simp only [versionsAt, List.filter_cons]
          split <;> simp
        omega

/-- A row that starts and ends at or before `next` holds at a block from `next` on exactly when
it has no end. -/
theorem contains_of_next_le {row : Row α} {next t : Int}
    (lowerLe : row.blockRange.lower ≤ next) (upperLe : ∀ upper ∈ row.blockRange.upper, upper ≤ next)
    (reached : next ≤ t) : row.blockRange.contains t = row.blockRange.upper.isNone := by
  cases bounded : row.blockRange.upper with
  | none => simpa using Period.contains_of_upper_none bounded (lowerLe.trans reached)
  | some upper =>
      simpa using Period.not_contains_of_upper_le bounded
        ((upperLe upper (by simp [bounded])).trans reached)

/-! ## Tracking a timeline -/

/-- The table's rows stand for the timeline `state`, which has settled by block `next`. -/
structure Tracks (table : Table α) (state : Int → String → Option α) (next : Int) :
    Prop where
  versions : ∀ id t, versionsAt table.rows id t = (state t id).toList
  settled : ∀ t, next ≤ t → state t = state next
  lower_le : ∀ row ∈ table.rows, row.blockRange.lower ≤ next
  upper_le : ∀ row ∈ table.rows, ∀ upper ∈ row.blockRange.upper, upper ≤ next
  nonempty : ∀ row ∈ table.rows, ∀ upper ∈ row.blockRange.upper, row.blockRange.lower < upper
  unbounded : table.immutable = true → ∀ row ∈ table.rows, row.blockRange.upper = none

variable {table : Table α} {state : Int → String → Option α} {next : Int}

theorem Tracks.single (tracks : Tracks table state next) (id : String) (t : Int) :
    (versionsAt table.rows id t).length ≤ 1 := by
  rw [tracks.versions]
  cases state t id <;> simp

/-- A row of a tracking table holds its version at the block it starts. -/
theorem Tracks.eq_some_of_mem (tracks : Tracks table state next) {row : Row α}
    (member : row ∈ table.rows) : state row.blockRange.lower row.id = some row.data := by
  have holds : row.blockRange.contains row.blockRange.lower = true :=
    Period.contains_eq_true.mpr ⟨le_rfl, tracks.nonempty row member⟩
  have listed : row.data ∈ versionsAt table.rows row.id row.blockRange.lower :=
    List.mem_map.mpr ⟨row, List.mem_filter.mpr ⟨member, by simp [holds]⟩, rfl⟩
  rw [tracks.versions] at listed
  simpa using listed

theorem Tracks.exclusion (tracks : Tracks table state next) : Exclusion table.rows :=
  exclusion_of_versionsAt tracks.single

theorem withRows_of_exclusion {rows : List (Row α)} (exclusion : Exclusion rows) :
    table.withRows rows = .ok { table with rows } := by
  simp [withRows, exclusion]

/-- From `next` on, the rows that hold are those with no end. -/
theorem Tracks.versionsAt_current (tracks : Tracks table state next) (id : String) {t : Int}
    (reached : next ≤ t) :
    versionsAt table.rows id t =
      (table.rows.filter fun row => row.id == id && row.blockRange.upper.isNone).map Row.data := by
  unfold versionsAt
  congr 1
  apply List.filter_congr
  intro row member
  rw [contains_of_next_le (tracks.lower_le row member) (tracks.upper_le row member) reached]

/-- A tracked timeline has settled by any later block too. -/
theorem Tracks.advance (tracks : Tracks table state next) {later : Int}
    (reached : next ≤ later) : Tracks table state later where
  versions := tracks.versions
  settled t atLeast := by
    rw [tracks.settled t (reached.trans atLeast), tracks.settled later reached]
  lower_le row member := (tracks.lower_le row member).trans reached
  upper_le row member upper bounded := (tracks.upper_le row member upper bounded).trans reached
  nonempty := tracks.nonempty
  unbounded := tracks.unbounded

/-! ## Inserting -/

/-- The rows `InsertQuery` adds at block `next`. -/
def insertedRows (entities : List (String × α)) (next : Int) : List (Row α) :=
  entities.map fun entity => ⟨entity.1, entity.2, Period.startingAt next⟩

/-- Rows that begin at `next` and have no end keep a timeline tracked, set from `next` on. -/
theorem Tracks.append_insertedRows (tracks : Tracks table state next)
    {entities : List (String × α)} (distinct : KeyedList.Distinct Prod.fst entities)
    (fresh : ∀ entity ∈ entities, state next entity.1 = none) :
    Tracks { table with rows := table.rows ++ insertedRows entities next }
      (changeFrom state next (setAll entities (state next))) next where
  versions id t := by
    simp only [versionsAt_append, insertedRows, tracks.versions, versionsAt_inserted distinct,
      changeFrom]
    by_cases before : t < next
    · simp [before, not_le.mpr before]
    · rw [if_neg before, if_pos (not_lt.mp before), tracks.settled t (not_lt.mp before), setAll]
      cases found : KeyedList.find Prod.fst entities id with
      | none => simp
      | some entity =>
          have absent : state next id = none :=
            KeyedList.key_of_find found ▸ fresh entity (KeyedList.mem_of_find found)
          simp [absent]
  settled t reached := by simp [changeFrom, not_lt.mpr reached]
  lower_le row member := by
    rcases List.mem_append.mp member with old | new
    · exact tracks.lower_le row old
    · obtain ⟨entity, _, rfl⟩ := List.mem_map.mp new
      exact le_refl next
  upper_le row member := by
    rcases List.mem_append.mp member with old | new
    · exact tracks.upper_le row old
    · obtain ⟨entity, _, rfl⟩ := List.mem_map.mp new
      simp [Period.startingAt]
  nonempty row member := by
    rcases List.mem_append.mp member with old | new
    · exact tracks.nonempty row old
    · obtain ⟨entity, _, rfl⟩ := List.mem_map.mp new
      simp [Period.startingAt]
  unbounded immutable row member := by
    rcases List.mem_append.mp member with old | new
    · exact tracks.unbounded immutable row old
    · obtain ⟨entity, _, rfl⟩ := List.mem_map.mp new
      rfl

/-- `InsertQuery` at `next`, of entities the timeline lacks from `next` on, succeeds and sets
them from `next` on. -/
theorem Tracks.insertQuery (tracks : Tracks table state next) {entities : List (String × α)}
    (distinct : KeyedList.Distinct Prod.fst entities)
    (fresh : ∀ entity ∈ entities, state next entity.1 = none) :
    table.insertQuery entities next =
      .ok ({ table with rows := table.rows ++ insertedRows entities next }, entities.map Prod.fst) ∧
    Tracks { table with rows := table.rows ++ insertedRows entities next }
      (changeFrom state next (setAll entities (state next))) next := by
  have tracked := tracks.append_insertedRows distinct fresh
  have exclusion : Exclusion (table.rows ++ entities.map fun entity =>
      (⟨entity.1, entity.2, Period.startingAt next⟩ : Row α)) := tracked.exclusion
  refine ⟨?_, tracked⟩
  simp only [Table.insertQuery, withRows_of_exclusion exclusion]
  rfl

/-! ## Clamping -/

/-- The rows `ClampRangeQuery` leaves at block `next`: the current versions of `entityIds` end
at `next`. -/
def clampedRows (rows : List (Row α)) (entityIds : List String) (next : Int) :
    List (Row α) :=
  rows.map fun row =>
    if entityIds.contains row.id && row.blockRange.upper.isNone then
      { row with blockRange := row.blockRange.clamp next }
    else row

/-- Clamping keeps the rows' ids. -/
theorem exists_of_mem_clampedRows {rows : List (Row α)} {entityIds : List String} {next : Int}
    {row : Row α} (member : row ∈ clampedRows rows entityIds next) :
    ∃ old ∈ rows, old.id = row.id := by
  obtain ⟨old, oldMember, rfl⟩ := List.mem_map.mp member
  refine ⟨old, oldMember, ?_⟩
  split <;> rfl

/-- Ending the current versions of ids at `next` removes them from `next` on. -/
theorem Tracks.clampCurrent (tracks : Tracks table state next) (mutable : table.immutable = false)
    (entityIds : List String)
    (started : ∀ row ∈ table.rows, row.id ∈ entityIds → row.blockRange.upper = none →
      row.blockRange.lower < next) :
    Tracks { table with rows := clampedRows table.rows entityIds next }
      (changeFrom state next (removeAll entityIds (state next))) next where
  versions id t := by
    simp only [Table.clampedRows, changeFrom]
    by_cases before : t < next
    · -- below the cut every row holds where it held
      rw [if_pos before, ← tracks.versions]
      apply versionsAt_map (fun row _ => by split <;> rfl) (fun row _ => by split <;> rfl)
      intro row _ _
      split
      · rename_i hit
        have current : row.blockRange.upper = none :=
          (by simpa using hit : row.id ∈ entityIds ∧ row.blockRange.upper = none).2
        exact Period.contains_clamp_of_lt current before
      · rfl
    · have reached := not_lt.mp before
      rw [if_neg before, removeAll]
      by_cases removed : id ∈ entityIds
      · -- from the cut on, no version of a removed id holds
        rw [if_pos removed]
        apply versionsAt_eq_nil
        intro edited member same
        obtain ⟨row, original, rfl⟩ := List.mem_map.mp member
        by_cases hit : (entityIds.contains row.id && row.blockRange.upper.isNone) = true
        · simp only [hit, if_true, Bool.eq_false_iff, ne_eq, Period.contains_clamp, not_and,
            not_lt]
          exact fun _ => reached
        · simp only [hit, Bool.false_eq_true, if_false] at same ⊢
          have ended : row.blockRange.upper ≠ none := by simpa [same, removed] using hit
          rw [contains_of_next_le (tracks.lower_le row original) (tracks.upper_le row original)
            reached]
          cases bounded : row.blockRange.upper with
          | none => exact absurd bounded ended
          | some _ => rfl
      · -- the rows of other ids are not edited
        rw [if_neg removed, ← tracks.settled t reached, ← tracks.versions]
        apply versionsAt_map (fun row _ => by split <;> rfl) (fun row _ => by split <;> rfl)
        intro row _ same
        have kept : row.id ∉ entityIds := same ▸ removed
        simp [kept]
  settled t reached := by simp [changeFrom, not_lt.mpr reached]
  lower_le edited member := by
    obtain ⟨row, original, rfl⟩ := List.mem_map.mp member
    split
    · exact tracks.lower_le row original
    · exact tracks.lower_le row original
  upper_le edited member := by
    obtain ⟨row, original, rfl⟩ := List.mem_map.mp member
    split
    · simp [Period.clamp]
    · exact tracks.upper_le row original
  nonempty edited member := by
    obtain ⟨row, original, rfl⟩ := List.mem_map.mp member
    split
    · rename_i hit
      have cut : row.id ∈ entityIds ∧ row.blockRange.upper = none := by simpa using hit
      simpa [Period.clamp] using started row original cut.1 cut.2
    · exact tracks.nonempty row original
  unbounded immutable := absurd immutable (by simp [mutable])

/-- On a tracking table, `ClampRangeQuery` at `next` succeeds, ends the current versions of the
ids and counts them. -/
theorem Tracks.clampRangeQuery (tracks : Tracks table state next)
    (mutable : table.immutable = false) (belowMax : next ≤ blockNumberMax)
    (entityIds : List String)
    (started : ∀ row ∈ table.rows, row.id ∈ entityIds → row.blockRange.upper = none →
      row.blockRange.lower < next) :
    table.clampRangeQuery entityIds next =
      .ok ({ table with rows := clampedRows table.rows entityIds next },
        (table.rows.filter fun row =>
          entityIds.contains row.id && row.blockRange.upper.isNone).length) ∧
    Tracks { table with rows := clampedRows table.rows entityIds next }
      (changeFrom state next (removeAll entityIds (state next))) next := by
  have tracked := tracks.clampCurrent mutable entityIds started
  have latest : ∀ row ∈ table.rows,
      (BlockRangeColumn.new table next).latest row = row.blockRange.upper.isNone := by
    intro row member
    simp only [BlockRangeColumn.new, mutable, Bool.false_eq_true, if_false,
      BlockRangeColumn.latest]
    exact contains_of_next_le (tracks.lower_le row member) (tracks.upper_le row member) belowMax
  have exclusion : Exclusion (clampedRows table.rows entityIds next) := tracked.exclusion
  refine ⟨?_, tracked⟩
  unfold Table.clampRangeQuery
  rw [if_neg (by simp [mutable])]
  dsimp only
  rw [MapFold.mapM_eq_ok (g := fun row =>
    if entityIds.contains row.id && row.blockRange.upper.isNone then
      { row with blockRange := row.blockRange.clamp next }
    else row)]
  · simp only [bind, Except.bind]
    rw [show table.rows.map _ = clampedRows table.rows entityIds next from rfl,
      withRows_of_exclusion exclusion]
    simp only [pure, Except.pure, Except.ok.injEq, Prod.mk.injEq, true_and]
    congr 1
    exact List.filter_congr fun row member => by rw [latest row member]
  · intro row member
    simp only [latest row member]
    split
    · -- the clamped version starts at or before `next`, so `int4range` accepts the cut
      simp [int4range, not_lt.mpr (tracks.lower_le row member), bind, Except.bind, pure,
        Except.pure, Period.clamp]
    · rfl

/-! ## Reverting -/

/-- The rows `Layout::revert_block` leaves of a table: those that start before `block`, with the
ended versions that held at `block - 1` made current again. -/
def revertedRows (rows : List (Row α)) (block : Int) : List (Row α) :=
  (rows.filter fun row => decide (row.blockRange.lower < block)).map fun row =>
    if row.blockRange.contains (block - 1) && row.blockRange.upper.isSome then
      { row with blockRange := row.blockRange.unbound }
    else row

/-- The count `Layout::revert_block` reports for one table: the ids made current again and not
removed, less the ids removed and not made current again. -/
def revertCount (rows : List (Row α)) (block : Int) : Int :=
  let removed := ((rows.filter fun row => decide (block ≤ row.blockRange.lower)).map Row.id).toFinset
  let unclamped := ((rows.filter fun row => decide (row.blockRange.lower < block) &&
    row.blockRange.contains (block - 1) && row.blockRange.upper.isSome).map Row.id).toFinset
  ((unclamped \ removed).card : Int) - (removed \ unclamped).card

/-- A version with an end that `revert_block` leaves ended did not hold at `block - 1`. -/
theorem contains_eq_false_of_kept {row : Row α} {block upper : Int}
    (kept : ¬(row.blockRange.contains (block - 1) && row.blockRange.upper.isSome) = true)
    (bounded : row.blockRange.upper = some upper) : row.blockRange.contains (block - 1) = false := by
  cases held : row.blockRange.contains (block - 1)
  · rfl
  · simp [held, bounded] at kept

/-- A row that starts before `block` holds at a block from `block` on, once reverted, exactly when
it held at `block - 1`. -/
theorem contains_reverted {row : Row α} {block t : Int} (started : row.blockRange.lower < block)
    (reached : block ≤ t) :
    (if row.blockRange.contains (block - 1) && row.blockRange.upper.isSome then
        { row with blockRange := row.blockRange.unbound }
      else row).blockRange.contains t = row.blockRange.contains (block - 1) := by
  have fromLower : row.blockRange.lower ≤ t := by omega
  have heldFrom : row.blockRange.lower ≤ block - 1 := by omega
  split
  · rename_i unclamped
    rw [(Bool.and_eq_true _ _ |>.mp unclamped).1]
    exact Period.contains_unbound.mpr fromLower
  · rename_i kept
    cases bounded : row.blockRange.upper with
    | none =>
        rw [Period.contains_of_upper_none bounded fromLower,
          Period.contains_of_upper_none bounded heldFrom]
    | some upper =>
        have ended := contains_eq_false_of_kept kept bounded
        have early := Period.upper_le_of_not_contains bounded heldFrom ended
        rw [ended]
        exact Period.not_contains_of_upper_le bounded (by omega)

/-- Reverting to `block` tracks the timeline cut at `block - 1`, settled by `block - 1`. -/
theorem Tracks.reverted (tracks : Tracks table state next) (block : Int) :
    Tracks { table with rows := revertedRows table.rows block }
      (fun t => state (min t (block - 1))) (min (block - 1) next) where
  versions id t := by
    simp only [revertedRows]
    have removed : ∀ s < block, ∀ row ∈ table.rows,
        decide (row.blockRange.lower < block) = false → row.id = id →
          row.blockRange.contains s = false := by
      intro s early row _ dropped _
      have late : block ≤ row.blockRange.lower := by simpa using dropped
      cases inside : row.blockRange.contains s
      · rfl
      · have := Period.lower_le_of_contains inside
        omega
    by_cases before : t < block
    · -- before `block` every kept row holds where it held
      rw [show min t (block - 1) = t by omega, ← tracks.versions,
        ← versionsAt_filter (removed t before)]
      apply versionsAt_map (fun row _ => by split <;> rfl) (fun row _ => by split <;> rfl)
      intro row _ _
      split
      · rename_i unclamped
        exact Period.contains_unbound_of_contains (Bool.and_eq_true _ _ |>.mp unclamped).1
          (by omega)
      · rfl
    · -- from `block` on a kept row holds when it held at `block - 1`
      rw [show min t (block - 1) = block - 1 by omega, ← tracks.versions,
        ← versionsAt_filter (removed (block - 1) (by omega))]
      apply versionsAt_map (fun row _ => by split <;> rfl) (fun row _ => by split <;> rfl)
      intro row member _
      exact contains_reverted (by simpa using (List.mem_filter.mp member).2) (by omega)
  settled t reached := by
    by_cases early : block - 1 ≤ next
    · rw [show min t (block - 1) = min (min (block - 1) next) (block - 1) by omega]
    · rw [tracks.settled _ (by omega),
        tracks.settled (min (min (block - 1) next) (block - 1)) (by omega)]
  lower_le edited member := by
    obtain ⟨row, kept, rfl⟩ := List.mem_map.mp member
    obtain ⟨original, started⟩ := List.mem_filter.mp kept
    have started : row.blockRange.lower < block := by simpa using started
    have bounded := tracks.lower_le row original
    split
    · show row.blockRange.lower ≤ min (block - 1) next
      omega
    · omega
  upper_le edited member upper ended := by
    obtain ⟨row, kept, rfl⟩ := List.mem_map.mp member
    obtain ⟨original, started⟩ := List.mem_filter.mp kept
    have started : row.blockRange.lower ≤ block - 1 := by simpa using started
    have bounded := tracks.upper_le row original
    split at ended
    · simp [Period.unbound] at ended
    · rename_i notUnclamped
      have upperEq : row.blockRange.upper = some upper := by simpa using ended
      have outside := contains_eq_false_of_kept notUnclamped upperEq
      have early := Period.upper_le_of_not_contains upperEq started outside
      have late := bounded upper ended
      show upper ≤ min (block - 1) next
      omega
  nonempty edited member upper ended := by
    obtain ⟨row, kept, rfl⟩ := List.mem_map.mp member
    by_cases unclamped :
        (row.blockRange.contains (block - 1) && row.blockRange.upper.isSome) = true
    · simp [unclamped, Period.unbound] at ended
    · simp only [unclamped, Bool.false_eq_true, if_false] at ended ⊢
      exact tracks.nonempty row (List.mem_filter.mp kept).1 upper ended
  unbounded immutable edited member := by
    obtain ⟨row, kept, rfl⟩ := List.mem_map.mp member
    split
    · rfl
    · exact tracks.unbounded immutable row (List.mem_filter.mp kept).1

/-- On a row that starts before `block` and does not end at `BLOCK_NUMBER_MAX`, the condition of
`RevertClampQuery` at `block - 1` selects the ended versions that held at `block - 1`. -/
theorem revertClampCondition_eq {row : Row α} {block : Int} (started : row.blockRange.lower < block)
    (belowMax : ∀ upper ∈ row.blockRange.upper, upper < blockNumberMax) :
    revertClampCondition (block - 1) row =
      (row.blockRange.contains (block - 1) && row.blockRange.upper.isSome) := by
  unfold revertClampCondition
  cases bounded : row.blockRange.upper with
  | none => simp
  | some upper =>
      have below := belowMax upper (by simp [bounded])
      have current : row.blockRange.contains blockNumberMax = false :=
        Period.not_contains_of_upper_le bounded below.le
      cases held : row.blockRange.contains (block - 1) with
      | false => simp
      | true =>
          have within := (Period.contains_eq_true.mp held).2 upper (by simp [bounded])
          have early : row.blockRange.lower ≤ block - 1 := by omega
          simp [current, below, within, early]

/-- On a tracking table none of whose versions ends at `BLOCK_NUMBER_MAX`, the loop body of
`Layout::revert_block` succeeds: it leaves `revertedRows` and reports `revertCount`. -/
theorem Tracks.revertBlock (tracks : Tracks table state next)
    (belowMax : ∀ row ∈ table.rows, ∀ upper ∈ row.blockRange.upper, upper < blockNumberMax)
    (block : Int) :
    table.revertBlock block =
      .ok ({ table with rows := revertedRows table.rows block }, revertCount table.rows block) := by
  have exclusion : Exclusion (revertedRows table.rows block) := (tracks.reverted block).exclusion
  -- `RevertRemoveQuery` keeps the rows that start before `block`
  have kept : (table.rows.filter fun row => !(BlockRangeColumn.new table block).changedSince row) =
      table.rows.filter fun row => decide (row.blockRange.lower < block) := by
    apply List.filter_congr
    intro row _
    unfold BlockRangeColumn.new
    split <;>
    · simp only [BlockRangeColumn.changedSince]
      rw [Bool.eq_iff_iff]
      simp
  have removed : (table.rows.filter (BlockRangeColumn.new table block).changedSince) =
      table.rows.filter fun row => decide (block ≤ row.blockRange.lower) := by
    apply List.filter_congr
    intro row _
    unfold BlockRangeColumn.new
    split <;> rfl
  unfold Table.revertBlock Table.revertRemoveQuery
  cases immutable : table.immutable with
  | true =>
      have unended : ∀ row ∈ table.rows.filter (fun row => decide (row.blockRange.lower < block)),
          row.blockRange.upper = none := fun row member =>
        tracks.unbounded immutable row (List.mem_filter.mp member).1
      have same : revertedRows table.rows block =
          table.rows.filter fun row => decide (row.blockRange.lower < block) := by
        unfold revertedRows
        conv => rhs; rw [← List.map_id (table.rows.filter _)]
        apply List.map_congr_left
        intro row member
        simp [unended row member]
      have noneUnclamped : (table.rows.filter fun row => decide (row.blockRange.lower < block) &&
          row.blockRange.contains (block - 1) && row.blockRange.upper.isSome) = [] := by
        apply List.filter_eq_nil_iff.mpr
        intro row member
        have unended := tracks.unbounded immutable row member
        simp [unended]
      simp only [if_true, kept, removed, revertCount, same, noneUnclamped]
      rfl
  | false =>
      -- on the rows kept, the condition of `RevertClampQuery` is the one of `revertedRows`
      have condition : ∀ row ∈ table.rows.filter fun row => decide (row.blockRange.lower < block),
          revertClampCondition (block - 1) row =
            (row.blockRange.contains (block - 1) && row.blockRange.upper.isSome) :=
        fun row member => revertClampCondition_eq (by simpa using (List.mem_filter.mp member).2)
          (belowMax row (List.mem_filter.mp member).1)
      have mapped : ((table.rows.filter fun row => decide (row.blockRange.lower < block)).map
          fun row => if revertClampCondition (block - 1) row then
            { row with blockRange := row.blockRange.unbound } else row) =
          revertedRows table.rows block :=
        List.map_congr_left fun row member => by rw [condition row member]
      have unclamped : ((table.rows.filter fun row => decide (row.blockRange.lower < block)).filter
          (revertClampCondition (block - 1))) = table.rows.filter fun row =>
            decide (row.blockRange.lower < block) && row.blockRange.contains (block - 1) &&
              row.blockRange.upper.isSome := by
        rw [List.filter_filter]
        apply List.filter_congr
        intro row member
        by_cases started : row.blockRange.lower < block
        · rw [condition row (List.mem_filter.mpr ⟨member, by simpa using started⟩)]
          simp [started]
        · simp [started]
      simp only [Bool.false_eq_true, if_false, kept, removed, Table.revertClampQuery, mapped,
        withRows_of_exclusion exclusion, unclamped, revertCount]
      rfl

/-! ## Counting current versions -/

/-- On a tracking table `count_query` counts the versions with no end. -/
theorem Tracks.countQuery (tracks : Tracks table state next) (belowMax : next ≤ blockNumberMax) :
    table.countQuery = (table.rows.filter fun row => row.blockRange.upper.isNone).length := by
  unfold Table.countQuery
  cases immutable : table.immutable with
  | true =>
      have unended : table.rows.filter (fun row => row.blockRange.upper.isNone) = table.rows :=
        List.filter_eq_self.mpr fun row member => by simp [tracks.unbounded immutable row member]
      simp [unended]
  | false =>
      simp only [Bool.false_eq_true, if_false]
      congr 1
      exact List.filter_congr fun row member =>
        contains_of_next_le (tracks.lower_le row member) (tracks.upper_le row member) belowMax

/-- A tracking table holds one current version of each id present at `next`. -/
theorem Tracks.length_current (tracks : Tracks table state next) {entityIds : List String}
    (distinct : entityIds.Nodup) (present : ∀ id ∈ entityIds, state next id ≠ none) :
    (table.rows.filter fun row => entityIds.contains row.id && row.blockRange.upper.isNone).length =
      entityIds.length := by
  rw [KeyedList.length_filter_contains table.rows _ distinct]
  have one : ∀ id ∈ entityIds, (table.rows.filter fun row =>
      decide (row.id = id) && row.blockRange.upper.isNone).length = 1 := by
    intro id member
    obtain ⟨entity, holds⟩ := Option.ne_none_iff_exists'.mp (present id member)
    have counted := congrArg List.length (tracks.versionsAt_current id (le_refl next))
    rw [tracks.versions, holds] at counted
    simp only [Option.toList_some, List.length_singleton, List.length_map] at counted
    rw [counted]
    congr 2
  rw [List.map_congr_left one]
  simp

theorem length_current_append_insertedRows (rows : List (Row α)) (entities : List (String × α))
    (next : Int) :
    ((rows ++ insertedRows entities next).filter fun row => row.blockRange.upper.isNone).length =
      (rows.filter fun row => row.blockRange.upper.isNone).length + entities.length := by
  rw [List.filter_append, List.length_append, insertedRows, List.filter_map, List.length_map]
  congr 1
  exact congrArg List.length (List.filter_eq_self.mpr fun entity _ => rfl)

theorem length_current_clampedRows (rows : List (Row α)) (entityIds : List String) (next : Int) :
    ((clampedRows rows entityIds next).filter fun row => row.blockRange.upper.isNone).length +
      (rows.filter fun row => entityIds.contains row.id && row.blockRange.upper.isNone).length =
    (rows.filter fun row => row.blockRange.upper.isNone).length := by
  unfold clampedRows
  rw [List.filter_map, List.length_map]
  simp only [← List.countP_eq_length_filter]
  rw [List.countP_eq_countP_filter_add rows (fun row => row.blockRange.upper.isNone)
    (fun row => entityIds.contains row.id), List.countP_filter, List.countP_filter, add_comm]
  congr 1
  all_goals
    apply List.countP_congr
    intro row _
    by_cases member : row.id ∈ entityIds <;> cases bounded : row.blockRange.upper <;>
      simp [member, bounded]

/-- `InsertQuery` at `next` adds a current version per entity. -/
theorem Tracks.countQuery_insertedRows (tracks : Tracks table state next)
    (belowMax : next ≤ blockNumberMax) {entities : List (String × α)}
    (distinct : KeyedList.Distinct Prod.fst entities)
    (fresh : ∀ entity ∈ entities, state next entity.1 = none) :
    ({ table with rows := table.rows ++ insertedRows entities next } : Table α).countQuery =
      table.countQuery + entities.length := by
  rw [(tracks.append_insertedRows distinct fresh).countQuery belowMax, tracks.countQuery belowMax]
  exact length_current_append_insertedRows _ _ _

/-- `ClampRangeQuery` at `next` ends the current versions it counts. -/
theorem Tracks.countQuery_clampedRows (tracks : Tracks table state next)
    (mutable : table.immutable = false) (belowMax : next ≤ blockNumberMax) (entityIds : List String)
    (started : ∀ row ∈ table.rows, row.id ∈ entityIds → row.blockRange.upper = none →
      row.blockRange.lower < next) :
    ({ table with rows := clampedRows table.rows entityIds next } : Table α).countQuery +
      (table.rows.filter fun row => entityIds.contains row.id && row.blockRange.upper.isNone).length =
    table.countQuery := by
  rw [(tracks.clampCurrent mutable entityIds started).countQuery belowMax,
    tracks.countQuery belowMax]
  exact length_current_clampedRows _ _ _

/-- The ids of the rows selected by `p` are distinct when each of those rows holds at one block `t`:
on a tracking table at most one version of an id holds there. -/
theorem Tracks.nodup_ids (tracks : Tracks table state next) (p : Row α → Bool) (t : Int)
    (holds : ∀ row ∈ table.rows, p row = true → row.blockRange.contains t = true) :
    ((table.rows.filter p).map Row.id).Nodup := by
  rw [List.nodup_iff_count_le_one]
  intro id
  have single := tracks.single id t
  unfold versionsAt at single
  rw [List.length_map, ← List.countP_eq_length_filter] at single
  rw [List.count_eq_countP, List.countP_map, List.countP_filter]
  refine le_trans (List.countP_mono_left fun row member selected => ?_) single
  simp only [Function.comp_apply, Bool.and_eq_true, beq_iff_eq] at selected
  simp only [Bool.and_eq_true, beq_iff_eq]
  exact ⟨selected.1, holds row member selected.2⟩

/-- A version that starts at a block from `next` on has no end: it started at `next`, and a
version that has ended ended by `next`. -/
theorem Tracks.upper_eq_none_of_le_lower (tracks : Tracks table state next) {row : Row α}
    (member : row ∈ table.rows) {block : Int} (last : next ≤ block)
    (late : block ≤ row.blockRange.lower) : row.blockRange.upper = none := by
  cases bounded : row.blockRange.upper with
  | none => rfl
  | some upper =>
      have ended := tracks.upper_le row member upper (by simp [bounded])
      have started := tracks.nonempty row member upper (by simp [bounded])
      omega

/-- Of two lists without repetitions, the elements only the first has less those only the second
has are as many as the first's length less the second's. -/
theorem card_sdiff_sub_card_sdiff {ι : Type} [DecidableEq ι] {xs ys : List ι} (left : xs.Nodup)
    (right : ys.Nodup) :
    ((xs.toFinset \ ys.toFinset).card : Int) - (ys.toFinset \ xs.toFinset).card =
      xs.length - ys.length := by
  have fromLeft := Finset.card_sdiff_add_card_inter xs.toFinset ys.toFinset
  have fromRight := Finset.card_sdiff_add_card_inter ys.toFinset xs.toFinset
  rw [Finset.inter_comm, List.toFinset_card_of_nodup right] at fromRight
  rw [List.toFinset_card_of_nodup left] at fromLeft
  omega

theorem isNone_upper_reverted (row : Row α) (block : Int) :
    (if row.blockRange.contains (block - 1) && row.blockRange.upper.isSome then
        { row with blockRange := row.blockRange.unbound }
      else row).blockRange.upper.isNone =
      (row.blockRange.contains (block - 1) || row.blockRange.upper.isNone) := by
  cases bounded : row.blockRange.upper <;> cases row.blockRange.contains (block - 1) <;>
    simp [bounded]

/-- The current versions once reverted: those current that start before `block`, and those
made current again. -/
theorem length_current_revertedRows (rows : List (Row α)) (block : Int) :
    ((revertedRows rows block).filter fun row => row.blockRange.upper.isNone).length =
      (rows.filter fun row => decide (row.blockRange.lower < block) &&
        row.blockRange.upper.isNone).length +
      (rows.filter fun row => decide (row.blockRange.lower < block) &&
        row.blockRange.contains (block - 1) && row.blockRange.upper.isSome).length := by
  unfold revertedRows
  rw [List.filter_map, List.length_map, ← List.countP_eq_length_filter, List.countP_filter,
    ← List.countP_eq_length_filter, ← List.countP_eq_length_filter,
    List.countP_eq_countP_filter_add rows _ fun row => row.blockRange.upper.isNone,
    List.countP_filter, List.countP_filter]
  simp only [Function.comp_apply, isNone_upper_reverted]
  congr 1 <;> apply List.countP_congr <;> intro row _ <;>
    cases row.blockRange.upper <;> cases row.blockRange.contains (block - 1) <;> simp

/-- The current versions of a table tracked up to `next`, split at a block from `next` on: those
that start before it, and those that start at or after it, all of which are current. -/
theorem Tracks.length_current_split (tracks : Tracks table state next) {block : Int}
    (last : next ≤ block) :
    (table.rows.filter fun row => row.blockRange.upper.isNone).length =
      (table.rows.filter fun row => decide (row.blockRange.lower < block) &&
        row.blockRange.upper.isNone).length +
      (table.rows.filter fun row => decide (block ≤ row.blockRange.lower)).length := by
  rw [← List.countP_eq_length_filter, ← List.countP_eq_length_filter,
    ← List.countP_eq_length_filter,
    List.countP_eq_countP_filter_add table.rows _ fun row => decide (row.blockRange.lower < block),
    List.countP_filter, List.countP_filter]
  congr 1
  · apply List.countP_congr
    intro row _
    simp [Bool.and_comm]
  · apply List.countP_congr
    intro row member
    by_cases late : block ≤ row.blockRange.lower
    · simp [late, tracks.upper_eq_none_of_le_lower member last late]
    · simp [late]

/-- The count the loop body of `Layout::revert_block` reports is the change in the current
versions. -/
theorem Tracks.countQuery_revertedRows (tracks : Tracks table state next)
    (belowMax : next ≤ blockNumberMax) {block : Int} (last : next ≤ block) :
    (({ table with rows := revertedRows table.rows block } : Table α).countQuery : Int) =
      table.countQuery + revertCount table.rows block := by
  have unclampedIds := tracks.nodup_ids (fun row => decide (row.blockRange.lower < block) &&
    row.blockRange.contains (block - 1) && row.blockRange.upper.isSome) (block - 1) (by
      intro row _ selected
      simp only [Bool.and_eq_true] at selected
      exact selected.1.2)
  have removedIds := tracks.nodup_ids (fun row => decide (block ≤ row.blockRange.lower)) block
    (by
      intro row member selected
      have late : block ≤ row.blockRange.lower := by simpa using selected
      have early := tracks.lower_le row member
      exact Period.contains_of_upper_none (tracks.upper_eq_none_of_le_lower member last late)
        (by omega))
  have counted : revertCount table.rows block = _ := card_sdiff_sub_card_sdiff unclampedIds removedIds
  rw [List.length_map, List.length_map] at counted
  rw [(tracks.reverted block).countQuery (by omega), tracks.countQuery belowMax, counted,
    length_current_revertedRows, tracks.length_current_split last]
  push_cast
  omega

/-! ## Reading -/

/-- The condition `BlockRangeColumn::contains` writes selects the rows whose range contains the
block, on rows that start by `BLOCK_NUMBER_MAX` and, in an immutable table, have no end. -/
theorem contains_new {row : Row α} (t : Int)
    (unbounded : table.immutable = true → row.blockRange.upper = none)
    (belowMax : row.blockRange.lower ≤ blockNumberMax) :
    (BlockRangeColumn.new table t).contains row = row.blockRange.contains t := by
  unfold BlockRangeColumn.new
  cases immutable : table.immutable with
  | true =>
      have bounded := unbounded immutable
      by_cases atMax : t = blockNumberMax
      · subst atMax
        simp [BlockRangeColumn.contains, Period.contains, bounded, belowMax]
      · simp [BlockRangeColumn.contains, Period.contains, bounded, atMax]
  | false =>
      simp only [Bool.false_eq_true, if_false, BlockRangeColumn.contains]
      cases inside : row.blockRange.contains t with
      | false => simp
      | true =>
          obtain ⟨lower, below⟩ := Period.contains_eq_true.mp inside
          cases bounded : row.blockRange.upper with
          | none => by_cases small : t < blockNumberMax <;> simp [lower, small]
          | some upper => simp [lower, below upper bounded]

/-- On a tracking table, `FindQuery` at any block reads the timeline there. -/
theorem Tracks.findQuery (tracks : Tracks table state next) (belowMax : next ≤ blockNumberMax)
    (id : String) (t : Int) : (table.findQuery id t).map Row.data = (state t id).toList := by
  rw [← tracks.versions]
  unfold Table.findQuery versionsAt
  congr 1
  apply List.filter_congr
  intro row member
  rw [contains_new t (fun immutable => tracks.unbounded immutable row member)
    ((tracks.lower_le row member).trans belowMax)]

end Table

end GraphNode
