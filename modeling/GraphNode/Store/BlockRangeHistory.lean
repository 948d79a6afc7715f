import GraphNode.Store.BlockRangeLayout

/-!
# Histories of a block-range store

A history is the list of blocks a deployment wrote, each with its number and its modifications.
What a block-range store is for is time travel: the entities at any block `t` are those the
blocks numbered up to `t` leave, made in order (`stateAt`).  The layout that
`apply_entity_modifications` writes block by block tracks that meaning, so `Layout::find` reads
it at every block; `Layout::revert_block r` then leaves a layout that reads the history cut
before `r`, as the layout written from that cut history does.
-/

namespace GraphNode

/-- The timeline `state` with the blocks of `history` made on top: at block `t`, the entities of
`state` there with the modifications of the blocks numbered up to `t` made in order. -/
def timelineAfter (state : Int → EntityKey → Option Entity)
    (history : List (Int × List EntityModification)) (t : Int) : EntityKey → Option Entity :=
  (history.filter fun block => decide (block.1 ≤ t)).foldl
    (fun present block => applyModifications present block.2) (state t)

/-- The time-travel store: the entities at block `t` after the blocks of `history` up to `t`. -/
def stateAt (history : List (Int × List EntityModification)) : Int → EntityKey → Option Entity :=
  timelineAfter (fun _ _ => none) history

/-- A history `apply_entity_modifications` can write block by block on top of the entities
`present`: block numbers increase and stay below `BLOCK_NUMBER_MAX`, and each block is valid on
the entities the blocks before it leave. -/
def ValidHistory (schema : String → Option Bool) (deployment : String) :
    (EntityKey → Option Entity) → List (Int × List EntityModification) → Prop
  | _, [] => True
  | present, block :: rest => block.1 < blockNumberMax ∧ (∀ later ∈ rest, block.1 < later.1) ∧
      ValidBlock schema deployment present block.2 ∧
      ValidHistory schema deployment (applyModifications present block.2) rest

/-- `transact_block_operations` for each block of a history in turn, as far as the entity tables
go: `apply_entity_modifications` at the block's number, with the counts it reports summed. -/
def writeHistory (api : InterfaceSchema) :
    Layout → List (Int × List EntityModification) → Except StoreError (Layout × Int)
  | layout, [] => .ok (layout, 0)
  | layout, block :: rest => do
      let (written, count) ← applyEntityModifications api layout block.2 block.1
      let (final, restCount) ← writeHistory api written rest
      pure (final, count + restCount)

/-- The number of the last block of a history, `next` if it has none. -/
def lastBlock (next : Int) (history : List (Int × List EntityModification)) : Int :=
  history.foldl (fun _ block => block.1) next

@[simp]
theorem lastBlock_cons (next : Int) (block : Int × List EntityModification)
    (rest : List (Int × List EntityModification)) :
    lastBlock next (block :: rest) = lastBlock block.1 rest := rfl

/-! ## The time-travel store -/

theorem timelineAfter_nil (state : Int → EntityKey → Option Entity) :
    timelineAfter state [] = state := rfl

/-- A block past the last block of a settled timeline is made from its number on. -/
theorem timelineAfter_cons {state : Int → EntityKey → Option Entity} {next : Int}
    (settled : ∀ t, next ≤ t → state t = state next) {block : Int × List EntityModification}
    {rest : List (Int × List EntityModification)} (advanced : next < block.1)
    (later : ∀ other ∈ rest, block.1 < other.1) :
    timelineAfter state (block :: rest) =
      timelineAfter (Table.changeFrom state block.1 (applyModifications (state next) block.2))
        rest := by
  funext t
  unfold timelineAfter Table.changeFrom
  by_cases before : t < block.1
  · -- before the block, neither it nor any later block has been made
    have none : rest.filter (fun other => decide (other.1 ≤ t)) = [] :=
      List.filter_eq_nil_iff.mpr fun other member => by
        have := later other member
        simp only [decide_eq_true_eq]
        omega
    simp [before, none, not_le.mpr before]
  · rw [if_neg before, List.filter_cons_of_pos (by simpa using before), List.foldl_cons,
      settled t (by omega)]

/-- Cutting a history before `r` cuts its timeline at `r - 1`. -/
theorem timelineAfter_filter (state : Int → EntityKey → Option Entity)
    (history : List (Int × List EntityModification)) (r t : Int) :
    timelineAfter (fun t => state (min t (r - 1))) (history.filter fun block => decide (block.1 < r))
        t = timelineAfter state history (min t (r - 1)) := by
  unfold timelineAfter
  rw [List.filter_filter]
  congr 1
  apply List.filter_congr
  intro block _
  by_cases early : block.1 < r <;> simp [early]

/-- A valid history cut before any block is valid: it is a prefix of the history. -/
theorem ValidHistory.filter_lt {schema : String → Option Bool} {deployment : String} (r : Int) :
    ∀ {present : EntityKey → Option Entity} {history : List (Int × List EntityModification)},
      ValidHistory schema deployment present history →
        ValidHistory schema deployment present (history.filter fun block => decide (block.1 < r))
  | _, [], _ => trivial
  | _, block :: rest, ⟨belowMax, later, valid, validRest⟩ => by
      by_cases early : block.1 < r
      · rw [List.filter_cons_of_pos (by simpa using early)]
        refine ⟨belowMax, fun other member => later other (List.mem_of_mem_filter member), valid,
          validRest.filter_lt r⟩
      · -- every later block is past `r` too, so the cut ends here
        have none : rest.filter (fun other => decide (other.1 < r)) = [] :=
          List.filter_eq_nil_iff.mpr fun other member => by
            have := later other member
            simp only [decide_eq_true_eq]
            omega
        rw [List.filter_cons_of_neg (by simpa using early), none]
        trivial

/-! ## Writing a history -/

section Writing

variable {deployment : String}

/-- A layout with no rows tracks the empty timeline, settled at any block. -/
theorem Layout.tracks_of_rows_eq_nil {layout : Layout}
    (empty : ∀ table ∈ layout.tables, table.rows = []) (next : Int) :
    layout.Tracks deployment (fun _ _ => none) next := by
  intro table member
  have noRows := empty table member
  refine ⟨fun id t => ?_, fun _ _ => rfl, ?_, ?_, ?_, fun _ => ?_⟩ <;>
    simp [noRows, Table.versionsAt, tableTimeline, tableEntities]

theorem lastBlock_lt {schema : String → Option Bool} :
    ∀ {present : EntityKey → Option Entity} {next : Int}
      {history : List (Int × List EntityModification)},
      ValidHistory schema deployment present history → next < blockNumberMax →
        lastBlock next history < blockNumberMax
  | _, _, [], _, belowMax => belowMax
  | _, _, _ :: _, ⟨blockBelow, _, _, validRest⟩, _ => by
      rw [lastBlock_cons]
      exact lastBlock_lt validRest blockBelow

/-- The run lemma: writing a valid history block by block keeps the layout tracking its timeline,
by induction on the history with `Layout.Tracks.applyEntityModifications` at each block. -/
theorem Layout.Tracks.writeHistory {api : InterfaceSchema} {layout : Layout}
    {state : Int → EntityKey → Option Entity}
    {next : Int} (tracks : layout.Tracks deployment state next)
    (settled : ∀ t, next ≤ t → state t = state next)
    {history : List (Int × List EntityModification)}
    (valid : ValidHistory layout.schema deployment (state next) history)
    (after : ∀ block ∈ history, next < block.1) {written : List EntityKey}
    (unique : InterfaceUnique api layout.schema state written)
    (covered : ∀ block ∈ history, ∀ key ∈ writtenKeys block.2, key ∈ written) :
    ∃ layout' count, GraphNode.writeHistory api layout history = .ok (layout', count) ∧
      layout'.Tracks deployment (timelineAfter state history) (lastBlock next history) ∧
      layout'.countQuery = layout.countQuery + count ∧ layout'.schema = layout.schema := by
  induction history generalizing layout state next with
  | nil => exact ⟨layout, 0, rfl, tracks, by simp, rfl⟩
  | cons block rest ih =>
      obtain ⟨blockBelow, later, validBlock, validRest⟩ := valid
      have advanced := after block List.mem_cons_self
      have blockCovered := covered block List.mem_cons_self
      obtain ⟨free, apart⟩ := tracks.interfaceFree validBlock.ofDeployment unique blockCovered
      obtain ⟨layout', count, applied, writtenTracks, writtenCount, writtenSchema⟩ :=
        tracks.applyEntityModifications advanced blockBelow.le validBlock free apart
      have writtenSettled : ∀ t, block.1 ≤ t →
          Table.changeFrom state block.1 (applyModifications (state next) block.2) t =
            Table.changeFrom state block.1 (applyModifications (state next) block.2) block.1 :=
        fun t reached => by simp [Table.changeFrom, not_lt.mpr reached]
      obtain ⟨final, restCount, restWritten, finalTracks, finalCount, finalSchema⟩ :=
        ih writtenTracks writtenSettled (by rw [writtenSchema, Table.changeFrom_at]; exact validRest)
          later (writtenSchema ▸ unique.changeFrom validBlock.distinct blockCovered next block.1)
          fun other member => covered other (List.mem_cons_of_mem _ member)
      refine ⟨final, count + restCount, ?_, ?_, ?_, ?_⟩
      · simp [GraphNode.writeHistory, applied, restWritten, bind, Except.bind, pure, Except.pure]
      · rw [timelineAfter_cons settled advanced later]
        exact finalTracks
      · rw [finalCount, writtenCount]
        ring
      · rw [finalSchema, writtenSchema]

/-- The keys the blocks of a history insert or overwrite. -/
def historyWrittenKeys (history : List (Int × List EntityModification)) : List EntityKey :=
  history.flatMap fun block => writtenKeys block.2

/-- A layout with no rows writes every valid history whose written keys are unique, and then
tracks its time-travel store. -/
theorem Layout.writeHistory_of_rows_eq_nil {api : InterfaceSchema} {layout : Layout}
    (empty : ∀ table ∈ layout.tables, table.rows = [])
    {history : List (Int × List EntityModification)}
    (valid : ValidHistory layout.schema deployment (fun _ => none) history)
    (unique : InterfaceUnique api layout.schema (fun _ _ => none) (historyWrittenKeys history)) :
    ∃ written count next, GraphNode.writeHistory api layout history = .ok (written, count) ∧
      written.Tracks deployment (stateAt history) next ∧ next < blockNumberMax ∧
      written.schema = layout.schema := by
  have start : ∃ next, next < blockNumberMax ∧ ∀ block ∈ history, next < block.1 := by
    cases history with
    | nil => exact ⟨0, by decide, by simp⟩
    | cons first rest =>
        obtain ⟨firstBelow, later, _, _⟩ := valid
        refine ⟨first.1 - 1, by omega, fun block member => ?_⟩
        rcases List.mem_cons.mp member with same | member
        · rw [same]
          omega
        · have := later block member
          omega
  obtain ⟨next, belowMax, after⟩ := start
  obtain ⟨written, count, wrote, tracks, _, schema⟩ :=
    (Layout.tracks_of_rows_eq_nil empty next).writeHistory (fun _ _ => rfl) valid after unique
      fun block member key written => List.mem_flatMap.mpr ⟨block, member, written⟩
  exact ⟨written, count, lastBlock next history, wrote, tracks, lastBlock_lt valid belowMax, schema⟩

/-- On a tracking layout, `Layout::find` of an entity type with a table reads the timeline. -/
theorem Layout.Tracks.find_of_schema {layout : Layout} {state : Int → EntityKey → Option Entity}
    {next : Int} (tracks : layout.Tracks deployment state next) (belowMax : next ≤ blockNumberMax)
    {entityType : String} (has : layout.schema entityType ≠ none) (id : String) (t : Int) :
    layout.find entityType id t = .ok (state t ⟨deployment, entityType, id⟩) := by
  obtain ⟨table, found⟩ := Layout.find_of_schema has
  exact tracks.find belowMax found id t

end Writing

/-! ## Time travel -/

/-- A block-range store written from empty tables by a valid history is a time-travel store, and
`Layout::revert_block` turns it into the time-travel store of the history cut at the block. -/
theorem writeHistory_timeTravel {api : InterfaceSchema} {layout : Layout} {deployment : String}
    (empty : ∀ table ∈ layout.tables, table.rows = [])
    {history : List (Int × List EntityModification)}
    (valid : ValidHistory layout.schema deployment (fun _ => none) history)
    (unique : InterfaceUnique api layout.schema (fun _ _ => none) (historyWrittenKeys history)) :
    ∃ written count, writeHistory api layout history = .ok (written, count) ∧
      (∀ table ∈ written.tables, ∀ id t, (Table.versionsAt table.rows id t).length ≤ 1) ∧
      (∀ entityType, layout.schema entityType ≠ none → ∀ id t,
        written.find entityType id t = .ok (stateAt history t ⟨deployment, entityType, id⟩)) ∧
      ∀ r, ∃ reverted revertCount restricted restrictedCount,
        written.revertBlock r = .ok (reverted, revertCount) ∧
        writeHistory api layout (history.filter fun block => decide (block.1 < r)) =
          .ok (restricted, restrictedCount) ∧
        ∀ entityType, layout.schema entityType ≠ none → ∀ id t,
          reverted.find entityType id t = restricted.find entityType id t ∧
          restricted.find entityType id t =
            .ok (stateAt (history.filter fun block => decide (block.1 < r)) t
              ⟨deployment, entityType, id⟩) := by
  obtain ⟨written, count, next, wrote, tracks, belowMax, schema⟩ :=
    Layout.writeHistory_of_rows_eq_nil empty valid unique
  refine ⟨written, count, wrote, fun table member id t => (tracks table member).single id t,
    fun entityType has id t => tracks.find_of_schema belowMax.le (schema ▸ has) id t,
    fun r => ?_⟩
  obtain ⟨reverted, revertCount, revertedOk, revertedTracks, revertedSchema, _⟩ :=
    tracks.revertBlock belowMax r
  obtain ⟨restricted, restrictedCount, _, wroteRestricted, restrictedTracks, restrictedBelow,
    restrictedSchema⟩ := Layout.writeHistory_of_rows_eq_nil empty (valid.filter_lt r)
    (unique.mono fun key member => by
      obtain ⟨block, blockMember, written⟩ := List.mem_flatMap.mp member
      exact List.mem_flatMap.mpr ⟨block, List.mem_of_mem_filter blockMember, written⟩)
  refine ⟨reverted, revertCount, restricted, restrictedCount, revertedOk, wroteRestricted,
    fun entityType has id t => ?_⟩
  -- the reverted layout reads the history at `min t (r - 1)`, which the cut history reads at `t`
  have cut := timelineAfter_filter (fun _ _ => none) history r t
  have fromReverted := revertedTracks.find_of_schema (by omega)
    ((revertedSchema.trans schema).symm ▸ has) id t
  have fromRestricted := restrictedTracks.find_of_schema restrictedBelow.le
    (restrictedSchema.symm ▸ has) id t
  rw [fromReverted, fromRestricted]
  exact ⟨by rw [stateAt, stateAt, ← cut], rfl⟩

/-- A deployment with one mutable table of `Thing`s, which has no rows yet. -/
def thingLayout : Layout := ⟨[⟨"Thing", "sgd1.thing", false, false, []⟩], by decide⟩

/-- The API schema of `thingLayout`'s subgraph: `Thing` implements no interface. -/
def thingApi : InterfaceSchema := ⟨fun _ => [], fun _ => []⟩

/-- The key of the `Thing` with id `1`. -/
def thingKey : EntityKey := ⟨"deployment", "Thing", "1"⟩

/-- The `Thing` with id `1` and no other attribute. -/
def thingOne : Entity := (∅ : Entity).insert "id" (.string "1")

/-- A deployment with mutable tables of `Dog`s and `Cat`s, with no rows yet. -/
def petLayout : Layout :=
  ⟨[⟨"Dog", "sgd1.dog", false, false, []⟩, ⟨"Cat", "sgd1.cat", false, false, []⟩], by decide⟩

/-- `Dog` and `Cat` both implement the interface `Pet`. -/
def petApi : InterfaceSchema :=
  ⟨fun entityType => if entityType = "Dog" ∨ entityType = "Cat" then ["Pet"] else [],
    fun interface => if interface = "Pet" then ["Dog", "Cat"] else []⟩

/-- Insert the `Dog` `1` at block 0, the `Cat` `2` at block 1, and remove the `Dog` at block 2. -/
def petHistory : List (Int × List EntityModification) :=
  [(0, [.insert ⟨"deployment", "Dog", "1"⟩ thingOne]),
    (1, [.insert ⟨"deployment", "Cat", "2"⟩ thingOne]),
    (2, [.remove ⟨"deployment", "Dog", "1"⟩])]

theorem writeHistory_timeTravel_petHistory :
    ∃ written count, writeHistory petApi petLayout petHistory = .ok (written, count) ∧
      ∀ entityType, petLayout.schema entityType ≠ none → ∀ id t,
        written.find entityType id t = .ok (stateAt petHistory t ⟨"deployment", entityType, id⟩) := by
  have valid : ValidHistory petLayout.schema "deployment" (fun _ => none) petHistory :=
    ⟨by decide, by decide, ⟨by decide, by decide, by decide, by decide, by decide, by decide⟩,
      by decide, by decide, ⟨by decide, by decide, by decide, by decide, by decide, by decide⟩,
      by decide, by decide, ⟨by decide, by decide, by decide, by decide, by decide, by decide⟩,
      trivial⟩
  have unique : InterfaceUnique petApi petLayout.schema (fun _ _ => none)
      (historyWrittenKeys petHistory) :=
    interfaceUnique_of_apart (by decide)
  obtain ⟨written, count, wrote, _, reads, _⟩ := writeHistory_timeTravel (by decide) valid unique
  exact ⟨written, count, wrote, reads⟩

/-- Insert the `Thing` at block 0 and remove it at `BLOCK_NUMBER_MAX`. -/
def removedAtMax : List (Int × List EntityModification) :=
  [(0, [.insert thingKey thingOne]), (blockNumberMax, [.remove thingKey])]

/-- `RevertClampQuery` unclamps only ranges that end below `BLOCK_NUMBER_MAX`, so after reverting
that block a `Thing` is gone where the cut history keeps it. -/
theorem revertBlock_max_keeps_clamp :
    ((writeHistory thingApi thingLayout removedAtMax).bind fun written =>
        (written.1.revertBlock blockNumberMax).bind fun reverted =>
          reverted.1.find "Thing" "1" blockNumberMax) = .ok none ∧
      ((writeHistory thingApi thingLayout
          (removedAtMax.filter fun block => decide (block.1 < blockNumberMax))).map
        fun written => written.1.find "Thing" "1" blockNumberMax) = .ok (.ok (some thingOne)) ∧
      stateAt (removedAtMax.filter fun block => decide (block.1 < blockNumberMax)) blockNumberMax
        thingKey = some thingOne :=
  ⟨by decide +kernel, by decide +kernel, by decide +kernel⟩

end GraphNode
