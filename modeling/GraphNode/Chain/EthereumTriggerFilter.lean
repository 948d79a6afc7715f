import GraphNode.Chain.EthereumLogFilter
import Mathlib.Data.List.MinMax

/-!
# Ethereum trigger filters

The call filter, the block filter and the trigger filter of the Ethereum chain adapter
(`chain/ethereum/src/adapter.rs`), and how `TriggerFilter::extend` merges them.

A call filter keeps, per address, the least start block of its data sources and the selectors
of their call handlers, and `matches` a call by its first four input bytes.  An address kept
with no selector would match every call to it; no filter built from data sources and templates
has one (`WellFormed`), and on such filters `matches` is membership in the union of the
selectors (`matchesCall_of_wellFormed`).  A block filter keeps, per address, the least start
block of the data sources with a call-filtered block handler, as a set of pairs that `extend`
edits by finding the address's pair, and `Represents` says that it holds exactly one pair per
address, with that least block.

`triggerFilter_extend_union` puts these together: extending a filter with more data sources
merges each part as a union, and gives the filter that the data sources all together give.
-/

namespace Ethereum

/-! ## Least start blocks -/

/-- A list whose elements are exactly the value of `least` has it as its least element. -/
theorem minimum_eq_of_mem_iff_eq {l : List Int} {least : WithTop Int}
    (elements : ∀ x, x ∈ l ↔ least = x) : l.minimum = least := by
  cases least using WithTop.recTopCoe with
  | top =>
      have empty : l = [] := List.eq_nil_iff_forall_not_mem.mpr fun x member =>
        WithTop.top_ne_coe ((elements x).mp member)
      rw [empty, List.minimum_nil]
  | coe least =>
      refine List.minimum_eq_coe_iff.mpr ⟨(elements least).mpr rfl, fun x member => ?_⟩
      rw [WithTop.coe_eq_coe.mp ((elements x).mp member)]

/-! ## Call filters -/

/-- `EthereumCall`, by the fields the call filter reads. -/
structure EthereumCall (α : Type) where
  /-- `to` (a keyword of Lean). -/
  toAddress : α
  input : List UInt8

/-- `EthereumCallFilter`; a `HashSet` of selectors is the list of its elements. -/
structure EthereumCallFilter (α : Type) [DecidableEq α] where
  /-- Per address, the least start block and the selectors of its call handlers. -/
  contractAddressesFunctionSignatures : IndexMap α (Int × List (List UInt8))
  wildcardSignatures : List (List UInt8)

namespace EthereumCallFilter

variable {α σ : Type} [DecidableEq α]

/-- `EthereumCallFilter::default()`. -/
def empty : EthereumCallFilter α :=
  ⟨IndexMap.empty, []⟩

/-- `EthereumCallFilter::matches`: a call whose input is a selector and whole words, to an
address kept with no selector, or with its selector among the address's or the wildcards. -/
def matchesCall (filter : EthereumCallFilter α) (call : EthereumCall α) : Bool :=
  if call.input.length < 4 then false
  else if (call.input.length - 4) % 32 ≠ 0 then false
  else
    let callSignature := call.input.take 4
    match filter.contractAddressesFunctionSignatures.get? call.toAddress with
    | some v =>
        if v.2.isEmpty then true
        else v.2.contains callSignature || filter.wildcardSignatures.contains callSignature
    | none => filter.wildcardSignatures.contains callSignature

/-- `EthereumCallFilter::from_mapping`: a template's selectors are wildcards. -/
def fromMapping (mapping : Mapping σ) : EthereumCallFilter α :=
  ⟨IndexMap.empty, mapping.callHandlers.map fun callHandler => callHandler.selector⟩

/-- One `(start_block, address, selector)` of `from_iter`: the address gets an entry if it has
none, then the lower start block and the selector. -/
def addCallHandler (lookup : IndexMap α (Int × List (List UInt8))) (startBlock : Int) (address : α)
    (functionSignature : List UInt8) : IndexMap α (Int × List (List UInt8)) :=
  let lookup := if (lookup.get? address).isSome then lookup else lookup.insert address (startBlock, [])
  lookup.modify address fun set =>
    (if set.1 > startBlock then startBlock else set.1, set.2.insert functionSignature)

/-- `EthereumCallFilter::from_iter`. -/
def fromIter (items : List (Int × α × List UInt8)) : EthereumCallFilter α :=
  ⟨items.foldl (fun lookup item => addCallHandler lookup item.1 item.2.1 item.2.2) IndexMap.empty,
    []⟩

/-- The `(start_block, address, selector)` of each call handler of a data source with an
address. -/
def callHandlerItems (dataSources : List (DataSource α σ)) : List (Int × α × List UInt8) :=
  dataSources.flatMap fun ds =>
    match ds.source.address with
    | some contractAddr =>
        ds.mapping.callHandlers.map fun callHandler =>
          (ds.source.startBlock, contractAddr, callHandler.selector)
    | none => []

/-- `EthereumCallFilter::from_data_sources`. -/
def fromDataSources (dataSources : List (DataSource α σ)) : EthereumCallFilter α :=
  fromIter (callHandlerItems dataSources)

/-- One address of the other filter in `extend`: the lower start block and the union of the
selectors, or a new entry. -/
def extendEntry (map : IndexMap α (Int × List (List UInt8)))
    (entry : α × (Int × List (List UInt8))) : IndexMap α (Int × List (List UInt8)) :=
  match map.get? entry.1 with
  | some _ => map.modify entry.1 fun existing => (min entry.2.1 existing.1, entry.2.2 ∪ existing.2)
  | none => map.insert entry.1 entry.2

/-- `EthereumCallFilter::is_empty`. -/
def isEmpty (filter : EthereumCallFilter α) : Bool :=
  filter.contractAddressesFunctionSignatures.entries.isEmpty && filter.wildcardSignatures.isEmpty

/-- `EthereumCallFilter::extend`. -/
def extend (this other : EthereumCallFilter α) : EthereumCallFilter α :=
  if other.isEmpty then this
  else
    ⟨other.contractAddressesFunctionSignatures.entries.foldl extendEntry
        this.contractAddressesFunctionSignatures,
      other.wildcardSignatures ∪ this.wildcardSignatures⟩

/-! ### What a call filter keeps per address -/

/-- The selectors kept for `address`. -/
def selectorsAt (map : IndexMap α (Int × List (List UInt8))) (address : α) : List (List UInt8) :=
  ((map.get? address).map Prod.snd).getD []

/-- The start block kept for `address`, and `⊤` for an address not kept. -/
def startAt (map : IndexMap α (Int × List (List UInt8))) (address : α) : WithTop Int :=
  ((map.get? address).map fun entry => (entry.1 : WithTop Int)).getD ⊤

/-- Every address kept has a selector. -/
def WellFormed (filter : EthereumCallFilter α) : Prop :=
  ∀ address entry, filter.contractAddressesFunctionSignatures.get? address = some entry → entry.2 ≠ []

/-- On a well-formed filter, `matches` tests the selector against those of the address and the
wildcards. -/
theorem matchesCall_of_wellFormed {filter : EthereumCallFilter α} (wellFormed : filter.WellFormed)
    (call : EthereumCall α) :
    filter.matchesCall call =
      if call.input.length < 4 then false
      else if (call.input.length - 4) % 32 ≠ 0 then false
      else
        (selectorsAt filter.contractAddressesFunctionSignatures call.toAddress).contains
            (call.input.take 4) ||
          filter.wildcardSignatures.contains (call.input.take 4) := by
  unfold matchesCall
  split_ifs
  · rfl
  · rfl
  · unfold selectorsAt
    cases kept : filter.contractAddressesFunctionSignatures.get? call.toAddress with
    | none => simp
    | some entry =>
        have selectors := wellFormed call.toAddress entry kept
        simp [List.isEmpty_iff, selectors]

theorem get?_addCallHandler (lookup : IndexMap α (Int × List (List UInt8))) (startBlock : Int)
    (address probe : α) (functionSignature : List UInt8) :
    (addCallHandler lookup startBlock address functionSignature).get? probe =
      if address = probe then
        let set := (lookup.get? address).getD (startBlock, [])
        some (if set.1 > startBlock then startBlock else set.1, set.2.insert functionSignature)
      else lookup.get? probe := by
  unfold addCallHandler
  rw [IndexMap.get?_modify]
  by_cases same : address = probe
  · subst same
    cases kept : lookup.get? address with
    | none => simp [IndexMap.get?_insert]
    | some set => simp [kept]
  · simp only [same, if_false]
    split
    · rfl
    · rw [IndexMap.get?_insert, if_neg same]

theorem get?_extendEntry (map : IndexMap α (Int × List (List UInt8)))
    (entry : α × (Int × List (List UInt8))) (probe : α) :
    (extendEntry map entry).get? probe =
      if entry.1 = probe then
        some (match map.get? entry.1 with
          | some existing => (min entry.2.1 existing.1, entry.2.2 ∪ existing.2)
          | none => entry.2)
      else map.get? probe := by
  unfold extendEntry
  cases kept : map.get? entry.1 with
  | none => rw [IndexMap.get?_insert]
  | some existing =>
      rw [IndexMap.get?_modify]
      by_cases same : entry.1 = probe
      · subst same
        simp [kept]
      · simp [same]

/-! ### Building a call filter from data sources -/

/-- The start blocks of the items of one address. -/
def itemStarts (items : List (Int × α × List UInt8)) (address : α) : List Int :=
  items.filterMap fun item => if item.2.1 = address then some item.1 else none

theorem itemStarts_cons (item : Int × α × List UInt8) (items : List (Int × α × List UInt8))
    (address : α) :
    itemStarts (item :: items) address =
      if item.2.1 = address then item.1 :: itemStarts items address else itemStarts items address := by
  by_cases same : item.2.1 = address <;> simp [itemStarts, same]

/-- `from_iter` keeps the lower of two start blocks. -/
theorem lower_eq_min (current startBlock : Int) :
    (if current > startBlock then startBlock else current) = min current startBlock := by
  split_ifs <;> omega

theorem mem_selectorsAt_addCallHandler (lookup : IndexMap α (Int × List (List UInt8)))
    (startBlock : Int) (address probe : α) (functionSignature selector : List UInt8) :
    selector ∈ selectorsAt (addCallHandler lookup startBlock address functionSignature) probe ↔
      selector ∈ selectorsAt lookup probe ∨ (address = probe ∧ selector = functionSignature) := by
  unfold selectorsAt
  rw [get?_addCallHandler]
  by_cases same : address = probe
  · subst same
    cases lookup.get? address <;> simp [or_comm]
  · simp [same]

theorem startAt_addCallHandler (lookup : IndexMap α (Int × List (List UInt8))) (startBlock : Int)
    (address probe : α) (functionSignature : List UInt8) :
    startAt (addCallHandler lookup startBlock address functionSignature) probe =
      if address = probe then min (startAt lookup probe) startBlock else startAt lookup probe := by
  unfold startAt
  rw [get?_addCallHandler]
  by_cases same : address = probe
  · subst same
    cases lookup.get? address with
    | none => simp
    | some set => simp [lower_eq_min]
  · simp [same]

theorem mem_selectorsAt_foldl_addCallHandler (items : List (Int × α × List UInt8))
    (lookup : IndexMap α (Int × List (List UInt8))) (probe : α) (selector : List UInt8) :
    selector ∈ selectorsAt
        (items.foldl (fun lookup item => addCallHandler lookup item.1 item.2.1 item.2.2) lookup) probe ↔
      selector ∈ selectorsAt lookup probe ∨ ∃ item ∈ items, item.2.1 = probe ∧ item.2.2 = selector := by
  induction items generalizing lookup with
  | nil => simp
  | cons item items induction =>
      rw [List.foldl_cons, induction, mem_selectorsAt_addCallHandler]
      simp only [List.mem_cons, exists_eq_or_imp]
      tauto

theorem startAt_foldl_addCallHandler (items : List (Int × α × List UInt8))
    (lookup : IndexMap α (Int × List (List UInt8))) (probe : α) :
    startAt (items.foldl (fun lookup item => addCallHandler lookup item.1 item.2.1 item.2.2) lookup)
        probe =
      min (startAt lookup probe) (itemStarts items probe).minimum := by
  induction items generalizing lookup with
  | nil => simp [itemStarts]
  | cons item items induction =>
      rw [List.foldl_cons, induction, startAt_addCallHandler, itemStarts_cons]
      by_cases same : item.2.1 = probe
      · simp [same, List.minimum_cons, min_assoc]
      · simp [same]

theorem wellFormed_foldl_addCallHandler (items : List (Int × α × List UInt8))
    {lookup : IndexMap α (Int × List (List UInt8))}
    (wellFormed : ∀ address entry, lookup.get? address = some entry → entry.2 ≠ []) :
    ∀ address entry,
      (items.foldl (fun lookup item => addCallHandler lookup item.1 item.2.1 item.2.2) lookup).get?
          address = some entry → entry.2 ≠ [] := by
  induction items generalizing lookup with
  | nil => exact wellFormed
  | cons item items induction =>
      apply induction
      intro address entry kept
      rw [get?_addCallHandler] at kept
      split at kept
      · cases kept
        exact List.ne_nil_of_mem List.mem_insert_self
      · exact wellFormed address entry kept

theorem wellFormed_fromIter (items : List (Int × α × List UInt8)) : (fromIter items).WellFormed :=
  wellFormed_foldl_addCallHandler items (by simp)

omit [DecidableEq α] in
theorem callHandlerItems_append (front back : List (DataSource α σ)) :
    callHandlerItems (front ++ back) = callHandlerItems front ++ callHandlerItems back :=
  List.flatMap_append

theorem mem_selectorsAt_fromDataSources (dataSources : List (DataSource α σ)) (probe : α)
    (selector : List UInt8) :
    selector ∈ selectorsAt (fromDataSources dataSources).contractAddressesFunctionSignatures probe ↔
      ∃ item ∈ callHandlerItems dataSources, item.2.1 = probe ∧ item.2.2 = selector := by
  rw [fromDataSources, fromIter, mem_selectorsAt_foldl_addCallHandler]
  simp [selectorsAt]

theorem startAt_fromDataSources (dataSources : List (DataSource α σ)) (probe : α) :
    startAt (fromDataSources dataSources).contractAddressesFunctionSignatures probe =
      (itemStarts (callHandlerItems dataSources) probe).minimum := by
  rw [fromDataSources, fromIter, startAt_foldl_addCallHandler]
  simp [startAt]

/-! ### Extending a call filter -/

/-- The start blocks of the entries of one address. -/
def entryStarts (entries : List (α × (Int × List (List UInt8)))) (address : α) : List Int :=
  entries.filterMap fun entry => if entry.1 = address then some entry.2.1 else none

theorem mem_selectorsAt_foldl_extendEntry (entries : List (α × (Int × List (List UInt8))))
    (map : IndexMap α (Int × List (List UInt8))) (probe : α) (selector : List UInt8) :
    selector ∈ selectorsAt (entries.foldl extendEntry map) probe ↔
      selector ∈ selectorsAt map probe ∨ ∃ entry ∈ entries, entry.1 = probe ∧ selector ∈ entry.2.2 := by
  induction entries generalizing map with
  | nil => simp
  | cons entry entries induction =>
      rw [List.foldl_cons, induction]
      have step : selector ∈ selectorsAt (extendEntry map entry) probe ↔
          selector ∈ selectorsAt map probe ∨ (entry.1 = probe ∧ selector ∈ entry.2.2) := by
        unfold selectorsAt
        rw [get?_extendEntry]
        by_cases same : entry.1 = probe
        · subst same
          cases map.get? entry.1 <;> simp [or_comm]
        · simp [same]
      rw [step]
      simp only [List.mem_cons, exists_eq_or_imp]
      tauto

theorem startAt_foldl_extendEntry (entries : List (α × (Int × List (List UInt8))))
    (map : IndexMap α (Int × List (List UInt8))) (probe : α) :
    startAt (entries.foldl extendEntry map) probe =
      min (startAt map probe) (entryStarts entries probe).minimum := by
  induction entries generalizing map with
  | nil => simp [entryStarts]
  | cons entry entries induction =>
      rw [List.foldl_cons, induction]
      have step : startAt (extendEntry map entry) probe =
          if entry.1 = probe then min (startAt map probe) entry.2.1 else startAt map probe := by
        unfold startAt
        rw [get?_extendEntry]
        by_cases same : entry.1 = probe
        · subst same
          cases map.get? entry.1 <;> simp [min_comm]
        · simp [same]
      rw [step]
      by_cases same : entry.1 = probe
      · simp [same, entryStarts, List.minimum_cons, min_assoc]
      · simp [same, entryStarts]

theorem wellFormed_foldl_extendEntry {entries : List (α × (Int × List (List UInt8)))}
    (selectors : ∀ entry ∈ entries, entry.2.2 ≠ []) {map : IndexMap α (Int × List (List UInt8))}
    (wellFormed : ∀ address entry, map.get? address = some entry → entry.2 ≠ []) :
    ∀ address entry, (entries.foldl extendEntry map).get? address = some entry → entry.2 ≠ [] := by
  induction entries generalizing map with
  | nil => exact wellFormed
  | cons entry entries induction =>
      refine induction (fun other member => selectors other (List.mem_cons_of_mem entry member)) ?_
      intro address kept stored
      have own := selectors entry List.mem_cons_self
      rw [get?_extendEntry] at stored
      split at stored
      · cases stored
        obtain ⟨selector, member⟩ := List.exists_mem_of_ne_nil _ own
        split
        · exact List.ne_nil_of_mem (List.mem_union_iff.mpr (Or.inl member))
        · exact own
      · exact wellFormed address kept stored

/-- The entries of a map, read per address, are what the map keeps there. -/
theorem exists_entry_iff (map : IndexMap α (Int × List (List UInt8))) (probe : α)
    (selector : List UInt8) :
    (∃ entry ∈ map.entries, entry.1 = probe ∧ selector ∈ entry.2.2) ↔
      selector ∈ selectorsAt map probe := by
  unfold selectorsAt
  constructor
  · rintro ⟨⟨address, kept⟩, member, rfl, listed⟩
    rw [(IndexMap.mem_entries_iff map address kept).mp member]
    exact listed
  · intro listed
    cases stored : map.get? probe with
    | none => simp [stored] at listed
    | some kept =>
        rw [stored] at listed
        exact ⟨(probe, kept), (IndexMap.mem_entries_iff map probe kept).mpr stored, rfl, listed⟩

theorem minimum_entryStarts (map : IndexMap α (Int × List (List UInt8))) (probe : α) :
    (entryStarts map.entries probe).minimum = startAt map probe := by
  apply minimum_eq_of_mem_iff_eq
  intro startBlock
  simp only [entryStarts, List.mem_filterMap, Option.ite_none_right_eq_some, Option.some.injEq]
  unfold startAt
  constructor
  · rintro ⟨⟨address, kept⟩, member, rfl, rfl⟩
    rw [(IndexMap.mem_entries_iff map address kept).mp member]
    rfl
  · intro stored
    cases kept : map.get? probe with
    | none => simp [kept] at stored
    | some kept' =>
        rw [kept] at stored
        refine ⟨(probe, kept'), (IndexMap.mem_entries_iff map probe kept').mpr kept, rfl, ?_⟩
        exact WithTop.coe_eq_coe.mp stored

theorem selectorsAt_of_isEmpty {filter : EthereumCallFilter α} (isEmpty : filter.isEmpty = true)
    (probe : α) : selectorsAt filter.contractAddressesFunctionSignatures probe = [] := by
  simp only [EthereumCallFilter.isEmpty, Bool.and_eq_true, List.isEmpty_iff] at isEmpty
  simp [selectorsAt, IndexMap.get?, KeyedList.find, isEmpty.1]

theorem startAt_of_isEmpty {filter : EthereumCallFilter α} (isEmpty : filter.isEmpty = true)
    (probe : α) : startAt filter.contractAddressesFunctionSignatures probe = ⊤ := by
  simp only [EthereumCallFilter.isEmpty, Bool.and_eq_true, List.isEmpty_iff] at isEmpty
  simp [startAt, IndexMap.get?, KeyedList.find, isEmpty.1]

theorem mem_selectorsAt_extend (this other : EthereumCallFilter α) (probe : α)
    (selector : List UInt8) :
    selector ∈ selectorsAt (this.extend other).contractAddressesFunctionSignatures probe ↔
      selector ∈ selectorsAt other.contractAddressesFunctionSignatures probe ∨
        selector ∈ selectorsAt this.contractAddressesFunctionSignatures probe := by
  unfold extend
  split
  · rename_i isEmpty
    simp [selectorsAt_of_isEmpty isEmpty]
  · rw [mem_selectorsAt_foldl_extendEntry, exists_entry_iff, or_comm]

theorem mem_wildcardSignatures_extend (this other : EthereumCallFilter α) (selector : List UInt8) :
    selector ∈ (this.extend other).wildcardSignatures ↔
      selector ∈ other.wildcardSignatures ∨ selector ∈ this.wildcardSignatures := by
  unfold extend
  split
  · rename_i isEmpty
    simp only [EthereumCallFilter.isEmpty, Bool.and_eq_true, List.isEmpty_iff] at isEmpty
    simp [isEmpty.2]
  · exact List.mem_union_iff

theorem startAt_extend (this other : EthereumCallFilter α) (probe : α) :
    startAt (this.extend other).contractAddressesFunctionSignatures probe =
      min (startAt this.contractAddressesFunctionSignatures probe)
        (startAt other.contractAddressesFunctionSignatures probe) := by
  unfold extend
  split
  · rename_i isEmpty
    rw [startAt_of_isEmpty isEmpty, min_top_right]
  · rw [startAt_foldl_extendEntry, minimum_entryStarts]

theorem WellFormed.extend {this other : EthereumCallFilter α} (wellFormed : this.WellFormed)
    (otherWellFormed : other.WellFormed) : (this.extend other).WellFormed := by
  unfold EthereumCallFilter.extend
  split
  · exact wellFormed
  · refine wellFormed_foldl_extendEntry ?_ wellFormed
    rintro ⟨address, kept⟩ member
    exact otherWellFormed address kept ((IndexMap.mem_entries_iff _ address kept).mp member)

theorem wellFormed_fromMapping (mapping : Mapping σ) :
    (fromMapping mapping : EthereumCallFilter α).WellFormed := by
  simp [WellFormed, fromMapping]

theorem wellFormed_empty : (empty : EthereumCallFilter α).WellFormed := by
  simp [WellFormed, empty]

theorem wellFormed_fromDataSources (dataSources : List (DataSource α σ)) :
    (fromDataSources dataSources : EthereumCallFilter α).WellFormed :=
  wellFormed_fromIter _

@[simp]
theorem selectorsAt_empty (probe : α) :
    selectorsAt (empty : EthereumCallFilter α).contractAddressesFunctionSignatures probe = [] :=
  rfl

@[simp]
theorem startAt_empty (probe : α) :
    startAt (empty : EthereumCallFilter α).contractAddressesFunctionSignatures probe = ⊤ :=
  rfl

theorem itemStarts_append (front back : List (Int × α × List UInt8)) (address : α) :
    itemStarts (front ++ back) address = itemStarts front address ++ itemStarts back address :=
  List.filterMap_append

/-! ### Matching after a merge -/

/-- Two well-formed filters with the same selectors per address and the same wildcards match the
same calls. -/
theorem matchesCall_congr {first second : EthereumCallFilter α} (firstWellFormed : first.WellFormed)
    (secondWellFormed : second.WellFormed)
    (selectors : ∀ probe selector,
      selector ∈ selectorsAt first.contractAddressesFunctionSignatures probe ↔
        selector ∈ selectorsAt second.contractAddressesFunctionSignatures probe)
    (wildcards : ∀ selector, selector ∈ first.wildcardSignatures ↔ selector ∈ second.wildcardSignatures)
    (call : EthereumCall α) : first.matchesCall call = second.matchesCall call := by
  rw [matchesCall_of_wellFormed firstWellFormed, matchesCall_of_wellFormed secondWellFormed]
  split_ifs
  · rfl
  · rfl
  · rw [Bool.eq_iff_iff]
    simp only [Bool.or_eq_true, List.contains_iff_mem, selectors, wildcards]

/-- A merged well-formed filter matches what either of its parts matches. -/
theorem matchesCall_extend {this other : EthereumCallFilter α} (wellFormed : this.WellFormed)
    (otherWellFormed : other.WellFormed) (call : EthereumCall α) :
    (this.extend other).matchesCall call = (this.matchesCall call || other.matchesCall call) := by
  rw [matchesCall_of_wellFormed (wellFormed.extend otherWellFormed),
    matchesCall_of_wellFormed wellFormed, matchesCall_of_wellFormed otherWellFormed]
  split_ifs
  · rfl
  · rfl
  · rw [Bool.eq_iff_iff]
    simp only [Bool.or_eq_true, List.contains_iff_mem, mem_selectorsAt_extend,
      mem_wildcardSignatures_extend]
    tauto

end EthereumCallFilter

/-! ## Block filters -/

/-- `EthereumBlockFilter`; the `HashSet` of `(start_block, address)` pairs is the list of its
elements. -/
structure EthereumBlockFilter (α : Type) where
  contractAddresses : List (Int × α)
  triggerEveryBlock : Bool

namespace EthereumBlockFilter

variable {α σ : Type} [DecidableEq α]

/-- `EthereumBlockFilter::default()`. -/
def empty : EthereumBlockFilter α :=
  ⟨[], false⟩

/-- `EthereumBlockFilter::find_contract_address`: the first pair of the address. -/
def findContractAddress (filter : EthereumBlockFilter α) (candidate : α) : Option (Int × α) :=
  filter.contractAddresses.find? fun entry => candidate == entry.2

/-- `EthereumBlockFilter::is_empty`. -/
def isEmpty (filter : EthereumBlockFilter α) : Bool :=
  if filter.triggerEveryBlock then false else filter.contractAddresses.isEmpty

/-- One pair of the other filter in `extend`: it takes the place of the address's pair when its
start block is lower, and is inserted when the address has none. -/
def extendAddress (this : EthereumBlockFilter α) (other : Int × α) : EthereumBlockFilter α :=
  match this.findContractAddress other.2 with
  | some (currentStartBlock, currentAddress) =>
      if other.1 < currentStartBlock then
        { this with
          contractAddresses :=
            (this.contractAddresses.erase (currentStartBlock, currentAddress)).insert other }
      else this
  | none => { this with contractAddresses := this.contractAddresses.insert other }

/-- `EthereumBlockFilter::extend`. -/
def extend (this other : EthereumBlockFilter α) : EthereumBlockFilter α :=
  if other.isEmpty then this
  else
    other.contractAddresses.foldl extendAddress
      { this with triggerEveryBlock := this.triggerEveryBlock || other.triggerEveryBlock }

/-- `EthereumBlockFilter::from_mapping`: a template's block handlers trigger on every block. -/
def fromMapping (mapping : Mapping σ) : EthereumBlockFilter α :=
  ⟨[], mapping.blockHandlers.length != 0⟩

/-- A block handler with the call filter. -/
def hasBlockHandlerWithCallFilter (mapping : Mapping σ) : Bool :=
  mapping.blockHandlers.any fun blockHandler => blockHandler.filter == some .call

/-- A block handler without a filter. -/
def hasBlockHandlerWithoutFilter (mapping : Mapping σ) : Bool :=
  mapping.blockHandlers.any fun blockHandler => blockHandler.filter.isNone

/-- The filter `from_data_sources` extends with for one data source with an address (whose
`unwrap` therefore succeeds). -/
def ofDataSource (ds : DataSource α σ) : EthereumBlockFilter α where
  triggerEveryBlock := hasBlockHandlerWithoutFilter ds.mapping
  contractAddresses :=
    if hasBlockHandlerWithCallFilter ds.mapping then
      ds.source.address.toList.map fun address => (ds.source.startBlock, address)
    else []

/-- `EthereumBlockFilter::from_data_sources`. -/
def fromDataSources (dataSources : List (DataSource α σ)) : EthereumBlockFilter α :=
  (dataSources.filter fun ds => ds.source.address.isSome).foldl
    (fun filterOpt ds => filterOpt.extend (ofDataSource ds)) empty

/-! ### One pair per address, with the least start block -/

/-- The start blocks of the data sources for `address` with a call-filtered block handler. -/
def callFilteredStarts (dataSources : List (DataSource α σ)) (address : α) : List Int :=
  dataSources.filterMap fun ds =>
    if ds.source.address = some address ∧ hasBlockHandlerWithCallFilter ds.mapping = true then
      some ds.source.startBlock
    else none

/-- The filter holds, for each address, exactly the pair of its block in `least`, and none for
an address whose block is `⊤`. -/
structure Represents (filter : EthereumBlockFilter α) (least : α → WithTop Int) : Prop where
  mem_iff : ∀ startBlock address,
    (startBlock, address) ∈ filter.contractAddresses ↔ least address = startBlock
  nodup : (filter.contractAddresses.map Prod.snd).Nodup

/-- The start blocks of the pairs of one address. -/
def pairStarts (pairs : List (Int × α)) (address : α) : List Int :=
  pairs.filterMap fun pair => if pair.2 = address then some pair.1 else none

omit [DecidableEq α] in
theorem Represents.nodup_pairs {filter : EthereumBlockFilter α} {least : α → WithTop Int}
    (represents : filter.Represents least) : filter.contractAddresses.Nodup :=
  List.Nodup.of_map Prod.snd represents.nodup

theorem Represents.minimum_pairStarts {filter : EthereumBlockFilter α} {least : α → WithTop Int}
    (represents : filter.Represents least) (address : α) :
    (pairStarts filter.contractAddresses address).minimum = least address := by
  apply minimum_eq_of_mem_iff_eq
  intro startBlock
  rw [← represents.mem_iff]
  simp only [pairStarts, List.mem_filterMap, Option.ite_none_right_eq_some, Option.some.injEq]
  constructor
  · rintro ⟨⟨start, other⟩, member, rfl, rfl⟩
    exact member
  · intro member
    exact ⟨(startBlock, address), member, rfl, rfl⟩

/-- `find_contract_address` finds the address's one pair. -/
theorem Represents.findContractAddress {filter : EthereumBlockFilter α} {least : α → WithTop Int}
    (represents : filter.Represents least) (address : α) :
    filter.findContractAddress address =
      match least address with
      | ⊤ => none
      | (startBlock : Int) => some (startBlock, address) := by
  unfold EthereumBlockFilter.findContractAddress
  cases found : filter.contractAddresses.find? fun entry => address == entry.2 with
  | some pair =>
      obtain ⟨member, hit⟩ := List.mem_of_find?_eq_some found, List.find?_some found
      have same : pair.2 = address := (beq_iff_eq.mp hit).symm
      have kept := (represents.mem_iff pair.1 pair.2).mp member
      rw [same] at kept
      rw [kept]
      rw [← same]
  | none =>
      have absent : ∀ startBlock : Int, least address ≠ startBlock := by
        intro startBlock kept
        have member := (represents.mem_iff startBlock address).mpr kept
        exact absurd (beq_self_eq_true address) (by simpa using List.find?_eq_none.mp found _ member)
      cases kept : least address using WithTop.recTopCoe with
      | top => rfl
      | coe startBlock => exact absurd kept (absent startBlock)

omit [DecidableEq α] in
/-- The filter with other pairs, read the same way. -/
theorem Represents.withPairs {filter : EthereumBlockFilter α} {least : α → WithTop Int}
    {pairs : List (Int × α)}
    (mem_iff : ∀ startBlock address, (startBlock, address) ∈ pairs ↔ least address = startBlock)
    (nodup : (pairs.map Prod.snd).Nodup) :
    ({ filter with contractAddresses := pairs } : EthereumBlockFilter α).Represents least :=
  ⟨mem_iff, nodup⟩

/-- A pair for an address without one is inserted. -/
theorem Represents.insert_fresh {filter : EthereumBlockFilter α} {least : α → WithTop Int}
    (represents : filter.Represents least) {startBlock : Int} {address : α} (absent : least address = ⊤) :
    ({ filter with contractAddresses := filter.contractAddresses.insert (startBlock, address) } :
        EthereumBlockFilter α).Represents (Function.update least address startBlock) := by
  have unpaired : ∀ other, (other, address) ∉ filter.contractAddresses := fun other member =>
    WithTop.top_ne_coe (absent ▸ (represents.mem_iff other address).mp member)
  apply Represents.withPairs
  · intro start probe
    rw [List.mem_insert_iff, represents.mem_iff, Function.update_apply]
    by_cases same : probe = address
    · subst same
      simp [absent, eq_comm]
    · simp [same]
  · rw [List.insert_of_not_mem (unpaired startBlock), List.map_cons]
    refine List.nodup_cons.mpr ⟨fun member => ?_, represents.nodup⟩
    obtain ⟨⟨other, paired⟩, otherMember, rfl⟩ := List.mem_map.mp member
    exact unpaired other otherMember

/-- A new pair takes the place of the address's pair. -/
theorem Represents.replace {filter : EthereumBlockFilter α} {least : α → WithTop Int}
    (represents : filter.Represents least) {startBlock current : Int} {address : α}
    (kept : least address = current) :
    ({ filter with
        contractAddresses :=
          (filter.contractAddresses.erase (current, address)).insert (startBlock, address) } :
        EthereumBlockFilter α).Represents (Function.update least address startBlock) := by
  have nodup := represents.nodup_pairs
  have erased : ∀ pair, pair ∈ filter.contractAddresses.erase (current, address) ↔
      pair ≠ (current, address) ∧ pair ∈ filter.contractAddresses := fun pair =>
    nodup.mem_erase_iff
  have unpaired : ∀ other, (other, address) ∉ filter.contractAddresses.erase (current, address) := by
    intro other member
    obtain ⟨different, member⟩ := (erased _).mp member
    have same : (current : WithTop Int) = other := kept ▸ (represents.mem_iff other address).mp member
    exact different (by rw [WithTop.coe_eq_coe.mp same])
  apply Represents.withPairs
  · intro start probe
    rw [List.mem_insert_iff, erased, represents.mem_iff, Function.update_apply]
    by_cases same : probe = address
    · subst same
      rw [kept]
      constructor
      · rintro (pair | ⟨different, was⟩)
        · simp_all
        · exact absurd (by rw [WithTop.coe_eq_coe.mp was]) different
      · intro isNew
        exact Or.inl (by simp_all)
    · simp [same]
  · rw [List.insert_of_not_mem (unpaired startBlock), List.map_cons]
    refine List.nodup_cons.mpr ⟨fun member => ?_, ?_⟩
    · obtain ⟨⟨other, paired⟩, otherMember, rfl⟩ := List.mem_map.mp member
      exact unpaired other otherMember
    · exact represents.nodup.sublist (List.erase_sublist.map Prod.snd)

theorem Represents.extendAddress {filter : EthereumBlockFilter α} {least : α → WithTop Int}
    (represents : filter.Represents least) (pair : Int × α) :
    (filter.extendAddress pair).Represents
      (Function.update least pair.2 (min (least pair.2) pair.1)) := by
  obtain ⟨startBlock, address⟩ := pair
  have found := represents.findContractAddress address
  unfold EthereumBlockFilter.extendAddress
  cases kept : least address using WithTop.recTopCoe with
  | top =>
      rw [kept] at found
      simp only [found, min_eq_right le_top]
      exact represents.insert_fresh kept
  | coe current =>
      rw [kept] at found
      simp only [found]
      split_ifs with lower
      · rw [min_eq_right (WithTop.coe_le_coe.mpr lower.le)]
        exact represents.replace kept
      · have same : Function.update least address (min (↑current) ↑startBlock) = least := by
          rw [min_eq_left (WithTop.coe_le_coe.mpr (not_lt.mp lower)), ← kept]
          exact Function.update_eq_self address least
        rw [same]
        exact represents

theorem pairStarts_cons (pair : Int × α) (pairs : List (Int × α)) (address : α) :
    pairStarts (pair :: pairs) address =
      if pair.2 = address then pair.1 :: pairStarts pairs address else pairStarts pairs address := by
  by_cases same : pair.2 = address <;> simp [pairStarts, same]

/-- `extend` folds `extendAddress` over the other filter's pairs: each address ends with the
least of its blocks. -/
theorem Represents.foldl_extendAddress {filter : EthereumBlockFilter α} {least : α → WithTop Int}
    (represents : filter.Represents least) (pairs : List (Int × α)) :
    (pairs.foldl EthereumBlockFilter.extendAddress filter).Represents
      fun address => min (least address) (pairStarts pairs address).minimum := by
  induction pairs generalizing filter least with
  | nil =>
      have same : (fun address => min (least address) (pairStarts [] address).minimum) = least := by
        funext address
        simp [pairStarts]
      rw [List.foldl_nil, same]
      exact represents
  | cons pair pairs induction =>
      have same : (fun address =>
            min (Function.update least pair.2 (min (least pair.2) pair.1) address)
              (pairStarts pairs address).minimum) =
          fun address => min (least address) (pairStarts (pair :: pairs) address).minimum := by
        funext address
        rw [pairStarts_cons, Function.update_apply]
        by_cases same : address = pair.2
        · subst same
          simp [List.minimum_cons, min_assoc]
        · simp [same, Ne.symm same]
      rw [List.foldl_cons, ← same]
      exact induction (represents.extendAddress pair)

omit [DecidableEq α] in
theorem contractAddresses_of_isEmpty {filter : EthereumBlockFilter α} (isEmpty : filter.isEmpty = true) :
    filter.contractAddresses = [] ∧ filter.triggerEveryBlock = false := by
  unfold EthereumBlockFilter.isEmpty at isEmpty
  split at isEmpty
  · cases isEmpty
  · rename_i quiet
    exact ⟨List.isEmpty_iff.mp isEmpty, by simpa using quiet⟩

theorem Represents.extend {this other : EthereumBlockFilter α} {least otherLeast : α → WithTop Int}
    (represents : this.Represents least) (otherRepresents : other.Represents otherLeast) :
    (this.extend other).Represents fun address => min (least address) (otherLeast address) := by
  have otherStarts := otherRepresents.minimum_pairStarts
  unfold EthereumBlockFilter.extend
  split
  · rename_i isEmpty
    have same : (fun address => min (least address) (otherLeast address)) = least := by
      funext address
      rw [← otherStarts, (contractAddresses_of_isEmpty isEmpty).1]
      simp [pairStarts]
    rw [same]
    exact represents
  · have flagged : ({ this with triggerEveryBlock := this.triggerEveryBlock || other.triggerEveryBlock } :
        EthereumBlockFilter α).Represents least := ⟨represents.mem_iff, represents.nodup⟩
    have merged := flagged.foldl_extendAddress other.contractAddresses
    simp only [otherStarts] at merged
    exact merged

omit [DecidableEq α] in
theorem represents_empty : (empty : EthereumBlockFilter α).Represents fun _ => ⊤ :=
  ⟨by simp [empty], List.nodup_nil⟩

omit [DecidableEq α] in
theorem represents_fromMapping (mapping : Mapping σ) :
    (fromMapping mapping : EthereumBlockFilter α).Represents fun _ => ⊤ :=
  ⟨by simp [fromMapping], List.nodup_nil⟩

theorem callFilteredStarts_singleton (ds : DataSource α σ) (address : α) :
    callFilteredStarts [ds] address =
      if ds.source.address = some address ∧ hasBlockHandlerWithCallFilter ds.mapping = true then
        [ds.source.startBlock]
      else [] := by
  by_cases condition :
      ds.source.address = some address ∧ hasBlockHandlerWithCallFilter ds.mapping = true
  · simp only [callFilteredStarts, List.filterMap_cons, List.filterMap_nil, if_pos condition]
  · simp only [callFilteredStarts, List.filterMap_cons, List.filterMap_nil, if_neg condition]

theorem represents_ofDataSource (ds : DataSource α σ) :
    (ofDataSource ds).Represents fun address => (callFilteredStarts [ds] address).minimum := by
  constructor
  · intro startBlock address
    rw [callFilteredStarts_singleton]
    unfold ofDataSource
    cases hasCall : hasBlockHandlerWithCallFilter ds.mapping with
    | false => simp
    | true =>
        cases ds.source.address with
        | none => simp
        | some own =>
            by_cases same : own = address
            · subst same
              simp only [Option.toList_some, List.map_cons, List.map_nil, List.mem_singleton,
                Prod.mk.injEq, and_true, and_self, if_true, List.minimum_singleton, WithTop.coe_inj]
              exact eq_comm
            · simp [same, Ne.symm same]
  · unfold ofDataSource
    split <;> cases ds.source.address <;> simp

theorem callFilteredStarts_append (front back : List (DataSource α σ)) (address : α) :
    callFilteredStarts (front ++ back) address =
      callFilteredStarts front address ++ callFilteredStarts back address :=
  List.filterMap_append

theorem fromDataSources_append_singleton (dataSources : List (DataSource α σ)) (ds : DataSource α σ) :
    (fromDataSources (dataSources ++ [ds]) : EthereumBlockFilter α) =
      if ds.source.address.isSome then (fromDataSources dataSources).extend (ofDataSource ds)
      else fromDataSources dataSources := by
  unfold fromDataSources
  rw [List.filter_append, List.foldl_append]
  by_cases addressed : ds.source.address.isSome <;> simp [addressed]

/-- The block filter of data sources holds one pair per address with a call-filtered block
handler, with the least start block of those data sources. -/
theorem represents_fromDataSources (dataSources : List (DataSource α σ)) :
    (fromDataSources dataSources : EthereumBlockFilter α).Represents
      fun address => (callFilteredStarts dataSources address).minimum := by
  induction dataSources using List.reverseRecOn with
  | nil =>
      have none : (fun address => (callFilteredStarts ([] : List (DataSource α σ)) address).minimum) =
          fun _ => ⊤ := by
        funext address
        simp [callFilteredStarts]
      rw [none]
      exact represents_empty
  | append_singleton dataSources ds induction =>
      have split : (fun address => (callFilteredStarts (dataSources ++ [ds]) address).minimum) =
          fun address => min (callFilteredStarts dataSources address).minimum
            (callFilteredStarts [ds] address).minimum := by
        funext address
        rw [callFilteredStarts_append, List.minimum_append]
      rw [fromDataSources_append_singleton, split]
      split
      · exact induction.extend (represents_ofDataSource ds)
      · rename_i unaddressed
        have none : ∀ address, callFilteredStarts [ds] address = [] := by
          intro address
          simp [callFilteredStarts, Option.not_isSome_iff_eq_none.mp unaddressed]
        simpa [none] using induction

/-! ### Triggering on every block -/

theorem triggerEveryBlock_extendAddress (filter : EthereumBlockFilter α) (pair : Int × α) :
    (filter.extendAddress pair).triggerEveryBlock = filter.triggerEveryBlock := by
  unfold extendAddress
  split
  · split_ifs <;> rfl
  · rfl

theorem triggerEveryBlock_extend (this other : EthereumBlockFilter α) :
    (this.extend other).triggerEveryBlock = (this.triggerEveryBlock || other.triggerEveryBlock) := by
  unfold extend
  split
  · rename_i isEmpty
    rw [(contractAddresses_of_isEmpty isEmpty).2, Bool.or_false]
  · induction other.contractAddresses using List.reverseRecOn with
    | nil => rfl
    | append_singleton pairs pair induction =>
        rw [List.foldl_append, List.foldl_cons, List.foldl_nil, triggerEveryBlock_extendAddress,
          induction]

theorem triggerEveryBlock_fromDataSources (dataSources : List (DataSource α σ)) :
    (fromDataSources dataSources : EthereumBlockFilter α).triggerEveryBlock =
      dataSources.any fun ds => ds.source.address.isSome && hasBlockHandlerWithoutFilter ds.mapping := by
  induction dataSources using List.reverseRecOn with
  | nil => rfl
  | append_singleton dataSources ds induction =>
      rw [fromDataSources_append_singleton, List.any_append, List.any_cons, List.any_nil,
        Bool.or_false]
      split
      · rename_i addressed
        rw [triggerEveryBlock_extend, induction, addressed, Bool.true_and]
        rfl
      · rename_i unaddressed
        rw [induction, Bool.eq_false_iff.mpr unaddressed, Bool.false_and, Bool.or_false]

end EthereumBlockFilter

/-! ## Trigger filters -/

/-- `TriggerFilter`. -/
structure TriggerFilter (α σ : Type) [LinearOrder α] [LinearOrder σ] where
  log : EthereumLogFilter α σ
  call : EthereumCallFilter α
  block : EthereumBlockFilter α

namespace TriggerFilter

variable {α σ : Type} [LinearOrder α] [LinearOrder σ]

/-- `TriggerFilter::default()`. -/
def empty : TriggerFilter α σ :=
  ⟨.empty, .empty, .empty⟩

/-- `TriggerFilter::extend`: each part is extended with the filter of the data sources. -/
def extend (this : TriggerFilter α σ) (dataSources : List (DataSource α σ)) : TriggerFilter α σ :=
  ⟨this.log.extend (EthereumLogFilter.fromDataSources dataSources),
    this.call.extend (EthereumCallFilter.fromDataSources dataSources),
    this.block.extend (EthereumBlockFilter.fromDataSources dataSources)⟩

/-- `TriggerFilter::extend_with_template`: each part is extended with the filter of each
template's mapping. -/
def extendWithTemplate (this : TriggerFilter α σ) (dataSources : List (DataSourceTemplate σ)) :
    TriggerFilter α σ :=
  dataSources.foldl
    (fun this dataSource =>
      ⟨this.log.extend (EthereumLogFilter.fromMapping dataSource.mapping),
        this.call.extend (EthereumCallFilter.fromMapping dataSource.mapping),
        this.block.extend (EthereumBlockFilter.fromMapping dataSource.mapping)⟩)
    this

/-- `TriggerFilter::from_data_sources`, the trait's default: the default filter extended. -/
def fromDataSources (dataSources : List (DataSource α σ)) : TriggerFilter α σ :=
  empty.extend dataSources

/-- Two filters that no caller can tell apart: they match the same logs and calls, require the
same receipts, keep the same start blocks and block pairs, and agree on every block. -/
structure SameBehaviour (first second : TriggerFilter α σ) : Prop where
  logMatches : ∀ log, first.log.matchesLog log = second.log.matchesLog log
  receipts : ∀ sig address, first.log.requiresTransactionReceipt sig address =
    second.log.requiresTransactionReceipt sig address
  callMatches : ∀ call, first.call.matchesCall call = second.call.matchesCall call
  callStartBlocks : ∀ address,
    EthereumCallFilter.startAt first.call.contractAddressesFunctionSignatures address =
      EthereumCallFilter.startAt second.call.contractAddressesFunctionSignatures address
  blockAddresses : ∀ pair, pair ∈ first.block.contractAddresses ↔ pair ∈ second.block.contractAddresses
  triggerEveryBlock : first.block.triggerEveryBlock = second.block.triggerEveryBlock

/-! ### What templates add -/

theorem wellFormed_extendWithTemplate {this : TriggerFilter α σ} (wellFormed : this.call.WellFormed)
    (templates : List (DataSourceTemplate σ)) : (this.extendWithTemplate templates).call.WellFormed := by
  induction templates generalizing this with
  | nil => exact wellFormed
  | cons template templates induction =>
      exact induction (wellFormed.extend (EthereumCallFilter.wellFormed_fromMapping _))

theorem represents_extendWithTemplate {this : TriggerFilter α σ} {least : α → WithTop Int}
    (represents : this.block.Represents least) (templates : List (DataSourceTemplate σ)) :
    (this.extendWithTemplate templates).block.Represents least := by
  induction templates generalizing this with
  | nil => exact represents
  | cons template templates induction =>
      apply induction
      have merged := represents.extend (EthereumBlockFilter.represents_fromMapping template.mapping)
      simpa using merged

/-! ### The filter of the default filter extended -/

theorem matchesLog_fromDataSources (dataSources : List (DataSource α σ)) (log : Log α σ) :
    (fromDataSources dataSources).log.matchesLog log =
      (EthereumLogFilter.fromDataSources dataSources).matchesLog log := by
  simp [fromDataSources, extend, empty, EthereumLogFilter.matchesLog_extend]

theorem matchesCall_fromDataSources (dataSources : List (DataSource α σ)) (call : EthereumCall α) :
    (fromDataSources dataSources).call.matchesCall call =
      (EthereumCallFilter.fromDataSources dataSources).matchesCall call := by
  have merged := EthereumCallFilter.matchesCall_extend EthereumCallFilter.wellFormed_empty
    (EthereumCallFilter.wellFormed_fromDataSources dataSources) call
  rw [EthereumCallFilter.matchesCall_of_wellFormed EthereumCallFilter.wellFormed_empty] at merged
  have unmatched : (if call.input.length < 4 then false
      else if (call.input.length - 4) % 32 ≠ 0 then false
      else (EthereumCallFilter.selectorsAt (EthereumCallFilter.empty : EthereumCallFilter α).contractAddressesFunctionSignatures
            call.toAddress).contains (call.input.take 4) ||
          (EthereumCallFilter.empty : EthereumCallFilter α).wildcardSignatures.contains
            (call.input.take 4)) = false := by
    split_ifs <;> simp [EthereumCallFilter.empty, EthereumCallFilter.selectorsAt]
  rw [unmatched, Bool.false_or] at merged
  exact merged

theorem wellFormed_fromDataSources (dataSources : List (DataSource α σ)) :
    (fromDataSources dataSources).call.WellFormed :=
  EthereumCallFilter.wellFormed_empty.extend (EthereumCallFilter.wellFormed_fromDataSources _)

theorem represents_fromDataSources (dataSources : List (DataSource α σ)) :
    (fromDataSources dataSources).block.Represents
      fun address => (EthereumBlockFilter.callFilteredStarts dataSources address).minimum := by
  have merged := EthereumBlockFilter.represents_empty.extend
    (EthereumBlockFilter.represents_fromDataSources dataSources)
  simpa [fromDataSources, extend, empty] using merged

/-! ### Extending with more data sources -/

/-- Extending the filter of `D1` with `D2` gives a filter that behaves as that of `D1 ++ D2`. -/
theorem sameBehaviour_extend_append (front back : List (DataSource α σ)) :
    SameBehaviour ((fromDataSources front).extend back) (fromDataSources (front ++ back)) := by
  have weights : ∀ a b, ((fromDataSources front).extend back).log.contractsAndEventsGraph.weight? a b =
      (fromDataSources (front ++ back)).log.contractsAndEventsGraph.weight? a b := by
    intro a b
    simp [fromDataSources, extend, empty, EthereumLogFilter.weight?_extend,
      EthereumLogFilter.weight?_fromDataSources_append]
  have wildcards : ∀ sig, ((fromDataSources front).extend back).log.wildcardEvents.get? sig =
      (fromDataSources (front ++ back)).log.wildcardEvents.get? sig := by
    intro sig
    simp [fromDataSources, extend, empty, EthereumLogFilter.get?_extend,
      EthereumLogFilter.get?_fromDataSources_append]
  have frontRepresents := represents_fromDataSources front
  have mergedRepresents := frontRepresents.extend
    (EthereumBlockFilter.represents_fromDataSources back)
  have appendRepresents := represents_fromDataSources (front ++ back)
  refine ⟨EthereumLogFilter.matchesLog_congr weights wildcards,
    EthereumLogFilter.requiresTransactionReceipt_congr weights wildcards, ?_, ?_, ?_, ?_⟩
  · apply EthereumCallFilter.matchesCall_congr
      ((wellFormed_fromDataSources front).extend (EthereumCallFilter.wellFormed_fromDataSources back))
      (wellFormed_fromDataSources _)
    · intro probe selector
      simp only [fromDataSources, extend, empty, EthereumCallFilter.mem_selectorsAt_extend,
        EthereumCallFilter.mem_selectorsAt_fromDataSources, EthereumCallFilter.callHandlerItems_append,
        EthereumCallFilter.selectorsAt_empty, List.mem_append, List.not_mem_nil]
      grind
    · intro selector
      simp [fromDataSources, extend, empty, EthereumCallFilter.mem_wildcardSignatures_extend,
        EthereumCallFilter.empty, EthereumCallFilter.fromDataSources, EthereumCallFilter.fromIter]
  · intro address
    simp only [fromDataSources, extend, empty, EthereumCallFilter.startAt_extend,
      EthereumCallFilter.startAt_fromDataSources, EthereumCallFilter.callHandlerItems_append,
      EthereumCallFilter.itemStarts_append, List.minimum_append, EthereumCallFilter.startAt_empty,
      min_top_left]
  · intro pair
    obtain ⟨startBlock, address⟩ := pair
    have least : min (EthereumBlockFilter.callFilteredStarts front address).minimum
          (EthereumBlockFilter.callFilteredStarts back address).minimum =
        (EthereumBlockFilter.callFilteredStarts (front ++ back) address).minimum := by
      rw [EthereumBlockFilter.callFilteredStarts_append, List.minimum_append]
    exact (mergedRepresents.mem_iff startBlock address).trans
      (least ▸ (appendRepresents.mem_iff startBlock address).symm)
  · simp [fromDataSources, extend, empty, EthereumBlockFilter.triggerEveryBlock_extend,
      EthereumBlockFilter.triggerEveryBlock_fromDataSources, EthereumBlockFilter.empty]

/-- Extending the filter of `D1` by `D2` is the union of the two filters, part by part, and
behaves as the filter of `D1 ++ D2`. -/
theorem triggerFilter_extend_union (front back : List (DataSource α σ))
    (templates : List (DataSourceTemplate σ)) :
    let first := (fromDataSources front).extendWithTemplate templates
    let second : TriggerFilter α σ := fromDataSources back
    let merged := first.extend back
    (∀ log, merged.log.matchesLog log = (first.log.matchesLog log || second.log.matchesLog log)) ∧
      (∀ call, merged.call.matchesCall call =
        (first.call.matchesCall call || second.call.matchesCall call)) ∧
      SameBehaviour ((fromDataSources front).extend back) (fromDataSources (front ++ back)) ∧
      (merged.block.contractAddresses.map Prod.snd).Nodup ∧
      (∀ startBlock address, (startBlock, address) ∈ merged.block.contractAddresses ↔
        (EthereumBlockFilter.callFilteredStarts (front ++ back) address).minimum = startBlock) ∧
      merged.block.triggerEveryBlock =
        (first.block.triggerEveryBlock || second.block.triggerEveryBlock) := by
  intro first second merged
  have firstWellFormed : first.call.WellFormed :=
    wellFormed_extendWithTemplate (wellFormed_fromDataSources front) templates
  have firstRepresents := represents_extendWithTemplate (represents_fromDataSources front) templates
  have mergedRepresents : merged.block.Represents
      fun address => (EthereumBlockFilter.callFilteredStarts (front ++ back) address).minimum := by
    have extended := firstRepresents.extend (EthereumBlockFilter.represents_fromDataSources back)
    have least : (fun address => min (EthereumBlockFilter.callFilteredStarts front address).minimum
          (EthereumBlockFilter.callFilteredStarts back address).minimum) =
        fun address => (EthereumBlockFilter.callFilteredStarts (front ++ back) address).minimum := by
      funext address
      rw [EthereumBlockFilter.callFilteredStarts_append, List.minimum_append]
    rw [least] at extended
    exact extended
  refine ⟨fun log => ?_, fun call => ?_, sameBehaviour_extend_append front back,
    mergedRepresents.nodup, mergedRepresents.mem_iff, ?_⟩
  · rw [matchesLog_fromDataSources]
    exact EthereumLogFilter.matchesLog_extend _ _ log
  · rw [matchesCall_fromDataSources]
    exact EthereumCallFilter.matchesCall_extend firstWellFormed
      (EthereumCallFilter.wellFormed_fromDataSources back) call
  · show (first.block.extend _).triggerEveryBlock =
      (first.block.triggerEveryBlock || (EthereumBlockFilter.empty.extend _).triggerEveryBlock)
    rw [EthereumBlockFilter.triggerEveryBlock_extend, EthereumBlockFilter.triggerEveryBlock_extend]
    rfl

end TriggerFilter

end Ethereum
