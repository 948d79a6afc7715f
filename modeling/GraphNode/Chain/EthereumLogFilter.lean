import GraphNode.Library.GraphMap
import Mathlib.Data.Sum.Order

/-!
# Ethereum log filters

The log filter of the Ethereum chain adapter (`chain/ethereum/src/adapter.rs`): the data sources'
event handlers as a bipartite graph between contracts and events, whose edge weight is the
handler's `receipt` flag, and the events of handlers without a contract address
(`wildcard_events`), each with its flag.  Addresses and event signatures are any ordered types.
A handler's `topic0()` is taken as given: the source hashes the event's signature with keccak256
when no topic is declared.

`matches` reads which edges and wildcard events there are, and `requires_transaction_receipt`
reads their flags, so both are functions of the graph's `weight?` and the wildcard map's `get?`
(`matchesLog_eq`, `requiresTransactionReceipt_eq`).  Building and merging filters only override
weights: `extend` lets the other filter's flags take the place of this one's (`weight?_extend`),
and the filter of `D1 ++ D2` is that of `D1` overridden by that of `D2`
(`weight?_fromDataSources_append`).  So the receipt flag of a contract and an event is the flag
of the last handler merged for them, not whether any handler asked for the receipt.
-/

namespace Ethereum

/-- `MappingEventHandler`, by the topic it matches and its receipt flag. -/
structure MappingEventHandler (σ : Type) where
  /-- `topic0()`: the declared `topic0`, or keccak256 of the event's signature. -/
  topic0 : σ
  receipt : Bool

/-- `MappingCallHandler`, by its function selector. -/
structure MappingCallHandler where
  /-- The first four bytes of keccak256 of `function`. -/
  selector : List UInt8

/-- `BlockHandlerFilter`. -/
inductive BlockHandlerFilter where
  | call
  deriving DecidableEq

/-- `MappingBlockHandler`, by its filter. -/
structure MappingBlockHandler where
  filter : Option BlockHandlerFilter

/-- `Mapping`, by its handlers. -/
structure Mapping (σ : Type) where
  blockHandlers : List MappingBlockHandler
  callHandlers : List MappingCallHandler
  eventHandlers : List (MappingEventHandler σ)

/-- `Source`; block numbers are `i32`. -/
structure Source (α : Type) where
  address : Option α
  startBlock : Int

/-- `DataSource`, by its source and mapping. -/
structure DataSource (α σ : Type) where
  source : Source α
  mapping : Mapping σ

/-- `DataSourceTemplate`, by its mapping. -/
structure DataSourceTemplate (σ : Type) where
  mapping : Mapping σ

/-- `Log`, by the fields the filters read. -/
structure Log (α σ : Type) where
  address : α
  topics : List σ

/-- `LogFilterNode`. -/
inductive LogFilterNode (α σ : Type) where
  | contract (address : α)
  | event (signature : σ)

namespace LogFilterNode

variable {α σ : Type}

/-- The order `#[derive(Ord)]` gives: every contract before every event, and each by its
payload. -/
def ordKey : LogFilterNode α σ → α ⊕ₗ σ
  | contract address => toLex (Sum.inl address)
  | event signature => toLex (Sum.inr signature)

theorem ordKey_injective : Function.Injective (ordKey : LogFilterNode α σ → α ⊕ₗ σ) := by
  intro x y same
  cases x <;> cases y <;> simp_all [ordKey]

instance [LinearOrder α] [LinearOrder σ] : LinearOrder (LogFilterNode α σ) :=
  LinearOrder.lift' ordKey ordKey_injective

theorem contract_lt_event [LinearOrder α] [LinearOrder σ] (address : α) (signature : σ) :
    (contract address : LogFilterNode α σ) < event signature :=
  Sum.Lex.inl_lt_inr address signature

end LogFilterNode

/-- `EthereumLogFilter`. -/
structure EthereumLogFilter (α σ : Type) [LinearOrder α] [LinearOrder σ] where
  /-- An edge joins a contract and an event that one of its handlers matches, weighted by the
  handler's receipt flag. -/
  contractsAndEventsGraph : GraphMap (LogFilterNode α σ) Bool
  /-- The events of handlers without an address, each with its receipt flag. -/
  wildcardEvents : IndexMap σ Bool

namespace EthereumLogFilter

variable {α σ : Type} [LinearOrder α] [LinearOrder σ]

/-- `EthereumLogFilter::default()`. -/
def empty : EthereumLogFilter α σ :=
  ⟨GraphMap.empty, IndexMap.empty⟩

/-- `EthereumLogFilter::matches` (`matches` is a keyword of Lean): an edge between the log's
contract and its first topic, or a wildcard event for that topic. -/
def matchesLog (filter : EthereumLogFilter α σ) (log : Log α σ) : Bool :=
  match log.topics.head? with
  | none => false
  | some sig =>
      let contract := LogFilterNode.contract log.address
      let event := LogFilterNode.event sig
      filter.contractsAndEventsGraph.allEdges.any
          (fun edge => (edge.1 == contract && edge.2.1 == event) ||
            (edge.2.1 == contract && edge.1 == event)) ||
        (filter.wildcardEvents.get? sig).isSome

/-- `EthereumLogFilter::requires_transaction_receipt`.  The edge test is the source's
`*r && (s == contract && t == event) || (t == contract && s == event)`, where `&&` binds tighter
than `||`. -/
def requiresTransactionReceipt (filter : EthereumLogFilter α σ) (eventSignature : σ)
    (contractAddress : Option α) : Bool :=
  if filter.wildcardEvents.get? eventSignature = some true then true
  else
    match contractAddress with
    | some address =>
        let contract := LogFilterNode.contract address
        let event := LogFilterNode.event eventSignature
        filter.contractsAndEventsGraph.allEdges.any fun edge =>
          edge.2.2 && (edge.1 == contract && edge.2.1 == event) ||
            (edge.2.1 == contract && edge.1 == event)
    | none => false

/-- One event handler of a data source with address `address`: an edge for a contract, and a
wildcard event without one. -/
def addEventHandler (address : Option α) (this : EthereumLogFilter α σ)
    (handler : MappingEventHandler σ) : EthereumLogFilter α σ :=
  match address with
  | some contract =>
      { this with
        contractsAndEventsGraph :=
          this.contractsAndEventsGraph.addEdge (.contract contract) (.event handler.topic0)
            handler.receipt }
  | none => { this with wildcardEvents := this.wildcardEvents.insert handler.topic0 handler.receipt }

/-- `EthereumLogFilter::from_data_sources`. -/
def fromDataSources (dataSources : List (DataSource α σ)) : EthereumLogFilter α σ :=
  dataSources.foldl
    (fun this ds => ds.mapping.eventHandlers.foldl (addEventHandler ds.source.address) this) empty

/-- `EthereumLogFilter::from_mapping`: every event handler of a template is a wildcard. -/
def fromMapping (mapping : Mapping σ) : EthereumLogFilter α σ :=
  mapping.eventHandlers.foldl (addEventHandler none) empty

/-- `EthereumLogFilter::is_empty`. -/
def isEmpty (filter : EthereumLogFilter α σ) : Bool :=
  filter.contractsAndEventsGraph.edgeCount == 0 && filter.wildcardEvents.entries.isEmpty

/-- `EthereumLogFilter::extend`: the other filter's edges are added one by one and its wildcard
events inserted, each with its flag. -/
def extend (this other : EthereumLogFilter α σ) : EthereumLogFilter α σ :=
  if other.isEmpty then this
  else
    ⟨this.contractsAndEventsGraph.addEdges other.contractsAndEventsGraph.allEdges,
      this.wildcardEvents.insertAll other.wildcardEvents.entries⟩

/-! ## Matching and receipts, by the weights -/

/-- The test `matches` runs on each edge holds of an edge joining the two nodes. -/
theorem any_allEdges_iff (g : GraphMap (LogFilterNode α σ) Bool) (a b : LogFilterNode α σ) :
    g.allEdges.any (fun edge => (edge.1 == a && edge.2.1 == b) || (edge.2.1 == a && edge.1 == b)) =
        true ↔ s(a, b) ∈ g.edgeSet := by
  rw [← GraphMap.exists_mem_allEdges_iff, List.any_eq_true]
  constructor
  · rintro ⟨⟨s, t, weight⟩, member, hit⟩
    simp only [Bool.or_eq_true, Bool.and_eq_true, beq_iff_eq] at hit
    rcases hit with ⟨rfl, rfl⟩ | ⟨rfl, rfl⟩
    · exact ⟨weight, Or.inl member⟩
    · exact ⟨weight, Or.inr member⟩
  · rintro ⟨weight, forward | backward⟩
    · exact ⟨(a, b, weight), forward, by simp⟩
    · exact ⟨(b, a, weight), backward, by simp⟩

theorem matchesLog_eq (filter : EthereumLogFilter α σ) (log : Log α σ) :
    filter.matchesLog log =
      match log.topics.head? with
      | none => false
      | some sig =>
          (filter.contractsAndEventsGraph.weight? (.contract log.address) (.event sig)).isSome ||
            (filter.wildcardEvents.get? sig).isSome := by
  unfold matchesLog
  cases log.topics.head? with
  | none => rfl
  | some sig =>
      have edge := any_allEdges_iff filter.contractsAndEventsGraph (.contract log.address) (.event sig)
      rw [← GraphMap.weight?_isSome_iff, ← Bool.eq_iff_iff] at edge
      simp only [edge]

/-- An edge is stored from its contract to its event, so only the first half of the receipt
test can hold, and it reads the edge's flag. -/
theorem any_receipt_iff (g : GraphMap (LogFilterNode α σ) Bool) (address : α) (sig : σ) :
    (g.allEdges.any fun edge =>
        edge.2.2 && (edge.1 == .contract address && edge.2.1 == .event sig) ||
          (edge.2.1 == .contract address && edge.1 == .event sig)) = true ↔
      g.weight? (.contract address) (.event sig) = some true := by
  have ordered := le_of_lt (LogFilterNode.contract_lt_event address sig)
  rw [List.any_eq_true]
  constructor
  · rintro ⟨⟨s, t, receipt⟩, member, hit⟩
    simp only [Bool.or_eq_true, Bool.and_eq_true, beq_iff_eq] at hit
    rcases hit with ⟨rfl, rfl, rfl⟩ | ⟨rfl, rfl⟩
    · exact ((GraphMap.mem_allEdges_iff_weight? g _ _ _).mp member).2
    · exact absurd (GraphMap.ordered_of_mem_allEdges member)
        (not_le.mpr (LogFilterNode.contract_lt_event _ _))
  · intro stored
    refine ⟨(.contract address, .event sig, true),
      (GraphMap.mem_allEdges_iff_weight? g _ _ _).mpr ⟨ordered, stored⟩, by simp⟩

theorem requiresTransactionReceipt_eq (filter : EthereumLogFilter α σ) (sig : σ)
    (address : Option α) :
    filter.requiresTransactionReceipt sig address =
      (filter.wildcardEvents.get? sig == some true ||
        address.any fun address =>
          filter.contractsAndEventsGraph.weight? (.contract address) (.event sig) == some true) := by
  unfold requiresTransactionReceipt
  by_cases wildcard : filter.wildcardEvents.get? sig = some true
  · simp [wildcard]
  · rw [if_neg wildcard]
    cases address with
    | none => simp [wildcard]
    | some address =>
        have edge := any_receipt_iff filter.contractsAndEventsGraph address sig
        rw [Bool.eq_iff_iff]
        simp only [Bool.or_eq_true, beq_iff_eq, wildcard, false_or, Option.any_some]
        exact edge

/-! ## Building and merging filters -/

/-- The edges one data source's handlers add. -/
def handlerEdges (address : Option α) (handlers : List (MappingEventHandler σ)) :
    List (LogFilterNode α σ × LogFilterNode α σ × Bool) :=
  match address with
  | some contract => handlers.map fun handler => (.contract contract, .event handler.topic0, handler.receipt)
  | none => []

/-- The wildcard events one data source's handlers add. -/
def handlerWildcards (address : Option α) (handlers : List (MappingEventHandler σ)) :
    List (σ × Bool) :=
  match address with
  | some _ => []
  | none => handlers.map fun handler => (handler.topic0, handler.receipt)

/-- The edges of a list of data sources, in the order they are added. -/
def logEdges (dataSources : List (DataSource α σ)) :
    List (LogFilterNode α σ × LogFilterNode α σ × Bool) :=
  dataSources.flatMap fun ds => handlerEdges ds.source.address ds.mapping.eventHandlers

/-- The wildcard events of a list of data sources, in the order they are inserted. -/
def logWildcards (dataSources : List (DataSource α σ)) : List (σ × Bool) :=
  dataSources.flatMap fun ds => handlerWildcards ds.source.address ds.mapping.eventHandlers

theorem foldl_addEventHandler (address : Option α) (handlers : List (MappingEventHandler σ))
    (this : EthereumLogFilter α σ) :
    handlers.foldl (addEventHandler address) this =
      ⟨this.contractsAndEventsGraph.addEdges (handlerEdges address handlers),
        this.wildcardEvents.insertAll (handlerWildcards address handlers)⟩ := by
  induction handlers generalizing this with
  | nil => cases address <;> rfl
  | cons handler handlers induction =>
      rw [List.foldl_cons, induction]
      cases address <;> rfl

theorem fromDataSources_eq (dataSources : List (DataSource α σ)) :
    fromDataSources dataSources =
      ⟨GraphMap.empty.addEdges (logEdges dataSources),
        IndexMap.empty.insertAll (logWildcards dataSources)⟩ := by
  suffices general : ∀ this : EthereumLogFilter α σ,
      dataSources.foldl
          (fun this ds => ds.mapping.eventHandlers.foldl (addEventHandler ds.source.address) this)
          this =
        ⟨this.contractsAndEventsGraph.addEdges (logEdges dataSources),
          this.wildcardEvents.insertAll (logWildcards dataSources)⟩ from general empty
  induction dataSources with
  | nil => intro this; rfl
  | cons ds dataSources induction =>
      intro this
      rw [List.foldl_cons, foldl_addEventHandler, induction]
      simp only [logEdges, logWildcards, List.flatMap_cons, GraphMap.addEdges, IndexMap.insertAll,
        List.foldl_append]

theorem fromMapping_eq (mapping : Mapping σ) :
    (fromMapping mapping : EthereumLogFilter α σ) =
      ⟨GraphMap.empty,
        IndexMap.empty.insertAll (handlerWildcards (none : Option α) mapping.eventHandlers)⟩ :=
  foldl_addEventHandler none mapping.eventHandlers empty

theorem weight?_of_isEmpty {filter : EthereumLogFilter α σ} (isEmpty : filter.isEmpty = true)
    (a b : LogFilterNode α σ) : filter.contractsAndEventsGraph.weight? a b = none := by
  simp only [EthereumLogFilter.isEmpty, Bool.and_eq_true, beq_iff_eq, GraphMap.edgeCount,
    List.length_eq_zero_iff] at isEmpty
  simp [GraphMap.weight?, IndexMap.get?, KeyedList.find, isEmpty.1]

theorem get?_of_isEmpty {filter : EthereumLogFilter α σ} (isEmpty : filter.isEmpty = true)
    (sig : σ) : filter.wildcardEvents.get? sig = none := by
  simp only [EthereumLogFilter.isEmpty, Bool.and_eq_true, List.isEmpty_iff] at isEmpty
  simp [IndexMap.get?, KeyedList.find, isEmpty.2]

/-- `extend` lets the other filter's receipt flags take the place of this one's. -/
theorem weight?_extend (this other : EthereumLogFilter α σ) (a b : LogFilterNode α σ) :
    (this.extend other).contractsAndEventsGraph.weight? a b =
      (other.contractsAndEventsGraph.weight? a b).or (this.contractsAndEventsGraph.weight? a b) := by
  unfold extend
  split
  · rename_i isEmpty
    rw [weight?_of_isEmpty isEmpty, Option.none_or]
  · exact GraphMap.weight?_addEdges_allEdges _ _ a b

theorem get?_extend (this other : EthereumLogFilter α σ) (sig : σ) :
    (this.extend other).wildcardEvents.get? sig =
      (other.wildcardEvents.get? sig).or (this.wildcardEvents.get? sig) := by
  unfold extend
  split
  · rename_i isEmpty
    rw [get?_of_isEmpty isEmpty, Option.none_or]
  · exact IndexMap.get?_insertAll_entries _ _ sig

omit [LinearOrder α] [LinearOrder σ] in
theorem logEdges_append (front back : List (DataSource α σ)) :
    logEdges (front ++ back) = logEdges front ++ logEdges back :=
  List.flatMap_append

omit [LinearOrder α] [LinearOrder σ] in
theorem logWildcards_append (front back : List (DataSource α σ)) :
    logWildcards (front ++ back) = logWildcards front ++ logWildcards back :=
  List.flatMap_append

/-- The filter of `D1 ++ D2` is that of `D1` with the flags of `D2` in their place. -/
theorem weight?_fromDataSources_append (front back : List (DataSource α σ))
    (a b : LogFilterNode α σ) :
    (fromDataSources (front ++ back)).contractsAndEventsGraph.weight? a b =
      ((fromDataSources back).contractsAndEventsGraph.weight? a b).or
        ((fromDataSources front).contractsAndEventsGraph.weight? a b) := by
  rw [fromDataSources_eq, fromDataSources_eq, fromDataSources_eq]
  dsimp only
  rw [logEdges_append, GraphMap.addEdges_append, GraphMap.weight?_addEdges]

theorem get?_fromDataSources_append (front back : List (DataSource α σ)) (sig : σ) :
    (fromDataSources (front ++ back)).wildcardEvents.get? sig =
      ((fromDataSources back).wildcardEvents.get? sig).or
        ((fromDataSources front).wildcardEvents.get? sig) := by
  rw [fromDataSources_eq, fromDataSources_eq, fromDataSources_eq]
  dsimp only
  rw [logWildcards_append, IndexMap.insertAll_append, IndexMap.get?_insertAll]

/-! ## Matching after a merge -/

@[simp]
theorem weight?_empty (a b : LogFilterNode α σ) :
    (empty : EthereumLogFilter α σ).contractsAndEventsGraph.weight? a b = none :=
  rfl

@[simp]
theorem get?_empty (sig : σ) : (empty : EthereumLogFilter α σ).wildcardEvents.get? sig = none :=
  rfl

@[simp]
theorem matchesLog_empty (log : Log α σ) : (empty : EthereumLogFilter α σ).matchesLog log = false := by
  rw [matchesLog_eq]
  cases log.topics.head? <;> rfl

/-- Filters with the same flags match the same logs. -/
theorem matchesLog_congr {first second : EthereumLogFilter α σ}
    (weights : ∀ a b, first.contractsAndEventsGraph.weight? a b =
      second.contractsAndEventsGraph.weight? a b)
    (wildcards : ∀ sig, first.wildcardEvents.get? sig = second.wildcardEvents.get? sig)
    (log : Log α σ) : first.matchesLog log = second.matchesLog log := by
  simp only [matchesLog_eq, weights, wildcards]

/-- Filters with the same flags require the same receipts. -/
theorem requiresTransactionReceipt_congr {first second : EthereumLogFilter α σ}
    (weights : ∀ a b, first.contractsAndEventsGraph.weight? a b =
      second.contractsAndEventsGraph.weight? a b)
    (wildcards : ∀ sig, first.wildcardEvents.get? sig = second.wildcardEvents.get? sig)
    (sig : σ) (address : Option α) :
    first.requiresTransactionReceipt sig address = second.requiresTransactionReceipt sig address := by
  simp only [requiresTransactionReceipt_eq, weights, wildcards]

/-- A merged filter matches what either of its parts matches. -/
theorem matchesLog_extend (this other : EthereumLogFilter α σ) (log : Log α σ) :
    (this.extend other).matchesLog log = (this.matchesLog log || other.matchesLog log) := by
  rw [matchesLog_eq, matchesLog_eq, matchesLog_eq]
  cases log.topics.head? with
  | none => rfl
  | some sig =>
      simp only [weight?_extend, get?_extend, Option.isSome_or]
      simp only [Bool.or_assoc, Bool.or_comm, Bool.or_left_comm]

/-! ## A receipt flag is overwritten -/

/-- A second data source on a contract overwrites the receipt flag of the first, so the receipt
the first handler asks for is not required. -/
theorem requiresTransactionReceipt_overwritten (address : α) (topic : σ) (startBlock : Int) :
    let asking : DataSource α σ := ⟨⟨some address, startBlock⟩, ⟨[], [], [⟨topic, true⟩]⟩⟩
    let notAsking : DataSource α σ := ⟨⟨some address, startBlock⟩, ⟨[], [], [⟨topic, false⟩]⟩⟩
    (∃ handler ∈ asking.mapping.eventHandlers, handler.topic0 = topic ∧ handler.receipt = true) ∧
      (fromDataSources [asking, notAsking]).requiresTransactionReceipt topic (some address) =
        false := by
  intro asking notAsking
  refine ⟨⟨⟨topic, true⟩, List.mem_singleton_self _, rfl, rfl⟩, ?_⟩
  have flag : (fromDataSources [asking, notAsking]).contractsAndEventsGraph.weight?
      (.contract address) (.event topic) = some false := by
    rw [fromDataSources_eq]
    simp [logEdges, handlerEdges, GraphMap.addEdges, GraphMap.weight?_addEdge, asking, notAsking]
  have noWildcard : (fromDataSources [asking, notAsking]).wildcardEvents.get? topic = none := by
    rw [fromDataSources_eq]
    simp [logWildcards, handlerWildcards, IndexMap.insertAll, asking, notAsking]
  rw [requiresTransactionReceipt_eq, Option.any_some, flag, noWildcard]
  rfl

end EthereumLogFilter

end Ethereum
