import GraphNode.Chain.EthereumLogFilter

/-!
# `eth_getLogs` filters

`EthereumLogFilter::eth_get_logs_filters` (`chain/ethereum/src/adapter.rs`) turns a log filter
into the filters of `eth_getLogs` calls: one per wildcard event, then a greedy vertex cover of
the contract and event graph.  While the graph has an edge, the node with the most neighbours
(the last such node, as `max_by_key` picks it) becomes a filter: a contract with all its events,
or an event with its contracts in batches of `get_logs_max_contracts`; the node is then removed.
`push_filter` asserts that each filter names a contract and an event, and one of either.

The loop runs on `fuel`, the graph's edge count: each turn removes at least one edge
(`edgeCount_removeNode`), so the count is enough (`coverLoop_spec`), and a `none` result (a
failed assert, a failed `unwrap`, an index out of bounds, or the fuel running out) never
happens on a bipartite graph with `get_logs_max_contracts ≥ 1`.  `Covers` says what the filters
made for a set of edges are: shaped as the asserts demand, naming only pairs of those edges, and
naming each of them.
-/

namespace Ethereum

/-- `Iterator::max_by_key`: the last of the greatest. -/
def maxByKey {β : Type} (key : β → Nat) : List β → Option β
  | [] => none
  | first :: rest => some (rest.foldl (fun best item => if key item < key best then best else item) first)

/-- The fold of `max_by_key` from `best`: it ends on `best` or a later item, whose key is at least
every key it passed. -/
theorem foldl_maxByKey {β : Type} (key : β → Nat) (rest : List β) (best : β) :
    let found := rest.foldl (fun best item => if key item < key best then best else item) best
    (found = best ∨ found ∈ rest) ∧ key best ≤ key found ∧ ∀ item ∈ rest, key item ≤ key found := by
  induction rest generalizing best with
  | nil => simp
  | cons item rest induction =>
      simp only [List.foldl_cons]
      split
      · obtain ⟨isMember, above, greatest⟩ := induction best
        refine ⟨?_, above, ?_⟩
        · rcases isMember with same | later
          · exact Or.inl same
          · exact Or.inr (List.mem_cons_of_mem item later)
        · intro other member
          rcases List.mem_cons.mp member with rfl | later
          · omega
          · exact greatest other later
      · obtain ⟨isMember, above, greatest⟩ := induction item
        refine ⟨?_, by omega, ?_⟩
        · rcases isMember with same | later
          · rw [same]
            exact Or.inr List.mem_cons_self
          · exact Or.inr (List.mem_cons_of_mem item later)
        · intro other member
          rcases List.mem_cons.mp member with rfl | later
          · exact above
          · exact greatest other later

theorem maxByKey_spec {β : Type} (key : β → Nat) {items : List β} (nonempty : items ≠ []) :
    ∃ best, maxByKey key items = some best ∧ best ∈ items ∧ ∀ item ∈ items, key item ≤ key best := by
  obtain ⟨first, rest, rfl⟩ := List.exists_cons_of_ne_nil nonempty
  obtain ⟨isMember, above, greatest⟩ := foldl_maxByKey key rest first
  refine ⟨_, rfl, ?_, ?_⟩
  · rcases isMember with same | later
    · rw [same]
      exact List.mem_cons_self
    · exact List.mem_cons_of_mem first later
  · intro item member
    rcases List.mem_cons.mp member with rfl | later
    · exact above
    · exact greatest item later

/-- `EthGetLogsFilter`. -/
structure EthGetLogsFilter (α σ : Type) where
  contracts : List α
  eventSignatures : List σ

namespace EthGetLogsFilter

variable {α σ : Type}

/-- `EthGetLogsFilter::from_contract`. -/
def fromContract (address : α) : EthGetLogsFilter α σ :=
  ⟨[address], []⟩

/-- `EthGetLogsFilter::from_event`. -/
def fromEvent (event : σ) : EthGetLogsFilter α σ :=
  ⟨[], [event]⟩

/-- What the loop makes: a contract with events, or an event with at most `maxContracts`
contracts. -/
def Shaped (maxContracts : Nat) (filter : EthGetLogsFilter α σ) : Prop :=
  filter.contracts ≠ [] ∧
    ((filter.contracts.length = 1 ∧ filter.eventSignatures ≠ []) ∨
      (filter.eventSignatures.length = 1 ∧ filter.contracts.length ≤ maxContracts))

/-- What an `eth_getLogs` call with this filter returns: the logs of one of its contracts, or of
any contract when it names none, whose first topic is one of its events. -/
def Selects (filter : EthGetLogsFilter α σ) (address : α) (topic0 : σ) : Prop :=
  (filter.contracts = [] ∨ address ∈ filter.contracts) ∧ topic0 ∈ filter.eventSignatures

instance [DecidableEq α] [DecidableEq σ] (filter : EthGetLogsFilter α σ) (address : α)
    (topic0 : σ) : Decidable (filter.Selects address topic0) :=
  inferInstanceAs (Decidable ((_ ∨ _) ∧ _))

end EthGetLogsFilter

namespace LogFilterNode

variable {α σ : Type}

/-- The address of a contract node. -/
def address? : LogFilterNode α σ → Option α
  | contract address => some address
  | event _ => none

/-- The signature of an event node. -/
def signature? : LogFilterNode α σ → Option σ
  | event signature => some signature
  | contract _ => none

@[simp]
theorem address?_eq_some_iff (node : LogFilterNode α σ) (address : α) :
    node.address? = some address ↔ node = contract address := by
  cases node <;> simp [address?]

@[simp]
theorem signature?_eq_some_iff (node : LogFilterNode α σ) (signature : σ) :
    node.signature? = some signature ↔ node = event signature := by
  cases node <;> simp [signature?]

end LogFilterNode

section Bipartite

variable {α σ E : Type} [LinearOrder α] [LinearOrder σ]

/-- A contract and event graph: every edge joins a contract and an event. -/
def Bipartite (g : GraphMap (LogFilterNode α σ) E) : Prop :=
  ∀ edge ∈ g.edgeSet, ∃ address signature,
    edge = s(LogFilterNode.contract address, LogFilterNode.event signature)

theorem Bipartite.mono {g g' : GraphMap (LogFilterNode α σ) E} (bipartite : Bipartite g)
    (within : g'.edgeSet ⊆ g.edgeSet) : Bipartite g' :=
  fun edge member => bipartite edge (within member)

theorem Bipartite.removeNode {g : GraphMap (LogFilterNode α σ) E} (bipartite : Bipartite g)
    (n : LogFilterNode α σ) : Bipartite (g.removeNode n) :=
  bipartite.mono (by rw [GraphMap.edgeSet_removeNode]; exact Set.sep_subset _ _)

/-- A contract's neighbours are events. -/
theorem Bipartite.address?_of_mem_neighbors {g : GraphMap (LogFilterNode α σ) E}
    (bipartite : Bipartite g) {address : α} {n : LogFilterNode α σ}
    (member : n ∈ g.neighbors (.contract address)) : n.address? = none := by
  rw [GraphMap.mem_neighbors_iff] at member
  obtain ⟨address', signature, same⟩ := bipartite _ member
  rcases Sym2.eq_iff.mp same with ⟨-, rfl⟩ | ⟨wrong, -⟩
  · rfl
  · cases wrong

/-- An event's neighbours are contracts. -/
theorem Bipartite.signature?_of_mem_neighbors {g : GraphMap (LogFilterNode α σ) E}
    (bipartite : Bipartite g) {signature : σ} {n : LogFilterNode α σ}
    (member : n ∈ g.neighbors (.event signature)) : n.signature? = none := by
  rw [GraphMap.mem_neighbors_iff] at member
  obtain ⟨address, signature', same⟩ := bipartite _ member
  rcases Sym2.eq_iff.mp same with ⟨wrong, -⟩ | ⟨-, rfl⟩
  · cases wrong
  · rfl

end Bipartite

namespace EthereumLogFilter

variable {α σ : Type} [LinearOrder α] [LinearOrder σ]

/-- The `push_filter` closure: its two sanity asserts, then the push. -/
def pushFilter (filters : List (EthGetLogsFilter α σ)) (filter : EthGetLogsFilter α σ) :
    Option (List (EthGetLogsFilter α σ)) :=
  if filter.contracts.length > 0 ∧ filter.eventSignatures.length > 0 then
    if filter.contracts.length = 1 ∨ filter.eventSignatures.length = 1 then some (filters ++ [filter])
    else none
  else none

/-- A full batch is pushed and a new one started for the same event; `event_signatures[0]`
panics on a filter without events. -/
def flushIfFull (getLogsMaxContracts : Nat) (filters : List (EthGetLogsFilter α σ))
    (filter : EthGetLogsFilter α σ) : Option (List (EthGetLogsFilter α σ) × EthGetLogsFilter α σ) :=
  if filter.contracts.length = getLogsMaxContracts then
    match filter.eventSignatures[0]? with
    | some event => (pushFilter filters filter).map fun filters => (filters, EthGetLogsFilter.fromEvent event)
    | none => none
  else some (filters, filter)

/-- One neighbour of the chosen node: a contract joins the batch, an event the events. -/
def addNeighbor (getLogsMaxContracts : Nat)
    (state : List (EthGetLogsFilter α σ) × EthGetLogsFilter α σ) (neighbor : LogFilterNode α σ) :
    Option (List (EthGetLogsFilter α σ) × EthGetLogsFilter α σ) :=
  match neighbor with
  | .contract address =>
      (flushIfFull getLogsMaxContracts state.1 state.2).map fun state =>
        (state.1, { state.2 with contracts := state.2.contracts ++ [address] })
  | .event eventSig =>
      some (state.1, { state.2 with eventSignatures := state.2.eventSignatures ++ [eventSig] })

/-- The filter the loop starts from the chosen node. -/
def startFilter : LogFilterNode α σ → EthGetLogsFilter α σ
  | .contract address => EthGetLogsFilter.fromContract address
  | .event eventSig => EthGetLogsFilter.fromEvent eventSig

/-- One turn of the `while` loop: the node with the most neighbours gives its filters and is
removed. -/
def coverStep (getLogsMaxContracts : Nat) (g : GraphMap (LogFilterNode α σ) Bool)
    (filters : List (EthGetLogsFilter α σ)) :
    Option (List (EthGetLogsFilter α σ) × GraphMap (LogFilterNode α σ) Bool) := do
  let maxVertex ← maxByKey (fun n => (g.neighbors n).length) g.nodes.keys
  let filter := startFilter maxVertex
  let (filters, filter) ← (g.neighbors maxVertex).foldlM (addNeighbor getLogsMaxContracts) (filters, filter)
  let filters ← pushFilter filters filter
  pure (filters, g.removeNode maxVertex)

/-- The `while g.edge_count() > 0` loop, for at most `fuel` turns. -/
def coverLoop (getLogsMaxContracts : Nat) :
    Nat → GraphMap (LogFilterNode α σ) Bool → List (EthGetLogsFilter α σ) →
      Option (List (EthGetLogsFilter α σ))
  | fuel, g, filters =>
      if g.edgeCount > 0 then
        match fuel with
        | 0 => none
        | fuel + 1 => do
            let (filters, g) ← coverStep getLogsMaxContracts g filters
            coverLoop getLogsMaxContracts fuel g filters
      else some filters

/-- `EthereumLogFilter::eth_get_logs_filters`, with `ENV_VARS.get_logs_max_contracts` as a
parameter and the graph's edge count as the loop's fuel. -/
def ethGetLogsFilters (getLogsMaxContracts : Nat) (filter : EthereumLogFilter α σ) :
    Option (List (EthGetLogsFilter α σ)) :=
  let filters := filter.wildcardEvents.entries.map fun entry => EthGetLogsFilter.fromEvent entry.1
  coverLoop getLogsMaxContracts filter.contractsAndEventsGraph.edgeCount
    filter.contractsAndEventsGraph filters

/-! ## The graphs the code builds are bipartite -/

theorem bipartite_fromDataSources (dataSources : List (DataSource α σ)) :
    Bipartite (fromDataSources dataSources).contractsAndEventsGraph := by
  have graph : (fromDataSources dataSources).contractsAndEventsGraph =
      GraphMap.empty.addEdges (logEdges dataSources) := by
    rw [fromDataSources_eq]
  rw [graph]
  intro edge member
  rw [GraphMap.edgeSet_addEdges, GraphMap.edgeSet_empty, Set.empty_union] at member
  obtain ⟨⟨a, b, receipt⟩, listed, rfl⟩ := member
  obtain ⟨ds, -, inHandler⟩ := List.mem_flatMap.mp listed
  unfold handlerEdges at inHandler
  split at inHandler
  · obtain ⟨handler, -, same⟩ := List.mem_map.mp inHandler
    simp only [Prod.mk.injEq] at same
    obtain ⟨rfl, rfl, -⟩ := same
    exact ⟨_, _, rfl⟩
  · simp at inHandler

theorem bipartite_fromMapping (mapping : Mapping σ) :
    Bipartite (fromMapping mapping : EthereumLogFilter α σ).contractsAndEventsGraph := by
  intro edge member
  rw [fromMapping_eq, GraphMap.edgeSet_empty] at member
  exact absurd member (Set.notMem_empty edge)

theorem bipartite_extend {this other : EthereumLogFilter α σ}
    (thisBipartite : Bipartite this.contractsAndEventsGraph)
    (otherBipartite : Bipartite other.contractsAndEventsGraph) :
    Bipartite (this.extend other).contractsAndEventsGraph := by
  unfold extend
  split
  · exact thisBipartite
  · intro edge member
    rw [GraphMap.edgeSet_addEdges] at member
    rcases member with old | ⟨⟨a, b, receipt⟩, listed, rfl⟩
    · exact thisBipartite edge old
    · exact otherBipartite _ (GraphMap.mk_mem_edgeSet_of_mem_allEdges listed)

/-! ## The filters of one node -/

omit [LinearOrder α] [LinearOrder σ] in
theorem pushFilter_of_valid (filters : List (EthGetLogsFilter α σ)) {filter : EthGetLogsFilter α σ}
    (named : filter.contracts ≠ []) (withEvents : filter.eventSignatures ≠ [])
    (one : filter.contracts.length = 1 ∨ filter.eventSignatures.length = 1) :
    pushFilter filters filter = some (filters ++ [filter]) := by
  have contractsPositive := List.length_pos_iff.mpr named
  have eventsPositive := List.length_pos_iff.mpr withEvents
  simp [pushFilter, contractsPositive, eventsPositive, one]

omit [LinearOrder α] [LinearOrder σ] in
/-- The neighbours of a contract are events, each appended to the contract's filter. -/
theorem foldlM_addNeighbor_events (getLogsMaxContracts : Nat) (filters : List (EthGetLogsFilter α σ))
    (filter : EthGetLogsFilter α σ) (neighbors : List (LogFilterNode α σ))
    (events : ∀ n ∈ neighbors, n.address? = none) :
    neighbors.foldlM (addNeighbor getLogsMaxContracts) (filters, filter) =
      some (filters, { filter with
        eventSignatures := filter.eventSignatures ++ neighbors.filterMap LogFilterNode.signature? }) := by
  induction neighbors generalizing filter with
  | nil => simp
  | cons neighbor rest induction =>
      cases neighbor with
      | contract address => simp [LogFilterNode.address?] at events
      | event signature =>
          rw [List.foldlM_cons]
          simp only [addNeighbor, Option.bind_eq_bind, Option.bind_some]
          rw [induction _ (fun n member => events n (List.mem_cons_of_mem _ member))]
          simp [LogFilterNode.signature?]

omit [LinearOrder α] [LinearOrder σ] in
/-- A contract joins the batch of an event, which is pushed first when it is full. -/
theorem addNeighbor_contract {getLogsMaxContracts : Nat} (positive : 1 ≤ getLogsMaxContracts)
    (filters : List (EthGetLogsFilter α σ)) (batch : List α) (event : σ) (address : α) :
    addNeighbor getLogsMaxContracts (filters, ⟨batch, [event]⟩) (.contract address) =
      some (if batch.length = getLogsMaxContracts then
          (filters ++ [⟨batch, [event]⟩], ⟨[address], [event]⟩)
        else (filters, ⟨batch ++ [address], [event]⟩)) := by
  by_cases full : batch.length = getLogsMaxContracts
  · have named : batch ≠ [] := List.ne_nil_of_length_pos (by omega)
    have pushed : pushFilter filters ⟨batch, [event]⟩ = some (filters ++ [⟨batch, [event]⟩]) :=
      pushFilter_of_valid filters named (List.cons_ne_nil _ _) (Or.inr rfl)
    simp [addNeighbor, flushIfFull, full, pushed, EthGetLogsFilter.fromEvent]
  · simp [addNeighbor, flushIfFull, full]

omit [LinearOrder α] [LinearOrder σ] in
/-- The neighbours of an event are contracts, batched by `get_logs_max_contracts`: the full
batches are pushed, and the batches in order list the contracts. -/
theorem foldlM_addNeighbor_contracts {getLogsMaxContracts : Nat} (positive : 1 ≤ getLogsMaxContracts)
    (event : σ) (neighbors : List (LogFilterNode α σ))
    (contracts : ∀ n ∈ neighbors, n.signature? = none) :
    ∀ (filters : List (EthGetLogsFilter α σ)) (batch : List α), batch.length ≤ getLogsMaxContracts →
      ∃ pushed last, neighbors.foldlM (addNeighbor getLogsMaxContracts) (filters, ⟨batch, [event]⟩) =
          some (filters ++ pushed, ⟨last, [event]⟩) ∧
        (∀ filter ∈ pushed, filter.eventSignatures = [event] ∧
          filter.contracts.length = getLogsMaxContracts) ∧
        last.length ≤ getLogsMaxContracts ∧
        pushed.flatMap EthGetLogsFilter.contracts ++ last =
          batch ++ neighbors.filterMap LogFilterNode.address? ∧
        (batch ++ neighbors.filterMap LogFilterNode.address? ≠ [] → last ≠ []) := by
  induction neighbors with
  | nil =>
      intro filters batch fits
      exact ⟨[], batch, by simp, by simp, fits, by simp, by simp⟩
  | cons neighbor rest induction =>
      intro filters batch fits
      obtain ⟨address, rfl⟩ : ∃ address, neighbor = .contract address := by
        cases neighbor with
        | contract address => exact ⟨address, rfl⟩
        | event signature => simp [LogFilterNode.signature?] at contracts
      have restContracts := fun n member => contracts n (List.mem_cons_of_mem _ member)
      rw [List.foldlM_cons, addNeighbor_contract positive filters batch event address]
      by_cases full : batch.length = getLogsMaxContracts
      · rw [if_pos full]
        obtain ⟨pushed, last, run, batched, short, flat, nonempty⟩ :=
          induction restContracts (filters ++ [⟨batch, [event]⟩]) [address] (by simp; omega)
        refine ⟨⟨batch, [event]⟩ :: pushed, last, ?_, ?_, short, ?_, fun _ => nonempty (by simp)⟩
        · simp only [Option.bind_eq_bind, Option.bind_some]
          rw [run, List.append_assoc]
          rfl
        · intro filter member
          rcases List.mem_cons.mp member with rfl | later
          · exact ⟨rfl, full⟩
          · exact batched filter later
        · rw [List.flatMap_cons, List.append_assoc, flat]
          simp [LogFilterNode.address?]
      · rw [if_neg full]
        obtain ⟨pushed, last, run, batched, short, flat, nonempty⟩ :=
          induction restContracts filters (batch ++ [address]) (by simp; omega)
        refine ⟨pushed, last, ?_, batched, short, ?_, fun _ => nonempty (by simp)⟩
        · simpa only [Option.bind_eq_bind, Option.bind_some] using run
        · rw [flat]
          simp [LogFilterNode.address?]

/-! ## Covering a set of edges -/

/-- Filters made for the edges `edges`: shaped as the asserts of `push_filter` demand, naming
only pairs joined by one of the edges, and naming every such pair. -/
structure Covers (getLogsMaxContracts : Nat) (edges : Set (Sym2 (LogFilterNode α σ)))
    (made : List (EthGetLogsFilter α σ)) : Prop where
  shaped : ∀ filter ∈ made, filter.Shaped getLogsMaxContracts
  sound : ∀ filter ∈ made, ∀ address ∈ filter.contracts, ∀ signature ∈ filter.eventSignatures,
    s(LogFilterNode.contract address, LogFilterNode.event signature) ∈ edges
  complete : ∀ address signature,
    s(LogFilterNode.contract address, LogFilterNode.event signature) ∈ edges →
      ∃ filter ∈ made, address ∈ filter.contracts ∧ signature ∈ filter.eventSignatures

omit [LinearOrder α] [LinearOrder σ] in
theorem Covers.nil {getLogsMaxContracts : Nat} {edges : Set (Sym2 (LogFilterNode α σ))}
    (none : ∀ address signature,
      s(LogFilterNode.contract address, LogFilterNode.event signature) ∉ edges) :
    Covers getLogsMaxContracts edges [] :=
  ⟨by simp, by simp, fun address signature stored => absurd stored (none address signature)⟩

omit [LinearOrder α] [LinearOrder σ] in
/-- Filters for two parts of a set of edges cover the whole. -/
theorem Covers.append {getLogsMaxContracts : Nat} {edges front back : Set (Sym2 (LogFilterNode α σ))}
    {madeFront madeBack : List (EthGetLogsFilter α σ)}
    (coversFront : Covers getLogsMaxContracts front madeFront)
    (coversBack : Covers getLogsMaxContracts back madeBack) (frontWithin : front ⊆ edges)
    (backWithin : back ⊆ edges) (split : ∀ edge ∈ edges, edge ∈ front ∨ edge ∈ back) :
    Covers getLogsMaxContracts edges (madeFront ++ madeBack) where
  shaped filter member := by
    rcases List.mem_append.mp member with inFront | inBack
    · exact coversFront.shaped filter inFront
    · exact coversBack.shaped filter inBack
  sound filter member address named signature listed := by
    rcases List.mem_append.mp member with inFront | inBack
    · exact frontWithin (coversFront.sound filter inFront address named signature listed)
    · exact backWithin (coversBack.sound filter inBack address named signature listed)
  complete address signature stored := by
    rcases split _ stored with inFront | inBack
    · obtain ⟨filter, member, named, listed⟩ := coversFront.complete address signature inFront
      exact ⟨filter, List.mem_append_left _ member, named, listed⟩
    · obtain ⟨filter, member, named, listed⟩ := coversBack.complete address signature inBack
      exact ⟨filter, List.mem_append_right _ member, named, listed⟩

omit [LinearOrder α] [LinearOrder σ] in
/-- A log is selected by one of the filters made for some edges exactly when its contract and
first topic are joined by one of them. -/
theorem Covers.exists_selects_iff {getLogsMaxContracts : Nat}
    {edges : Set (Sym2 (LogFilterNode α σ))} {made : List (EthGetLogsFilter α σ)}
    (covers : Covers getLogsMaxContracts edges made) (address : α) (topic0 : σ) :
    (∃ filter ∈ made, filter.Selects address topic0) ↔
      s(LogFilterNode.contract address, LogFilterNode.event topic0) ∈ edges := by
  constructor
  · rintro ⟨filter, member, anyOrNamed, listed⟩
    have named : address ∈ filter.contracts := by
      rcases anyOrNamed with none | named
      · exact absurd none (covers.shaped filter member).1
      · exact named
    exact covers.sound filter member address named topic0 listed
  · intro stored
    obtain ⟨filter, member, named, listed⟩ := covers.complete address topic0 stored
    exact ⟨filter, member, Or.inr named, listed⟩

/-! ## One turn of the loop -/

theorem coverStep_of_chosen {getLogsMaxContracts : Nat} {g : GraphMap (LogFilterNode α σ) Bool}
    {filters : List (EthGetLogsFilter α σ)} {maxVertex : LogFilterNode α σ}
    (chosen : maxByKey (fun n => (g.neighbors n).length) g.nodes.keys = some maxVertex)
    {state : List (EthGetLogsFilter α σ) × EthGetLogsFilter α σ}
    (run : (g.neighbors maxVertex).foldlM (addNeighbor getLogsMaxContracts)
      (filters, startFilter maxVertex) = some state)
    {pushed : List (EthGetLogsFilter α σ)} (pushing : pushFilter state.1 state.2 = some pushed) :
    coverStep getLogsMaxContracts g filters = some (pushed, g.removeNode maxVertex) := by
  simp [coverStep, chosen, run, pushing]

/-- The filter of a contract: the contract with all its events. -/
theorem nodeFilters_contract {getLogsMaxContracts : Nat} {g : GraphMap (LogFilterNode α σ) Bool}
    (bipartite : Bipartite g) {address : α} (degree : g.neighbors (.contract address) ≠ [])
    (filters : List (EthGetLogsFilter α σ)) :
    ∃ state made, (g.neighbors (.contract address)).foldlM (addNeighbor getLogsMaxContracts)
        (filters, startFilter (.contract address)) = some state ∧
      pushFilter state.1 state.2 = some (filters ++ made) ∧
      Covers getLogsMaxContracts {edge ∈ g.edgeSet | LogFilterNode.contract address ∈ edge} made := by
  have events := fun n (member : n ∈ g.neighbors (.contract address)) =>
    bipartite.address?_of_mem_neighbors member
  have run := foldlM_addNeighbor_events getLogsMaxContracts filters
    (startFilter (.contract address)) _ events
  have listed : ∀ signature, signature ∈ (g.neighbors (.contract address)).filterMap
      LogFilterNode.signature? ↔ s(LogFilterNode.contract address, .event signature) ∈ g.edgeSet := by
    intro signature
    simp [GraphMap.mem_neighbors_iff]
  have eventsNonempty : (g.neighbors (.contract address)).filterMap LogFilterNode.signature? ≠ [] := by
    obtain ⟨n, member⟩ := List.exists_mem_of_ne_nil _ degree
    cases n with
    | contract other =>
        have notEvent := events _ member
        simp [LogFilterNode.address?] at notEvent
    | event signature =>
        exact List.ne_nil_of_mem ((listed signature).mpr ((GraphMap.mem_neighbors_iff _ _ _).mp member))
  refine ⟨_, [⟨[address], (g.neighbors (.contract address)).filterMap LogFilterNode.signature?⟩],
    run, pushFilter_of_valid filters (by simp [startFilter, EthGetLogsFilter.fromContract])
      (by simpa [startFilter, EthGetLogsFilter.fromContract] using eventsNonempty) (Or.inl rfl), ?_⟩
  refine ⟨?_, ?_, ?_⟩
  · intro filter member
    rw [List.mem_singleton] at member
    subst member
    exact ⟨by simp, Or.inl ⟨rfl, eventsNonempty⟩⟩
  · intro filter member named namedMember signature signatureMember
    rw [List.mem_singleton] at member
    subst member
    rw [List.mem_singleton] at namedMember
    subst namedMember
    exact ⟨(listed signature).mp signatureMember, Sym2.mem_mk_left _ _⟩
  · rintro named signature ⟨stored, touches⟩
    rcases Sym2.mem_iff.mp touches with same | wrong
    · cases same
      exact ⟨_, List.mem_singleton_self _, List.mem_singleton_self _, (listed signature).mpr stored⟩
    · cases wrong

/-- The filters of an event: the event with its contracts, in full batches and a last one. -/
theorem nodeFilters_event {getLogsMaxContracts : Nat} (positive : 1 ≤ getLogsMaxContracts)
    {g : GraphMap (LogFilterNode α σ) Bool} (bipartite : Bipartite g) {signature : σ}
    (degree : g.neighbors (.event signature) ≠ []) (filters : List (EthGetLogsFilter α σ)) :
    ∃ state made, (g.neighbors (.event signature)).foldlM (addNeighbor getLogsMaxContracts)
        (filters, startFilter (.event signature)) = some state ∧
      pushFilter state.1 state.2 = some (filters ++ made) ∧
      Covers getLogsMaxContracts {edge ∈ g.edgeSet | LogFilterNode.event signature ∈ edge} made := by
  have contractsOnly := fun n (member : n ∈ g.neighbors (.event signature)) =>
    bipartite.signature?_of_mem_neighbors member
  obtain ⟨pushed, last, run, batched, short, flat, nonempty⟩ :=
    foldlM_addNeighbor_contracts positive signature _ contractsOnly filters [] (Nat.zero_le _)
  have listed : ∀ address, address ∈ (g.neighbors (.event signature)).filterMap
      LogFilterNode.address? ↔ s(LogFilterNode.contract address, .event signature) ∈ g.edgeSet := by
    intro address
    simp [GraphMap.mem_neighbors_iff, Sym2.eq_swap]
  have contractsNonempty : (g.neighbors (.event signature)).filterMap LogFilterNode.address? ≠ [] := by
    obtain ⟨n, member⟩ := List.exists_mem_of_ne_nil _ degree
    cases n with
    | event other =>
        have notContract := contractsOnly _ member
        simp [LogFilterNode.signature?] at notContract
    | contract address =>
        apply List.ne_nil_of_mem ((listed address).mpr _)
        rw [Sym2.eq_swap, ← GraphMap.mem_neighbors_iff]
        exact member
  have lastNonempty : last ≠ [] := nonempty (by simpa using contractsNonempty)
  have made : ∀ filter ∈ pushed ++ [⟨last, [signature]⟩], filter.eventSignatures = [signature] ∧
      ∀ address ∈ filter.contracts,
        address ∈ (g.neighbors (.event signature)).filterMap LogFilterNode.address? := by
    intro filter member
    rw [← List.nil_append ((g.neighbors _).filterMap _), ← flat]
    rcases List.mem_append.mp member with inPushed | isLast
    · refine ⟨(batched filter inPushed).1, fun address named => ?_⟩
      exact List.mem_append_left _ (List.mem_flatMap.mpr ⟨filter, inPushed, named⟩)
    · rw [List.mem_singleton] at isLast
      subst isLast
      exact ⟨rfl, fun address named => List.mem_append_right _ named⟩
  refine ⟨_, pushed ++ [⟨last, [signature]⟩], run, ?_, ⟨?_, ?_, ?_⟩⟩
  · rw [pushFilter_of_valid _ lastNonempty (List.cons_ne_nil _ _) (Or.inr rfl), List.append_assoc]
  · intro filter member
    rcases List.mem_append.mp member with inPushed | isLast
    · obtain ⟨single, full⟩ := batched filter inPushed
      refine ⟨List.ne_nil_of_length_pos (by omega), Or.inr ⟨by simp [single], full.le⟩⟩
    · rw [List.mem_singleton] at isLast
      subst isLast
      exact ⟨lastNonempty, Or.inr ⟨rfl, short⟩⟩
  · intro filter member address named event listedEvent
    obtain ⟨single, neighbours⟩ := made filter member
    rw [single, List.mem_singleton] at listedEvent
    subst listedEvent
    exact ⟨(listed address).mp (neighbours address named), Sym2.mem_mk_right _ _⟩
  · rintro address event ⟨stored, touches⟩
    rcases Sym2.mem_iff.mp touches with wrong | same
    · cases wrong
    · cases same
      have neighbour := (listed address).mpr stored
      rw [← List.nil_append ((g.neighbors _).filterMap _), ← flat] at neighbour
      rcases List.mem_append.mp neighbour with inPushed | inLast
      · obtain ⟨filter, member, named⟩ := List.mem_flatMap.mp inPushed
        refine ⟨filter, List.mem_append_left _ member, named, ?_⟩
        rw [(batched filter member).1]
        exact List.mem_singleton_self _
      · exact ⟨_, List.mem_append_right _ (List.mem_singleton_self _), inLast,
          List.mem_singleton_self _⟩

/-- One turn on a bipartite graph with an edge: the chosen node has a neighbour, the turn pushes
filters covering the node's edges, and the node is removed. -/
theorem coverStep_spec {getLogsMaxContracts : Nat} (positive : 1 ≤ getLogsMaxContracts)
    {g : GraphMap (LogFilterNode α σ) Bool} (bipartite : Bipartite g) (nonempty : 0 < g.edgeCount)
    (filters : List (EthGetLogsFilter α σ)) :
    ∃ maxVertex made, coverStep getLogsMaxContracts g filters =
        some (filters ++ made, g.removeNode maxVertex) ∧
      g.neighbors maxVertex ≠ [] ∧
      Covers getLogsMaxContracts {edge ∈ g.edgeSet | maxVertex ∈ edge} made := by
  obtain ⟨node, key, hasNeighbor⟩ := GraphMap.exists_neighbor_of_edgeCount_pos nonempty
  obtain ⟨maxVertex, chosen, -, greatest⟩ :=
    maxByKey_spec (fun n => (g.neighbors n).length) (List.ne_nil_of_mem key)
  have degree : g.neighbors maxVertex ≠ [] := by
    have atLeast : (g.neighbors node).length ≤ (g.neighbors maxVertex).length := greatest node key
    have some := List.length_pos_iff.mpr hasNeighbor
    exact List.ne_nil_of_length_pos (by omega)
  obtain ⟨state, made, run, pushing, covers⟩ :
      ∃ state made, (g.neighbors maxVertex).foldlM (addNeighbor getLogsMaxContracts)
          (filters, startFilter maxVertex) = some state ∧
        pushFilter state.1 state.2 = some (filters ++ made) ∧
        Covers getLogsMaxContracts {edge ∈ g.edgeSet | maxVertex ∈ edge} made := by
    cases maxVertex with
    | contract address => exact nodeFilters_contract bipartite degree filters
    | event signature => exact nodeFilters_event positive bipartite degree filters
  exact ⟨maxVertex, made, coverStep_of_chosen chosen run pushing, degree, covers⟩

/-- The loop on a bipartite graph, with fuel for every edge: it ends, and the filters it adds
cover the graph's edges. -/
theorem coverLoop_spec {getLogsMaxContracts : Nat} (positive : 1 ≤ getLogsMaxContracts) :
    ∀ (fuel : Nat) (g : GraphMap (LogFilterNode α σ) Bool) (filters : List (EthGetLogsFilter α σ)),
      g.edgeCount ≤ fuel → Bipartite g →
      ∃ made, coverLoop getLogsMaxContracts fuel g filters = some (filters ++ made) ∧
        Covers getLogsMaxContracts g.edgeSet made := by
  intro fuel
  induction fuel with
  | zero =>
      intro g filters few _
      have empty : ¬ 0 < g.edgeCount := by omega
      refine ⟨[], by simp [coverLoop, empty], Covers.nil fun address signature stored => ?_⟩
      exact empty (GraphMap.edgeCount_pos_of_mem_edgeSet stored)
  | succ fuel induction =>
      intro g filters few bipartite
      by_cases nonempty : 0 < g.edgeCount
      · obtain ⟨maxVertex, made, step, degree, covers⟩ :=
          coverStep_spec positive bipartite nonempty filters
        have fewer : (g.removeNode maxVertex).edgeCount ≤ fuel := by
          rw [GraphMap.edgeCount_removeNode]
          have removed := List.length_pos_iff.mpr degree
          omega
        obtain ⟨rest, loop, restCovers⟩ :=
          induction (g.removeNode maxVertex) (filters ++ made) fewer (bipartite.removeNode maxVertex)
        have left : (g.removeNode maxVertex).edgeSet = {edge ∈ g.edgeSet | maxVertex ∉ edge} :=
          GraphMap.edgeSet_removeNode g maxVertex
        refine ⟨made ++ rest, ?_, covers.append restCovers (Set.sep_subset _ _)
          (by rw [left]; exact Set.sep_subset _ _) fun edge member => ?_⟩
        · rw [coverLoop, if_pos nonempty]
          simp [step, loop]
        · by_cases touches : maxVertex ∈ edge
          · exact Or.inl ⟨member, touches⟩
          · rw [left]
            exact Or.inr ⟨member, touches⟩
      · refine ⟨[], by rw [coverLoop, if_neg nonempty]; simp, Covers.nil fun address signature stored => ?_⟩
        exact nonempty (GraphMap.edgeCount_pos_of_mem_edgeSet stored)

omit [LinearOrder α] in
/-- The filters of the wildcard events select the logs whose first topic is one of them. -/
theorem exists_selects_wildcards (wildcards : IndexMap σ Bool) (address : α) (topic0 : σ) :
    (∃ filter ∈ wildcards.entries.map (fun entry => EthGetLogsFilter.fromEvent entry.1),
      filter.Selects address topic0) ↔ (wildcards.get? topic0).isSome := by
  rw [← IndexMap.mem_keys_iff, IndexMap.keys]
  simp [EthGetLogsFilter.Selects, EthGetLogsFilter.fromEvent, eq_comm]

/-- On a bipartite graph `eth_get_logs_filters` ends within its asserts and contract bound, and
its filters together select exactly the logs `matches` selects. -/
theorem ethGetLogsFilters_cover (filter : EthereumLogFilter α σ) {getLogsMaxContracts : Nat}
    (positive : 1 ≤ getLogsMaxContracts) (bipartite : Bipartite filter.contractsAndEventsGraph) :
    ∃ filters, filter.ethGetLogsFilters getLogsMaxContracts = some filters ∧
      (∀ made ∈ filters, made.contracts ≠ [] → made.Shaped getLogsMaxContracts) ∧
      ∀ (log : Log α σ) (topic0 : σ), log.topics.head? = some topic0 →
        (filter.matchesLog log = true ↔ ∃ made ∈ filters, made.Selects log.address topic0) := by
  obtain ⟨made, loop, covers⟩ := coverLoop_spec positive _ filter.contractsAndEventsGraph
    (filter.wildcardEvents.entries.map fun entry => EthGetLogsFilter.fromEvent entry.1)
    (le_refl _) bipartite
  refine ⟨_, loop, ?_, ?_⟩
  · intro shaped member named
    rcases List.mem_append.mp member with wildcard | inMade
    · obtain ⟨entry, -, rfl⟩ := List.mem_map.mp wildcard
      exact absurd rfl named
    · exact covers.shaped shaped inMade
  · intro log topic0 first
    have wildcards := exists_selects_wildcards filter.wildcardEvents log.address topic0
    have edges := covers.exists_selects_iff log.address topic0
    rw [matchesLog_eq, first, Bool.or_eq_true, GraphMap.weight?_isSome_iff, ← edges, ← wildcards]
    simp only [List.mem_append, or_and_right, exists_or]
    exact or_comm

/-- Two events of contract 1 and a wildcard event 9. -/
def sampleLogFilter : EthereumLogFilter Nat Nat :=
  (fromDataSources [⟨⟨some 1, 0⟩, ⟨[], [], [⟨7, true⟩, ⟨8, false⟩]⟩⟩]).extend
    (fromMapping ⟨[], [], [⟨9, false⟩]⟩)

theorem bipartite_sampleLogFilter : Bipartite sampleLogFilter.contractsAndEventsGraph :=
  bipartite_extend (bipartite_fromDataSources _) (bipartite_fromMapping _)

/-- `sampleLogFilter` in batches of one contract. -/
theorem ethGetLogsFilters_cover_sample :
    1 ≤ 1 ∧ Bipartite sampleLogFilter.contractsAndEventsGraph ∧
      ∃ filters, sampleLogFilter.ethGetLogsFilters 1 = some filters ∧
        (∀ made ∈ filters, made.contracts ≠ [] → made.Shaped 1) ∧
        ∀ (log : Log Nat Nat) (topic0 : Nat), log.topics.head? = some topic0 →
          (sampleLogFilter.matchesLog log = true ↔ ∃ made ∈ filters, made.Selects log.address topic0) :=
  ⟨le_refl 1, bipartite_sampleLogFilter,
    ethGetLogsFilters_cover sampleLogFilter (le_refl 1) bipartite_sampleLogFilter⟩

/-- The wildcard event first, then contract 1, which has the most neighbours, with both its
events. -/
example : (sampleLogFilter.ethGetLogsFilters 1).map
    (List.map fun made => (made.contracts, made.eventSignatures)) =
      some [([], [9]), ([1], [7, 8])] := by
  decide

end EthereumLogFilter

end Ethereum
