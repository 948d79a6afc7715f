import GraphNode.Library.IndexMap
import Mathlib.Data.Sym.Sym2

/-!
# Undirected graph maps

`petgraph::graphmap::GraphMap<N, E, Undirected>` (petgraph 0.6): an `IndexMap` from each node to
the list of its neighbours, and an `IndexMap` from each edge to its weight.  An edge is stored
under its endpoints in order (`edgeKey`), so that `(a, b)` and `(b, a)` are one edge.  The
direction tag petgraph keeps beside each neighbour is left out: an undirected graph map reads it
nowhere, since `neighbors` yields every listed neighbour and `remove_node` finds a neighbour's
link back by node alone.

`Consistent` is the representation invariant, and every `GraphMap` carries it: each stored edge
is in order, `b` is listed as a neighbour of `a` exactly when the edge `{a, b}` is stored, and no
neighbour is listed twice.  The abstract graph is the set `edgeSet` of unordered pairs: adding an
edge inserts its pair (`edgeSet_addEdge`) and removing a node removes every pair that contains it
(`edgeSet_removeNode`).
-/

namespace GraphMap

variable {N E : Type} [LinearOrder N]

/-- `GraphMap::edge_key` of an undirected graph: the endpoints in order. -/
def edgeKey (a b : N) : N × N :=
  if a ≤ b then (a, b) else (b, a)

theorem edgeKey_comm (a b : N) : edgeKey a b = edgeKey b a := by
  unfold edgeKey
  split_ifs with forward backward backward
  · rw [le_antisymm forward backward]
  · rfl
  · rfl
  · exact absurd (le_total a b) (by simp [forward, backward])

theorem edgeKey_ordered (a b : N) : (edgeKey a b).1 ≤ (edgeKey a b).2 := by
  unfold edgeKey
  split_ifs with forward
  · exact forward
  · exact le_of_lt (lt_of_not_ge forward)

theorem edgeKey_of_ordered {key : N × N} (ordered : key.1 ≤ key.2) : edgeKey key.1 key.2 = key :=
  if_pos ordered

@[simp]
theorem mk_edgeKey (a b : N) : s((edgeKey a b).1, (edgeKey a b).2) = s(a, b) := by
  unfold edgeKey
  split_ifs
  · rfl
  · exact Sym2.eq_swap

/-- Two edge keys agree exactly when they join the same two nodes. -/
theorem edgeKey_eq_iff (a b c d : N) : edgeKey a b = edgeKey c d ↔ s(a, b) = s(c, d) := by
  constructor
  · intro same
    rw [← mk_edgeKey a b, ← mk_edgeKey c d, same]
  · intro same
    rcases Sym2.eq_iff.mp same with ⟨rfl, rfl⟩ | ⟨rfl, rfl⟩
    · rfl
    · exact edgeKey_comm a b

/-- The neighbours listed for `a`: none for a node that is absent. -/
def adjacency (nodes : IndexMap N (List N)) (a : N) : List N :=
  (nodes.get? a).getD []

/-- The representation invariant of an undirected graph map. -/
structure Consistent (nodes : IndexMap N (List N)) (edges : IndexMap (N × N) E) : Prop where
  /-- Every edge is stored under its endpoints in order. -/
  ordered : ∀ key ∈ edges.keys, key.1 ≤ key.2
  /-- `b` is a listed neighbour of `a` exactly when the edge `{a, b}` is stored. -/
  mem_adjacency_iff : ∀ a b, b ∈ adjacency nodes a ↔ edgeKey a b ∈ edges.keys
  /-- No neighbour is listed twice. -/
  nodup : ∀ a, (adjacency nodes a).Nodup

end GraphMap

/-- `GraphMap<N, E, Undirected>`, with its representation invariant. -/
structure GraphMap (N E : Type) [LinearOrder N] where
  nodes : IndexMap N (List N)
  edges : IndexMap (N × N) E
  consistent : GraphMap.Consistent nodes edges

namespace GraphMap

variable {N E : Type} [LinearOrder N]

/-! ## Reading a graph map -/

/-- `GraphMap::neighbors` of an undirected graph. -/
def neighbors (g : GraphMap N E) (a : N) : List N :=
  adjacency g.nodes a

/-- `GraphMap::edge_count`. -/
def edgeCount (g : GraphMap N E) : Nat :=
  g.edges.entries.length

/-- `GraphMap::all_edges`: each edge with its endpoints as stored, and its weight. -/
def allEdges (g : GraphMap N E) : List (N × N × E) :=
  g.edges.entries.map fun entry => (entry.1.1, entry.1.2, entry.2)

/-- The edges of the graph, as unordered pairs. -/
def edgeSet (g : GraphMap N E) : Set (Sym2 N) :=
  {e | ∃ key ∈ g.edges.keys, e = s(key.1, key.2)}

theorem mk_mem_edgeSet_iff (g : GraphMap N E) (a b : N) :
    s(a, b) ∈ g.edgeSet ↔ edgeKey a b ∈ g.edges.keys := by
  constructor
  · rintro ⟨key, member, same⟩
    have stored : edgeKey key.1 key.2 = key := edgeKey_of_ordered (g.consistent.ordered key member)
    rwa [(edgeKey_eq_iff a b key.1 key.2).mpr same, stored]
  · intro member
    exact ⟨edgeKey a b, member, (mk_edgeKey a b).symm⟩

theorem mem_neighbors_iff (g : GraphMap N E) (a b : N) :
    b ∈ g.neighbors a ↔ s(a, b) ∈ g.edgeSet := by
  rw [mk_mem_edgeSet_iff]
  exact g.consistent.mem_adjacency_iff a b

theorem nodup_neighbors (g : GraphMap N E) (a : N) : (g.neighbors a).Nodup :=
  g.consistent.nodup a

/-- An edge is reported with its endpoints in order. -/
theorem mem_allEdges_iff (g : GraphMap N E) (a b : N) (weight : E) :
    (a, b, weight) ∈ g.allEdges ↔ g.edges.get? (a, b) = some weight := by
  rw [← IndexMap.mem_entries_iff, allEdges, List.mem_map]
  constructor
  · rintro ⟨⟨⟨a', b'⟩, weight'⟩, member, same⟩
    simp only [Prod.mk.injEq] at same
    obtain ⟨rfl, rfl, rfl⟩ := same
    exact member
  · intro member
    exact ⟨((a, b), weight), member, rfl⟩

theorem ordered_of_mem_allEdges {g : GraphMap N E} {a b : N} {weight : E}
    (member : (a, b, weight) ∈ g.allEdges) : a ≤ b := by
  have stored := (mem_allEdges_iff g a b weight).mp member
  have key : (a, b) ∈ g.edges.keys := (IndexMap.mem_keys_iff _ _).mpr (by simp [stored])
  exact g.consistent.ordered _ key

/-- The weight of the edge `{a, b}`. -/
def weight? (g : GraphMap N E) (a b : N) : Option E :=
  g.edges.get? (edgeKey a b)

theorem mem_allEdges_iff_weight? (g : GraphMap N E) (a b : N) (weight : E) :
    (a, b, weight) ∈ g.allEdges ↔ a ≤ b ∧ g.weight? a b = some weight := by
  constructor
  · intro member
    have ordered := ordered_of_mem_allEdges member
    refine ⟨ordered, ?_⟩
    rw [weight?, edgeKey, if_pos ordered]
    exact (mem_allEdges_iff g a b weight).mp member
  · rintro ⟨ordered, stored⟩
    rw [weight?, edgeKey, if_pos ordered] at stored
    exact (mem_allEdges_iff g a b weight).mpr stored

theorem weight?_isSome_iff (g : GraphMap N E) (a b : N) :
    (g.weight? a b).isSome ↔ s(a, b) ∈ g.edgeSet := by
  rw [mk_mem_edgeSet_iff, IndexMap.mem_keys_iff]
  rfl

theorem weight?_comm (g : GraphMap N E) (a b : N) : g.weight? a b = g.weight? b a := by
  rw [weight?, weight?, edgeKey_comm]

/-- An edge is reported once, in one of its two orientations. -/
theorem exists_mem_allEdges_iff (g : GraphMap N E) (a b : N) :
    (∃ weight, (a, b, weight) ∈ g.allEdges ∨ (b, a, weight) ∈ g.allEdges) ↔ s(a, b) ∈ g.edgeSet := by
  rw [← weight?_isSome_iff, Option.isSome_iff_exists]
  constructor
  · rintro ⟨weight, forward | backward⟩
    · exact ⟨weight, ((mem_allEdges_iff_weight? g a b weight).mp forward).2⟩
    · rw [weight?_comm]
      exact ⟨weight, ((mem_allEdges_iff_weight? g b a weight).mp backward).2⟩
  · rintro ⟨weight, stored⟩
    refine ⟨weight, ?_⟩
    rcases le_total a b with forward | backward
    · exact Or.inl ((mem_allEdges_iff_weight? g a b weight).mpr ⟨forward, stored⟩)
    · rw [weight?_comm] at stored
      exact Or.inr ((mem_allEdges_iff_weight? g b a weight).mpr ⟨backward, stored⟩)

/-- A nonempty graph has a node with a neighbour. -/
theorem exists_neighbor_of_edgeCount_pos {g : GraphMap N E} (nonempty : 0 < g.edgeCount) :
    ∃ a ∈ g.nodes.keys, g.neighbors a ≠ [] := by
  obtain ⟨entry, member⟩ := List.exists_mem_of_length_pos nonempty
  have key : entry.1 ∈ g.edges.keys := List.mem_map_of_mem member
  have listed : entry.1.2 ∈ g.neighbors entry.1.1 := by
    rw [neighbors, g.consistent.mem_adjacency_iff,
      edgeKey_of_ordered (g.consistent.ordered _ key)]
    exact key
  refine ⟨entry.1.1, ?_, List.ne_nil_of_mem listed⟩
  rw [IndexMap.mem_keys_iff]
  cases found : g.nodes.get? entry.1.1 with
  | some _ => rfl
  | none => simp [neighbors, adjacency, found] at listed

/-- A graph with an edge has a positive edge count. -/
theorem edgeCount_pos_of_mem_edgeSet {g : GraphMap N E} {e : Sym2 N} (member : e ∈ g.edgeSet) :
    0 < g.edgeCount := by
  obtain ⟨key, stored, -⟩ := member
  obtain ⟨entry, entryMember, -⟩ := List.mem_map.mp stored
  exact List.length_pos_of_mem entryMember

theorem mk_mem_edgeSet_of_mem_allEdges {g : GraphMap N E} {a b : N} {weight : E}
    (member : (a, b, weight) ∈ g.allEdges) : s(a, b) ∈ g.edgeSet :=
  (exists_mem_allEdges_iff g a b).mp ⟨weight, Or.inl member⟩

/-! ## The empty graph -/

theorem consistent_empty : Consistent (IndexMap.empty : IndexMap N (List N))
    (IndexMap.empty : IndexMap (N × N) E) where
  ordered := by simp
  mem_adjacency_iff := by simp [adjacency]
  nodup := by simp [adjacency]

/-- `GraphMap::new`. -/
def empty : GraphMap N E :=
  ⟨IndexMap.empty, IndexMap.empty, consistent_empty⟩

@[simp]
theorem edgeSet_empty : (empty : GraphMap N E).edgeSet = ∅ := by
  simp [edgeSet, empty]

@[simp]
theorem edgeCount_empty : (empty : GraphMap N E).edgeCount = 0 :=
  rfl

/-! ## Adding an edge -/

/-- The neighbour links `add_edge` pushes for a new edge: `b` for `a`, and `a` for `b` unless the
edge is a loop. -/
def addEdgeNodes (nodes : IndexMap N (List N)) (a b : N) : IndexMap N (List N) :=
  let nodes := nodes.modifyOrInsert a [] (· ++ [b])
  if a ≠ b then nodes.modifyOrInsert b [] (· ++ [a]) else nodes

theorem adjacency_modifyOrInsert (nodes : IndexMap N (List N)) (a b c : N) :
    adjacency (nodes.modifyOrInsert a [] (· ++ [b])) c =
      if a = c then adjacency nodes a ++ [b] else adjacency nodes c := by
  unfold adjacency
  rw [IndexMap.get?_modifyOrInsert]
  split <;> rfl

theorem adjacency_addEdgeNodes (nodes : IndexMap N (List N)) (a b c : N) :
    adjacency (addEdgeNodes nodes a b) c =
      if c = a then adjacency nodes a ++ [b]
      else if c = b then adjacency nodes b ++ [a] else adjacency nodes c := by
  unfold addEdgeNodes
  by_cases loop : a = b
  · subst loop
    simp only [ne_eq, not_true_eq_false, if_false, adjacency_modifyOrInsert]
    by_cases same : c = a
    · simp [same]
    · simp [same, Ne.symm same]
  · simp only [ne_eq, loop, not_false_eq_true, if_true, adjacency_modifyOrInsert]
    by_cases atA : c = a
    · subst atA
      simp [Ne.symm loop]
    · by_cases atB : c = b
      · subst atB
        simp [atA]
      · simp [atA, atB, Ne.symm atA, Ne.symm atB]

theorem mem_adjacency_addEdgeNodes (nodes : IndexMap N (List N)) (a b c x : N) :
    x ∈ adjacency (addEdgeNodes nodes a b) c ↔
      x ∈ adjacency nodes c ∨ s(c, x) = s(a, b) := by
  rw [adjacency_addEdgeNodes, Sym2.eq_iff]
  by_cases atA : c = a
  · subst atA
    by_cases loop : c = b
    · subst loop
      simp
    · simp [loop]
  · by_cases atB : c = b
    · subst atB
      simp [atA]
    · simp [atA, atB]

/-- A new edge adds its two links, which were not listed before. -/
theorem consistent_addEdge_absent {g : GraphMap N E} {a b : N} (weight : E)
    (absent : g.edges.get? (edgeKey a b) = none) :
    Consistent (addEdgeNodes g.nodes a b) (g.edges.insert (edgeKey a b) weight) := by
  have unlisted : ∀ c x, s(c, x) = s(a, b) → x ∉ adjacency g.nodes c := by
    intro c x same listed
    rw [g.consistent.mem_adjacency_iff, (edgeKey_eq_iff c x a b).mpr same,
      IndexMap.mem_keys_iff, absent] at listed
    exact Bool.false_ne_true listed
  refine ⟨?_, ?_, ?_⟩
  · intro key member
    rcases (IndexMap.mem_keys_insert _ _ _ _).mp member with rfl | old
    · exact edgeKey_ordered a b
    · exact g.consistent.ordered key old
  · intro c x
    rw [mem_adjacency_addEdgeNodes, IndexMap.mem_keys_insert, g.consistent.mem_adjacency_iff,
      edgeKey_eq_iff, or_comm]
  · intro c
    rw [adjacency_addEdgeNodes]
    split_ifs with atA atB
    · subst atA
      exact (g.consistent.nodup c).append (List.nodup_singleton b)
        (by simpa using unlisted c b rfl)
    · subst atB
      exact (g.consistent.nodup c).append (List.nodup_singleton a)
        (by simpa using unlisted c a Sym2.eq_swap)
    · exact g.consistent.nodup c

/-- A present edge only has its weight replaced. -/
theorem consistent_addEdge_present {g : GraphMap N E} {a b : N} (weight : E) {old : E}
    (present : g.edges.get? (edgeKey a b) = some old) :
    Consistent g.nodes (g.edges.insert (edgeKey a b) weight) := by
  have sameKeys : ∀ key, key ∈ (g.edges.insert (edgeKey a b) weight).keys ↔ key ∈ g.edges.keys := by
    intro key
    rw [IndexMap.mem_keys_insert]
    constructor
    · rintro (rfl | old)
      · rw [IndexMap.mem_keys_iff, present]
        rfl
      · exact old
    · exact Or.inr
  refine ⟨?_, ?_, g.consistent.nodup⟩
  · intro key member
    exact g.consistent.ordered key ((sameKeys key).mp member)
  · intro c x
    rw [sameKeys]
    exact g.consistent.mem_adjacency_iff c x

/-- `GraphMap::add_edge`: a present edge gets the new weight; a new one is stored and its two
neighbour links are pushed. -/
def addEdge (g : GraphMap N E) (a b : N) (weight : E) : GraphMap N E :=
  match present : g.edges.get? (edgeKey a b) with
  | some _ => ⟨g.nodes, g.edges.insert (edgeKey a b) weight, consistent_addEdge_present weight present⟩
  | none => ⟨addEdgeNodes g.nodes a b, g.edges.insert (edgeKey a b) weight,
      consistent_addEdge_absent weight present⟩

theorem edges_addEdge (g : GraphMap N E) (a b : N) (weight : E) :
    (g.addEdge a b weight).edges = g.edges.insert (edgeKey a b) weight := by
  unfold addEdge
  split <;> rfl

theorem weight?_addEdge (g : GraphMap N E) (a b c d : N) (weight : E) :
    (g.addEdge a b weight).weight? c d = if s(a, b) = s(c, d) then some weight else g.weight? c d := by
  rw [weight?, edges_addEdge, IndexMap.get?_insert]
  by_cases same : s(a, b) = s(c, d)
  · rw [if_pos ((edgeKey_eq_iff a b c d).mpr same), if_pos same]
  · rw [if_neg (fun key => same ((edgeKey_eq_iff a b c d).mp key)), if_neg same]
    rfl

theorem edgeSet_addEdge (g : GraphMap N E) (a b : N) (weight : E) :
    (g.addEdge a b weight).edgeSet = insert s(a, b) g.edgeSet := by
  ext e
  induction e using Sym2.ind with
  | h c d =>
      rw [← weight?_isSome_iff, weight?_addEdge, Set.mem_insert_iff, ← weight?_isSome_iff]
      by_cases same : s(a, b) = s(c, d)
      · simp [same]
      · simp [same, Ne.symm same]

/-! ## Adding a list of edges -/

/-- `add_edge` of each edge in turn. -/
def addEdges (g : GraphMap N E) (edges : List (N × N × E)) : GraphMap N E :=
  edges.foldl (fun g edge => g.addEdge edge.1 edge.2.1 edge.2.2) g

theorem addEdges_append (g : GraphMap N E) (front back : List (N × N × E)) :
    g.addEdges (front ++ back) = (g.addEdges front).addEdges back :=
  List.foldl_append

theorem edges_addEdges (g : GraphMap N E) (edges : List (N × N × E)) :
    (g.addEdges edges).edges =
      g.edges.insertAll (edges.map fun edge => (edgeKey edge.1 edge.2.1, edge.2.2)) := by
  induction edges generalizing g with
  | nil => rfl
  | cons edge edges induction =>
      rw [addEdges, List.foldl_cons, ← addEdges, induction, edges_addEdge, List.map_cons]
      rfl

theorem edgeSet_addEdges (g : GraphMap N E) (edges : List (N × N × E)) :
    (g.addEdges edges).edgeSet = g.edgeSet ∪ {e | ∃ edge ∈ edges, e = s(edge.1, edge.2.1)} := by
  induction edges generalizing g with
  | nil => simp [addEdges]
  | cons edge edges induction =>
      rw [addEdges, List.foldl_cons, ← addEdges, induction, edgeSet_addEdge]
      ext e
      simp only [Set.mem_union, Set.mem_insert_iff, Set.mem_ofPred_eq, List.mem_cons,
        exists_eq_or_imp]
      tauto

/-- The weights of the edges added take the place of those the graph held. -/
theorem weight?_addEdges (g : GraphMap N E) (edges : List (N × N × E)) (a b : N) :
    (g.addEdges edges).weight? a b = ((empty.addEdges edges).weight? a b).or (g.weight? a b) := by
  rw [weight?, weight?, edges_addEdges, edges_addEdges, IndexMap.get?_insertAll]
  rfl

/-- Adding the edges of another graph: its weights take the place of those the graph held. -/
theorem weight?_addEdges_allEdges (g other : GraphMap N E) (a b : N) :
    (g.addEdges other.allEdges).weight? a b = (other.weight? a b).or (g.weight? a b) := by
  have rekeyed :
      (other.allEdges.map fun edge => (edgeKey edge.1 edge.2.1, edge.2.2)) = other.edges.entries := by
    rw [allEdges, List.map_map]
    conv_rhs => rw [← List.map_id other.edges.entries]
    apply List.map_congr_left
    intro entry member
    simp only [Function.comp_apply, id]
    rw [edgeKey_of_ordered (other.consistent.ordered entry.1 (List.mem_map_of_mem member))]
  rw [weight?, edges_addEdges, rekeyed, IndexMap.get?_insertAll_entries]
  rfl

/-! ## Removing a node -/

/-- `GraphMap::remove_single_edge` of an undirected graph: the first listing of `b` among the
neighbours of `a` is swap-removed. -/
def removeSingleEdge (nodes : IndexMap N (List N)) (a b : N) : IndexMap N (List N) :=
  nodes.modify a (IndexMap.swapRemoveFirst (· == b))

/-- One link of a removed node `n`: the link back from `succ` and the edge go.  petgraph keys
the edge by the link's direction, `edge_key(n, succ)` or `edge_key(succ, n)`, which are one key
in an undirected graph. -/
def removeLink (n : N) (state : IndexMap N (List N) × IndexMap (N × N) E) (succ : N) :
    IndexMap N (List N) × IndexMap (N × N) E :=
  (removeSingleEdge state.1 succ n, state.2.swapRemove (edgeKey n succ))

theorem adjacency_removeSingleEdge (nodes : IndexMap N (List N)) (a b c : N) :
    adjacency (removeSingleEdge nodes a b) c =
      if a = c then IndexMap.swapRemoveFirst (· == b) (adjacency nodes c) else adjacency nodes c := by
  unfold adjacency removeSingleEdge
  rw [IndexMap.get?_modify]
  split
  · cases nodes.get? c <;> rfl
  · rfl

theorem adjacency_swapRemove (nodes : IndexMap N (List N)) (n c : N) :
    adjacency (nodes.swapRemove n) c = if n = c then [] else adjacency nodes c := by
  unfold adjacency
  rw [IndexMap.get?_swapRemove]
  split <;> rfl

/-- After the links `succs` of `n` are removed, each of them lists `n` once fewer. -/
theorem adjacency_foldl_removeLink (n : N) {succs : List N} (nodup : succs.Nodup)
    (state : IndexMap N (List N) × IndexMap (N × N) E) (c : N) :
    adjacency (succs.foldl (removeLink n) state).1 c =
      if c ∈ succs then IndexMap.swapRemoveFirst (· == n) (adjacency state.1 c)
      else adjacency state.1 c := by
  induction succs generalizing state with
  | nil => rfl
  | cons succ succs induction =>
      obtain ⟨fresh, nodup⟩ := List.nodup_cons.mp nodup
      rw [List.foldl_cons, induction nodup, removeLink, adjacency_removeSingleEdge]
      by_cases same : succ = c
      · subst same
        simp [fresh]
      · by_cases later : c ∈ succs
        · simp [same, later]
        · simp [same, later, Ne.symm same]

/-- After the links `succs` of `n` are removed, the edges from `n` to them are gone. -/
theorem mem_keys_foldl_removeLink (n : N) (succs : List N)
    (state : IndexMap N (List N) × IndexMap (N × N) E) (key : N × N) :
    key ∈ (succs.foldl (removeLink n) state).2.keys ↔
      key ∈ state.2.keys ∧ ∀ succ ∈ succs, key ≠ edgeKey n succ := by
  induction succs generalizing state with
  | nil => simp
  | cons succ succs induction =>
      rw [List.foldl_cons, induction, removeLink, IndexMap.mem_keys_swapRemove]
      simp only [List.mem_cons, forall_eq_or_imp]
      tauto

theorem length_foldl_removeLink (n : N) {succs : List N} (nodup : succs.Nodup)
    (state : IndexMap N (List N) × IndexMap (N × N) E)
    (present : ∀ succ ∈ succs, edgeKey n succ ∈ state.2.keys) :
    (succs.foldl (removeLink n) state).2.entries.length = state.2.entries.length - succs.length := by
  induction succs generalizing state with
  | nil => rfl
  | cons succ succs induction =>
      obtain ⟨fresh, nodup⟩ := List.nodup_cons.mp nodup
      have stored := (IndexMap.mem_keys_iff _ _).mp (present succ List.mem_cons_self)
      have kept : ∀ other ∈ succs, edgeKey n other ∈ (removeLink n state succ).2.keys := by
        intro other member
        rw [removeLink, IndexMap.mem_keys_swapRemove]
        refine ⟨present other (List.mem_cons_of_mem succ member), fun same => fresh ?_⟩
        exact Sym2.congr_right.mp ((edgeKey_eq_iff n other n succ).mp same) ▸ member
      rw [List.foldl_cons, induction nodup _ kept, removeLink, IndexMap.length_swapRemove,
        if_pos stored, List.length_cons]
      omega

/-- Removing node `n` with links `links`: every link back to `n` and every edge of `n` go. -/
theorem consistent_removeNode {g : GraphMap N E} {n : N} {links : List N}
    (found : g.nodes.get? n = some links) :
    let removed := links.foldl (removeLink n) (g.nodes.swapRemove n, g.edges)
    Consistent removed.1 removed.2 := by
  intro removed
  have isLinks : adjacency g.nodes n = links := by simp [adjacency, found]
  have nodupLinks : links.Nodup := isLinks ▸ g.consistent.nodup n
  have keys : ∀ key, key ∈ removed.2.keys ↔ key ∈ g.edges.keys ∧ ∀ succ ∈ links, key ≠ edgeKey n succ :=
    mem_keys_foldl_removeLink n links _
  have adjacent : ∀ c, adjacency removed.1 c =
      if c ∈ links then IndexMap.swapRemoveFirst (· == n) (adjacency (g.nodes.swapRemove n) c)
      else adjacency (g.nodes.swapRemove n) c :=
    adjacency_foldl_removeLink n nodupLinks _
  refine ⟨?_, ?_, ?_⟩
  · intro key member
    exact g.consistent.ordered key ((keys key).mp member).1
  · intro c x
    rw [keys, adjacent, adjacency_swapRemove]
    by_cases atN : n = c
    · -- the removed node lists nothing, and each of its edges is one of its links
      subst atN
      have gone : ¬ (edgeKey n x ∈ g.edges.keys ∧ ∀ succ ∈ links, edgeKey n x ≠ edgeKey n succ) := by
        rintro ⟨stored, different⟩
        rw [← g.consistent.mem_adjacency_iff, isLinks] at stored
        exact different x stored rfl
      simp only [if_true, gone, iff_false]
      split <;> simp
    · -- another node loses its link to `n` exactly when it is one of the links of `n`
      have other : ∀ succ, edgeKey c x = edgeKey n succ ↔ c = succ ∧ x = n := by
        intro succ
        rw [edgeKey_eq_iff, Sym2.eq_iff]
        constructor
        · rintro (⟨same, -⟩ | ⟨same, back⟩)
          · exact absurd same.symm atN
          · exact ⟨same, back⟩
        · rintro ⟨same, back⟩
          exact Or.inr ⟨same, back⟩
      simp only [if_neg atN, ← g.consistent.mem_adjacency_iff, Ne, other]
      split
      · rename_i linked
        rw [IndexMap.mem_swapRemoveFirst_iff (g.consistent.nodup c)]
        constructor
        · rintro ⟨listed, different⟩
          exact ⟨listed, fun succ _ same => different same.2⟩
        · rintro ⟨listed, different⟩
          exact ⟨listed, fun back => different c linked ⟨rfl, back⟩⟩
      · rename_i unlinked
        constructor
        · intro listed
          exact ⟨listed, fun succ member same => unlinked (same.1 ▸ member)⟩
        · exact And.left
  · intro c
    rw [adjacent, adjacency_swapRemove]
    split_ifs
    · simp
    · exact IndexMap.nodup_swapRemoveFirst (g.consistent.nodup c) n
    · exact List.nodup_nil
    · exact g.consistent.nodup c

/-- `GraphMap::remove_node`: the node is swap-removed, then for each of its links the link back
and the edge are swap-removed. -/
def removeNode (g : GraphMap N E) (n : N) : GraphMap N E :=
  match found : g.nodes.get? n with
  | none => g
  | some links =>
      let removed := links.foldl (removeLink n) (g.nodes.swapRemove n, g.edges)
      ⟨removed.1, removed.2, consistent_removeNode found⟩

/-- A node that is not stored has no edges. -/
theorem not_mem_edgeSet_of_absent {g : GraphMap N E} {n : N} (absent : g.nodes.get? n = none)
    (b : N) : s(n, b) ∉ g.edgeSet := by
  rw [← mem_neighbors_iff]
  simp [neighbors, adjacency, absent]

theorem edgeSet_removeNode (g : GraphMap N E) (n : N) :
    (g.removeNode n).edgeSet = {e ∈ g.edgeSet | n ∉ e} := by
  ext e
  induction e using Sym2.ind with
  | h a b =>
      rw [Set.mem_sep_iff, Sym2.mem_iff, not_or]
      unfold removeNode
      split
      · rename_i absent
        constructor
        · intro stored
          refine ⟨stored, ?_, ?_⟩
          · rintro rfl
            exact not_mem_edgeSet_of_absent absent b stored
          · rintro rfl
            exact not_mem_edgeSet_of_absent absent a (Sym2.eq_swap ▸ stored)
        · exact And.left
      · rename_i links found
        have isLinks : g.neighbors n = links := by simp [neighbors, adjacency, found]
        rw [mk_mem_edgeSet_iff, mk_mem_edgeSet_iff]
        simp only
        rw [mem_keys_foldl_removeLink]
        simp only [Ne, edgeKey_eq_iff]
        constructor
        · rintro ⟨stored, different⟩
          refine ⟨stored, ?_, ?_⟩
          · rintro rfl
            have listed : b ∈ links := by
              rw [← isLinks, mem_neighbors_iff, mk_mem_edgeSet_iff]
              exact stored
            exact different b listed rfl
          · rintro rfl
            have listed : a ∈ links := by
              rw [← isLinks, mem_neighbors_iff, Sym2.eq_swap, mk_mem_edgeSet_iff]
              exact stored
            exact different a listed Sym2.eq_swap
        · rintro ⟨stored, notA, notB⟩
          refine ⟨stored, fun succ _ same => ?_⟩
          have touches : n ∈ s(a, b) := same ▸ Sym2.mem_mk_left n succ
          rcases Sym2.mem_iff.mp touches with rfl | rfl
          · exact notA rfl
          · exact notB rfl

/-- Removing a node removes as many edges as it has neighbours. -/
theorem edgeCount_removeNode (g : GraphMap N E) (n : N) :
    (g.removeNode n).edgeCount = g.edgeCount - (g.neighbors n).length := by
  unfold removeNode
  split
  · rename_i absent
    simp [neighbors, adjacency, absent]
  · rename_i links found
    have isLinks : g.neighbors n = links := by simp [neighbors, adjacency, found]
    have present : ∀ succ ∈ links, edgeKey n succ ∈ g.edges.keys := by
      intro succ member
      rw [← isLinks, neighbors, g.consistent.mem_adjacency_iff] at member
      exact member
    rw [isLinks, edgeCount]
    exact length_foldl_removeLink n (isLinks ▸ g.nodup_neighbors n) _ present

end GraphMap
