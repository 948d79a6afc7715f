import GraphNode.Library.KeyedList

/-!
# The query block cache

`graphql/src/execution/cache.rs`.  `QueryBlockCache` keeps, for each network, a deque of
`CacheByBlock`s with the newest block at the front, each holding query results at one block
within a weight budget.  `insert` gives a result to the block's cache when there is one; else,
for a block at least as new as the front, it pushes a new block cache to the front, after
dropping the back one when the deque holds `max_blocks`; a result for an older block is not
cached.  `get` looks a result up by network, block and query hash.  The hit counts, the insert
times and the shard only feed the statistics logged when a block is dropped, and are left out.

A run is a sequence of calls on the cache (`run`).  Over every run from an empty cache, each
deque stays bounded, with distinct blocks in non-increasing order of number and every block
cache within its budget (`WellFormed`), and every result `get` finds was accepted by an earlier
`insert` of the same network, block and key (`Sound`).
-/

namespace GraphNode

/-- `BlockPtr`: a block's hash and number. -/
structure BlockPtr where
  hash : List UInt8
  number : Int
  deriving DecidableEq, Repr

variable {K R : Type} {cmp : K → K → Ordering} [Std.TransCmp cmp]

/-- `CacheByBlock`: the results cached at one block, by query hash, within a weight budget. -/
structure CacheByBlock (K R : Type) (cmp : K → K → Ordering) [Std.TransCmp cmp] where
  block : BlockPtr
  maxWeight : Nat
  weight : Nat
  cache : Std.ExtTreeMap K R cmp

namespace CacheByBlock

variable (hasErrors : R → Bool)

/-- `CacheByBlock::new`. -/
def new (block : BlockPtr) (maxWeight : Nat) : CacheByBlock K R cmp :=
  ⟨block, maxWeight, 0, ∅⟩

/-- `CacheByBlock::get`. -/
def get (cacheByBlock : CacheByBlock K R cmp) (key : K) : Option R :=
  cacheByBlock.cache[key]?

/-- `CacheByBlock::insert`: asserts that the result has no errors, and stores it, answering
`true`, when its weight fits in what is left of the budget. -/
def insert (cacheByBlock : CacheByBlock K R cmp) (key : K) (value : R) (weight : Nat) :
    Option (CacheByBlock K R cmp × Bool) :=
  if hasErrors value then none
  else if cacheByBlock.weight + weight ≤ cacheByBlock.maxWeight then
    some ({ cacheByBlock with
      weight := cacheByBlock.weight + weight
      cache := cacheByBlock.cache.insert key value }, true)
  else some (cacheByBlock, false)

variable {hasErrors}
variable {cacheByBlock next : CacheByBlock K R cmp} {key : K} {value : R} {weight : Nat}
  {inserted : Bool}

/-- What `insert` can do: store the result within the budget, or change nothing. -/
theorem insert_cases (inserts : cacheByBlock.insert hasErrors key value weight = some (next, inserted)) :
    (inserted = true ∧ cacheByBlock.weight + weight ≤ cacheByBlock.maxWeight ∧
        next = { cacheByBlock with
          weight := cacheByBlock.weight + weight
          cache := cacheByBlock.cache.insert key value }) ∨
      (inserted = false ∧ next = cacheByBlock) := by
  unfold insert at inserts
  split at inserts
  · cases inserts
  · split at inserts
    · cases inserts
      exact Or.inl ⟨rfl, by assumption, rfl⟩
    · cases inserts
      exact Or.inr ⟨rfl, rfl⟩

theorem block_of_insert (inserts : cacheByBlock.insert hasErrors key value weight = some (next, inserted)) :
    next.block = cacheByBlock.block ∧ next.maxWeight = cacheByBlock.maxWeight := by
  rcases insert_cases inserts with ⟨-, -, rfl⟩ | ⟨-, rfl⟩ <;> exact ⟨rfl, rfl⟩

/-- `insert` keeps the cache within its budget. -/
theorem weight_le_of_insert (inserts : cacheByBlock.insert hasErrors key value weight = some (next, inserted))
    (within : cacheByBlock.weight ≤ cacheByBlock.maxWeight) : next.weight ≤ next.maxWeight := by
  rcases insert_cases inserts with ⟨-, fits, rfl⟩ | ⟨-, rfl⟩
  · exact fits
  · exact within

/-- A result found after `insert` was found before, or is the one this `insert` accepted. -/
theorem get_of_insert [Std.LawfulEqCmp cmp]
    (inserts : cacheByBlock.insert hasErrors key value weight = some (next, inserted)) {probe : K}
    {result : R} (found : next.get probe = some result) :
    cacheByBlock.get probe = some result ∨ (inserted = true ∧ probe = key ∧ result = value) := by
  rcases insert_cases inserts with ⟨accepted, -, rfl⟩ | ⟨-, rfl⟩
  · simp only [get, Std.ExtTreeMap.getElem?_insert] at found
    by_cases same : key = probe
    · rw [if_pos (Std.LawfulEqCmp.compare_eq_iff_eq.mpr same), Option.some.injEq] at found
      exact Or.inr ⟨accepted, same.symm, found.symm⟩
    · rw [if_neg (mt Std.LawfulEqCmp.compare_eq_iff_eq.mp same)] at found
      exact Or.inl found
  · exact Or.inl found

theorem insert_isSome (clean : hasErrors value = false) :
    (cacheByBlock.insert hasErrors key value weight).isSome := by
  unfold insert
  rw [if_neg (by simp [clean])]
  split <;> rfl

end CacheByBlock

/-- `QueryBlockCache`: a deque of block caches for each network, the newest at the front. -/
structure QueryBlockCache (K R : Type) (cmp : K → K → Ordering) [Std.TransCmp cmp] where
  cacheByNetwork : List (String × List (CacheByBlock K R cmp))
  maxWeight : Nat
  maxBlocks : Nat

namespace QueryBlockCache

variable (hasErrors : R → Bool)

/-- `QueryBlockCache::new`. -/
def new (maxBlocks maxWeight : Nat) : QueryBlockCache K R cmp :=
  ⟨[], maxWeight, maxBlocks⟩

/-- The part of `insert` on one network's deque: the block's cache takes the result if there is
one; a block older than the front is not cached; else a new block cache goes to the front,
after the back one is dropped when the deque is full. -/
def insertBlock (maxWeight maxBlocks : Nat) (blocks : List (CacheByBlock K R cmp))
    (blockPtr : BlockPtr) (key : K) (result : R) (weight : Nat) :
    Option (List (CacheByBlock K R cmp) × Bool) :=
  match KeyedList.find CacheByBlock.block blocks blockPtr with
  | some cacheByBlock => do
      let (cacheByBlock, inserted) ← cacheByBlock.insert hasErrors key result weight
      pure (KeyedList.modifyFirst CacheByBlock.block blocks blockPtr fun _ => cacheByBlock, inserted)
  | none =>
      if blocks.head?.any fun highest => blockPtr.number < highest.block.number then
        some (blocks, false)
      else do
        let blocks := if blocks.length = maxBlocks then blocks.dropLast else blocks
        let (cacheByBlock, inserted) ←
          (CacheByBlock.new blockPtr maxWeight).insert hasErrors key result weight
        pure (cacheByBlock :: blocks, inserted)

/-- `QueryBlockCache::insert`: nothing is cached when `max_blocks` is 0; a network seen for the
first time gets an empty deque at the end. -/
def insert (cache : QueryBlockCache K R cmp) (network : String) (blockPtr : BlockPtr) (key : K)
    (result : R) (weight : Nat) : Option (QueryBlockCache K R cmp × Bool) :=
  if cache.maxBlocks = 0 then some (cache, false)
  else
    match KeyedList.find Prod.fst cache.cacheByNetwork network with
    | some (_, blocks) => do
        let (blocks, inserted) ←
          insertBlock hasErrors cache.maxWeight cache.maxBlocks blocks blockPtr key result weight
        pure ({ cache with
          cacheByNetwork :=
            KeyedList.modifyFirst Prod.fst cache.cacheByNetwork network fun entry =>
              (entry.1, blocks) }, inserted)
    | none => do
        let (blocks, inserted) ←
          insertBlock hasErrors cache.maxWeight cache.maxBlocks [] blockPtr key result weight
        pure ({ cache with cacheByNetwork := cache.cacheByNetwork ++ [(network, blocks)] },
          inserted)

/-- `QueryBlockCache::get`: the network's deque, then the first block cache of the block. -/
def get (cache : QueryBlockCache K R cmp) (network : String) (blockPtr : BlockPtr) (key : K) :
    Option R := do
  let entry ← KeyedList.find Prod.fst cache.cacheByNetwork network
  let cacheByBlock ← KeyedList.find CacheByBlock.block entry.2 blockPtr
  cacheByBlock.get key

/-- A call made on the cache. -/
inductive Call (K R : Type) where
  | insert (network : String) (blockPtr : BlockPtr) (key : K) (result : R) (weight : Nat)
  | get (network : String) (blockPtr : BlockPtr) (key : K)

/-- What a call answers. -/
inductive Response (R : Type) where
  | inserted (accepted : Bool)
  | found (result : Option R)

/-- One call; an insert panics when its result has errors. -/
def step (cache : QueryBlockCache K R cmp) : Call K R → Option (QueryBlockCache K R cmp × Response R)
  | .insert network blockPtr key result weight => do
      let (cache, inserted) ← cache.insert hasErrors network blockPtr key result weight
      pure (cache, .inserted inserted)
  | .get network blockPtr key => some (cache, .found (cache.get network blockPtr key))

/-- Calls made one after the other, with what each answers. -/
def run (cache : QueryBlockCache K R cmp) :
    List (Call K R) → Option (QueryBlockCache K R cmp × List (Response R))
  | [] => some (cache, [])
  | call :: calls => do
      let (cache, response) ← cache.step hasErrors call
      let (cache, responses) ← run cache calls
      pure (cache, response :: responses)

/-! ## What one insert can do -/

variable {hasErrors}
variable {maxWeight maxBlocks : Nat} {blocks next : List (CacheByBlock K R cmp)}
  {blockPtr : BlockPtr} {key : K} {result : R} {weight : Nat} {inserted : Bool}

/-- What `insertBlock` can do: add to the block's cache, refuse a block older than the front, or
push a new block cache. -/
theorem insertBlock_cases
    (inserts : insertBlock hasErrors maxWeight maxBlocks blocks blockPtr key result weight =
      some (next, inserted)) :
    (∃ found updated, KeyedList.find CacheByBlock.block blocks blockPtr = some found ∧
        found.insert hasErrors key result weight = some (updated, inserted) ∧
        next = KeyedList.modifyFirst CacheByBlock.block blocks blockPtr fun _ => updated) ∨
      (KeyedList.find CacheByBlock.block blocks blockPtr = none ∧
        (∃ highest, blocks.head? = some highest ∧ blockPtr.number < highest.block.number) ∧
        next = blocks ∧ inserted = false) ∨
      (KeyedList.find CacheByBlock.block blocks blockPtr = none ∧
        (∀ highest, blocks.head? = some highest → highest.block.number ≤ blockPtr.number) ∧
        ∃ created, (CacheByBlock.new blockPtr maxWeight).insert hasErrors key result weight =
            some (created, inserted) ∧
          next = created :: if blocks.length = maxBlocks then blocks.dropLast else blocks) := by
  unfold insertBlock at inserts
  split at inserts
  · rename_i found isFound
    simp only [bind, Option.bind_eq_some_iff] at inserts
    obtain ⟨⟨updated, accepted⟩, updates, answered⟩ := inserts
    simp only [pure, Option.some.injEq, Prod.mk.injEq] at answered
    obtain ⟨rfl, rfl⟩ := answered
    exact Or.inl ⟨found, updated, isFound, updates, rfl⟩
  · rename_i absent
    split at inserts
    · rename_i older
      obtain ⟨highest, isHighest, below⟩ := (Option.any_eq_true _ _).mp older
      simp only [Option.some.injEq, Prod.mk.injEq] at inserts
      obtain ⟨rfl, rfl⟩ := inserts
      exact Or.inr (Or.inl ⟨absent, ⟨highest, isHighest, by simpa using below⟩, rfl, rfl⟩)
    · rename_i notOlder
      have newer : ∀ highest, blocks.head? = some highest →
          highest.block.number ≤ blockPtr.number := fun highest isHighest => by
        have := (Option.any_eq_false _ _).mp (Bool.eq_false_iff.mpr notOlder) highest isHighest
        simpa using this
      simp only [bind, Option.bind_eq_some_iff] at inserts
      obtain ⟨⟨created, accepted⟩, creates, answered⟩ := inserts
      simp only [pure, Option.some.injEq, Prod.mk.injEq] at answered
      obtain ⟨rfl, rfl⟩ := answered
      exact Or.inr (Or.inr ⟨absent, newer, created, creates, rfl⟩)

variable {cache final : QueryBlockCache K R cmp} {network : String}

/-- What `insert` can do: nothing when `max_blocks` is 0, else `insertBlock` on the network's
deque, or on a new empty deque pushed for a network seen for the first time. -/
theorem insert_cases
    (inserts : cache.insert hasErrors network blockPtr key result weight = some (final, inserted)) :
    (cache.maxBlocks = 0 ∧ final = cache ∧ inserted = false) ∨
      (0 < cache.maxBlocks ∧ ∃ entry blocks, KeyedList.find Prod.fst cache.cacheByNetwork network = some entry ∧
        insertBlock hasErrors cache.maxWeight cache.maxBlocks entry.2 blockPtr key result weight =
          some (blocks, inserted) ∧
        final = { cache with
          cacheByNetwork := KeyedList.modifyFirst Prod.fst cache.cacheByNetwork network
            fun entry => (entry.1, blocks) }) ∨
      (0 < cache.maxBlocks ∧ KeyedList.find Prod.fst cache.cacheByNetwork network = none ∧
        ∃ blocks, insertBlock hasErrors cache.maxWeight cache.maxBlocks [] blockPtr key result weight =
          some (blocks, inserted) ∧
        final = { cache with cacheByNetwork := cache.cacheByNetwork ++ [(network, blocks)] }) := by
  unfold insert at inserts
  split at inserts
  · rename_i disabled
    simp only [Option.some.injEq, Prod.mk.injEq] at inserts
    exact Or.inl ⟨disabled, inserts.1.symm, inserts.2.symm⟩
  · rename_i enabled
    have positive : 0 < cache.maxBlocks := Nat.pos_of_ne_zero enabled
    split at inserts
    · rename_i entry isFound
      simp only [bind, Option.bind_eq_some_iff] at inserts
      obtain ⟨⟨blocks, accepted⟩, updates, answered⟩ := inserts
      simp only [pure, Option.some.injEq, Prod.mk.injEq] at answered
      obtain ⟨rfl, rfl⟩ := answered
      exact Or.inr (Or.inl ⟨positive, _, blocks, isFound, updates, rfl⟩)
    · rename_i absent
      simp only [bind, Option.bind_eq_some_iff] at inserts
      obtain ⟨⟨blocks, accepted⟩, updates, answered⟩ := inserts
      simp only [pure, Option.some.injEq, Prod.mk.injEq] at answered
      obtain ⟨rfl, rfl⟩ := answered
      exact Or.inr (Or.inr ⟨positive, absent, blocks, updates, rfl⟩)

/-- `insert` leaves the budget and the number of blocks as they are. -/
theorem config_of_insert
    (inserts : cache.insert hasErrors network blockPtr key result weight = some (final, inserted)) :
    final.maxWeight = cache.maxWeight ∧ final.maxBlocks = cache.maxBlocks := by
  rcases insert_cases inserts with ⟨-, rfl, -⟩ | ⟨-, -, -, -, -, rfl⟩ | ⟨-, -, -, -, rfl⟩ <;>
    exact ⟨rfl, rfl⟩

/-! ## The invariant -/

/-- A deque holds at most `maxBlocks` block caches, of distinct blocks whose numbers do not
increase from the front, each within the budget `maxWeight`. -/
structure DequeWellFormed (maxWeight maxBlocks : Nat) (blocks : List (CacheByBlock K R cmp)) :
    Prop where
  bounded : blocks.length ≤ maxBlocks
  distinct : KeyedList.Distinct CacheByBlock.block blocks
  ordered : (blocks.map CacheByBlock.block).Pairwise fun newer older => older.number ≤ newer.number
  budgets : ∀ cacheByBlock ∈ blocks,
    cacheByBlock.maxWeight = maxWeight ∧ cacheByBlock.weight ≤ maxWeight

/-- The invariant of reachable caches: one deque for each network, each well formed. -/
structure WellFormed (cache : QueryBlockCache K R cmp) : Prop where
  networks : KeyedList.Distinct Prod.fst cache.cacheByNetwork
  deques : ∀ entry ∈ cache.cacheByNetwork, DequeWellFormed cache.maxWeight cache.maxBlocks entry.2

theorem DequeWellFormed.nil : DequeWellFormed maxWeight maxBlocks ([] : List (CacheByBlock K R cmp)) :=
  ⟨Nat.zero_le _, List.nodup_nil, List.Pairwise.nil, fun _ member => by simp at member⟩

/-- The front of a well-formed deque holds its newest block. -/
theorem DequeWellFormed.front_newest (wellFormed : DequeWellFormed maxWeight maxBlocks blocks)
    {highest : CacheByBlock K R cmp} (isHighest : blocks.head? = some highest) :
    ∀ cacheByBlock ∈ blocks, cacheByBlock.block.number ≤ highest.block.number := by
  obtain ⟨rest, rfl⟩ : ∃ rest, blocks = highest :: rest := by
    cases blocks with
    | nil => simp at isHighest
    | cons head rest => exact ⟨rest, by simpa using isHighest⟩
  have below := (List.pairwise_cons.mp (List.map_cons ▸ wellFormed.ordered)).1
  intro cacheByBlock member
  rcases List.mem_cons.mp member with rfl | member
  · exact le_refl _
  · exact below _ (List.mem_map_of_mem member)

/-- Giving the result to the cache of its block keeps the deque well formed. -/
theorem DequeWellFormed.modifyFirst (wellFormed : DequeWellFormed maxWeight maxBlocks blocks)
    {found updated : CacheByBlock K R cmp}
    (isFound : KeyedList.find CacheByBlock.block blocks blockPtr = some found)
    (updates : found.insert hasErrors key result weight = some (updated, inserted)) :
    DequeWellFormed maxWeight maxBlocks
      (KeyedList.modifyFirst CacheByBlock.block blocks blockPtr fun _ => updated) := by
  have sameBlock := CacheByBlock.block_of_insert updates
  have keeps : ∀ cacheByBlock : CacheByBlock K R cmp, cacheByBlock.block = blockPtr →
      updated.block = blockPtr := fun _ _ => sameBlock.1.trans (KeyedList.key_of_find isFound)
  have sameKeys := KeyedList.map_key_modifyFirst keeps blocks
  refine ⟨?_, ?_, ?_, ?_⟩
  · rw [KeyedList.length_modifyFirst]
    exact wellFormed.bounded
  · unfold KeyedList.Distinct
    rw [sameKeys]
    exact wellFormed.distinct
  · rw [sameKeys]
    exact wellFormed.ordered
  · intro cacheByBlock member
    rcases KeyedList.mem_modifyFirst member with member | ⟨found', isFound', rfl⟩
    · exact wellFormed.budgets cacheByBlock member
    · -- the edited cache is the found one after its insert
      rw [isFound, Option.some.injEq] at isFound'
      subst isFound'
      have budget := wellFormed.budgets found (KeyedList.mem_of_find isFound)
      have within := CacheByBlock.weight_le_of_insert updates (budget.2.trans_eq budget.1.symm)
      exact ⟨sameBlock.2.trans budget.1, within.trans_eq (sameBlock.2.trans budget.1)⟩

/-- Pushing a new block cache, no older than the front, keeps the deque well formed. -/
theorem DequeWellFormed.push (wellFormed : DequeWellFormed maxWeight maxBlocks blocks)
    (positive : 0 < maxBlocks) (absent : KeyedList.find CacheByBlock.block blocks blockPtr = none)
    (newer : ∀ highest, blocks.head? = some highest → highest.block.number ≤ blockPtr.number)
    {created : CacheByBlock K R cmp}
    (creates : (CacheByBlock.new blockPtr maxWeight).insert hasErrors key result weight =
      some (created, inserted)) :
    DequeWellFormed maxWeight maxBlocks
      (created :: if blocks.length = maxBlocks then blocks.dropLast else blocks) := by
  have sameBlock := CacheByBlock.block_of_insert creates
  have within := CacheByBlock.weight_le_of_insert creates (Nat.zero_le _)
  have kept : (if blocks.length = maxBlocks then blocks.dropLast else blocks).Sublist blocks := by
    split
    · exact List.dropLast_sublist blocks
    · exact List.Sublist.refl blocks
  have room : (if blocks.length = maxBlocks then blocks.dropLast else blocks).length < maxBlocks := by
    have bounded := wellFormed.bounded
    split
    · rw [List.length_dropLast]
      omega
    · omega
  have older : ∀ cacheByBlock ∈ blocks, cacheByBlock.block.number ≤ blockPtr.number := by
    intro cacheByBlock member
    cases isHighest : blocks.head? with
    | none => simp_all
    | some highest =>
        exact (wellFormed.front_newest isHighest cacheByBlock member).trans (newer highest isHighest)
  refine ⟨?_, ?_, ?_, ?_⟩
  · rw [List.length_cons]
    omega
  · unfold KeyedList.Distinct
    rw [List.map_cons, List.nodup_cons]
    refine ⟨fun member => ?_, (wellFormed.distinct.sublist (kept.map _))⟩
    obtain ⟨cacheByBlock, member, same⟩ := List.mem_map.mp member
    exact KeyedList.find_eq_none.mp absent cacheByBlock (kept.subset member)
      (same.trans sameBlock.1)
  · rw [List.map_cons, List.pairwise_cons]
    refine ⟨fun block member => ?_, wellFormed.ordered.sublist (kept.map _)⟩
    obtain ⟨cacheByBlock, keptMember, rfl⟩ := List.mem_map.mp member
    rw [sameBlock.1]
    exact older cacheByBlock (kept.subset keptMember)
  · intro cacheByBlock member
    rcases List.mem_cons.mp member with rfl | member
    · exact ⟨sameBlock.2, within.trans_eq sameBlock.2⟩
    · exact wellFormed.budgets cacheByBlock (kept.subset member)

/-- The step lemma of a deque: `insertBlock` keeps it well formed. -/
theorem DequeWellFormed.insertBlock (wellFormed : DequeWellFormed maxWeight maxBlocks blocks)
    (positive : 0 < maxBlocks)
    (inserts : insertBlock hasErrors maxWeight maxBlocks blocks blockPtr key result weight =
      some (next, inserted)) :
    DequeWellFormed maxWeight maxBlocks next := by
  rcases insertBlock_cases inserts with
    ⟨found, updated, isFound, updates, rfl⟩ | ⟨-, -, rfl, -⟩ | ⟨absent, newer, created, creates, rfl⟩
  · exact wellFormed.modifyFirst isFound updates
  · exact wellFormed
  · exact wellFormed.push positive absent newer creates

/-- The step lemma of the cache: `insert` keeps it well formed. -/
theorem WellFormed.insert (wellFormed : cache.WellFormed)
    (inserts : cache.insert hasErrors network blockPtr key result weight = some (final, inserted)) :
    final.WellFormed := by
  rcases insert_cases inserts with
    ⟨-, rfl, -⟩ | ⟨positive, entry, blocks, isFound, updates, rfl⟩ |
      ⟨positive, absent, blocks, updates, rfl⟩
  · exact wellFormed
  · have keeps : ∀ item : String × List (CacheByBlock K R cmp), item.1 = network →
        (item.1, blocks).1 = network := fun _ same => same
    refine ⟨?_, fun item member => ?_⟩
    · unfold KeyedList.Distinct
      rw [KeyedList.map_key_modifyFirst keeps]
      exact wellFormed.networks
    · rcases KeyedList.mem_modifyFirst member with member | ⟨found, isFound', rfl⟩
      · exact wellFormed.deques item member
      · rw [isFound, Option.some.injEq] at isFound'
        subst isFound'
        exact (wellFormed.deques entry (KeyedList.mem_of_find isFound)).insertBlock positive updates
  · refine ⟨KeyedList.distinct_append_fresh wellFormed.networks absent, fun item member => ?_⟩
    rcases List.mem_append.mp member with member | member
    · exact wellFormed.deques item member
    · rw [List.mem_singleton.mp member]
      exact DequeWellFormed.nil.insertBlock positive updates

/-! ## An insert for an older block -/

/-- A block older than the front that no cache of the deque has is refused. -/
theorem insertBlock_of_older (absent : KeyedList.find CacheByBlock.block blocks blockPtr = none)
    {highest : CacheByBlock K R cmp} (isHighest : blocks.head? = some highest)
    (older : blockPtr.number < highest.block.number) :
    insertBlock hasErrors maxWeight maxBlocks blocks blockPtr key result weight =
      some (blocks, false) := by
  unfold insertBlock
  rw [absent, if_pos ((Option.any_eq_true _ _).mpr ⟨highest, isHighest, by simpa using older⟩)]

/-- In a well-formed cache, an insert for a block older than one the network has cached, and
not cached itself, answers `false` and changes nothing. -/
theorem insert_of_older (wellFormed : cache.WellFormed) {blocks : List (CacheByBlock K R cmp)}
    (member : (network, blocks) ∈ cache.cacheByNetwork)
    (older : ∃ cached ∈ blocks, blockPtr.number < cached.block.number)
    (absent : ∀ cached ∈ blocks, cached.block ≠ blockPtr) :
    cache.insert hasErrors network blockPtr key result weight = some (cache, false) := by
  obtain ⟨cached, cachedMember, below⟩ := older
  obtain ⟨highest, isHighest⟩ : ∃ highest, blocks.head? = some highest := by
    cases blocks with
    | nil => simp at cachedMember
    | cons head rest => exact ⟨head, rfl⟩
  have deque := wellFormed.deques _ member
  have belowFront := lt_of_lt_of_le below (deque.front_newest isHighest cached cachedMember)
  have isFound : KeyedList.find Prod.fst cache.cacheByNetwork network = some (network, blocks) :=
    KeyedList.find_of_mem wellFormed.networks member
  have refused : insertBlock hasErrors cache.maxWeight cache.maxBlocks blocks blockPtr key result weight =
      some (blocks, false) :=
    insertBlock_of_older (KeyedList.find_eq_none.mpr absent) isHighest belowFront
  unfold insert
  split
  · rfl
  · rw [isFound]
    simp only [refused, bind, Option.bind_some, pure]
    rw [KeyedList.modifyFirst_of_find isFound rfl]

/-! ## What `get` finds -/

theorem get_eq_some {probe : String} {probeBlock : BlockPtr} {probeKey : K} {found : R} :
    cache.get probe probeBlock probeKey = some found ↔
      ∃ entry cacheByBlock, KeyedList.find Prod.fst cache.cacheByNetwork probe = some entry ∧
        KeyedList.find CacheByBlock.block entry.2 probeBlock = some cacheByBlock ∧
        cacheByBlock.get probeKey = some found := by
  simp only [get, bind, Option.bind_eq_some_iff]
  constructor
  · rintro ⟨entry, isEntry, cacheByBlock, isFound, gets⟩
    exact ⟨entry, cacheByBlock, isEntry, isFound, gets⟩
  · rintro ⟨entry, cacheByBlock, isEntry, isFound, gets⟩
    exact ⟨entry, isEntry, cacheByBlock, isFound, gets⟩

section get

variable [Std.LawfulEqCmp cmp]

/-- A result found in a deque after `insertBlock` was found there before, or is the one this
insert accepted. -/
theorem get_of_insertBlock
    (inserts : insertBlock hasErrors maxWeight maxBlocks blocks blockPtr key result weight =
      some (next, inserted))
    {probeBlock : BlockPtr} {probeKey : K} {found : R} {cacheByBlock : CacheByBlock K R cmp}
    (isFound : KeyedList.find CacheByBlock.block next probeBlock = some cacheByBlock)
    (gets : cacheByBlock.get probeKey = some found) :
    (∃ before, KeyedList.find CacheByBlock.block blocks probeBlock = some before ∧
        before.get probeKey = some found) ∨
      (inserted = true ∧ probeBlock = blockPtr ∧ probeKey = key ∧ found = result) := by
  rcases insertBlock_cases inserts with
    ⟨edited, updated, isEdited, updates, rfl⟩ | ⟨-, -, rfl, -⟩ | ⟨absent, -, created, creates, rfl⟩
  · have keeps : ∀ item : CacheByBlock K R cmp, item.block = blockPtr → updated.block = blockPtr :=
      fun _ _ => (CacheByBlock.block_of_insert updates).1.trans (KeyedList.key_of_find isEdited)
    rw [KeyedList.find_modifyFirst keeps] at isFound
    by_cases same : blockPtr = probeBlock
    · -- the block's own cache: the result is its insert's
      rw [if_pos same, isEdited, Option.map_some, Option.some.injEq] at isFound
      subst isFound
      rcases CacheByBlock.get_of_insert updates gets with before | ⟨accepted, sameKey, sameResult⟩
      · exact Or.inl ⟨edited, same ▸ isEdited, before⟩
      · exact Or.inr ⟨accepted, same.symm, sameKey, sameResult⟩
    · rw [if_neg same] at isFound
      exact Or.inl ⟨cacheByBlock, isFound, gets⟩
  · exact Or.inl ⟨cacheByBlock, isFound, gets⟩
  · rw [KeyedList.find_cons] at isFound
    have sameBlock := (CacheByBlock.block_of_insert creates).1
    by_cases same : created.block = probeBlock
    · -- the new block cache holds only what its insert accepted
      rw [if_pos same, Option.some.injEq] at isFound
      subst isFound
      rcases CacheByBlock.get_of_insert creates gets with before | ⟨accepted, sameKey, sameResult⟩
      · simp [CacheByBlock.get, CacheByBlock.new] at before
      · exact Or.inr ⟨accepted, same.symm.trans sameBlock, sameKey, sameResult⟩
    · rw [if_neg same] at isFound
      refine Or.inl ⟨cacheByBlock, ?_, gets⟩
      split at isFound
      · exact KeyedList.find_of_find_dropLast isFound
      · exact isFound

/-- A result found after `insert` was found before, or is the one this insert accepted. -/
theorem get_of_insert
    (inserts : cache.insert hasErrors network blockPtr key result weight = some (final, inserted))
    {probe : String} {probeBlock : BlockPtr} {probeKey : K} {found : R}
    (gets : final.get probe probeBlock probeKey = some found) :
    cache.get probe probeBlock probeKey = some found ∨
      (inserted = true ∧ probe = network ∧ probeBlock = blockPtr ∧ probeKey = key ∧
        found = result) := by
  obtain ⟨entry, cacheByBlock, isEntry, isFound, getsFound⟩ := get_eq_some.mp gets
  rcases insert_cases inserts with
    ⟨-, rfl, -⟩ | ⟨-, edited, blocks, isEdited, updates, rfl⟩ | ⟨-, absent, blocks, updates, rfl⟩
  · exact Or.inl gets
  · have keeps : ∀ item : String × List (CacheByBlock K R cmp), item.1 = network →
        (item.1, blocks).1 = network := fun _ same => same
    simp only at isEntry
    rw [KeyedList.find_modifyFirst keeps] at isEntry
    by_cases same : network = probe
    · -- the network's deque, after `insertBlock`
      rw [if_pos same, isEdited, Option.map_some, Option.some.injEq] at isEntry
      subst isEntry
      rcases get_of_insertBlock updates isFound getsFound with
        ⟨before, isBefore, getsBefore⟩ | ⟨accepted, sameBlock, sameKey, sameResult⟩
      · exact Or.inl (get_eq_some.mpr ⟨edited, before, same ▸ isEdited, isBefore, getsBefore⟩)
      · exact Or.inr ⟨accepted, same.symm, sameBlock, sameKey, sameResult⟩
    · rw [if_neg same] at isEntry
      exact Or.inl (get_eq_some.mpr ⟨entry, cacheByBlock, isEntry, isFound, getsFound⟩)
  · simp only at isEntry
    rw [KeyedList.find_append] at isEntry
    cases before : KeyedList.find Prod.fst cache.cacheByNetwork probe with
    | some entry' =>
        rw [before, Option.some_or, Option.some.injEq] at isEntry
        subst isEntry
        exact Or.inl (get_eq_some.mpr ⟨entry', cacheByBlock, before, isFound, getsFound⟩)
    | none =>
        rw [before, Option.none_or, KeyedList.find_cons, KeyedList.find_nil] at isEntry
        by_cases same : network = probe
        · rw [if_pos same, Option.some.injEq] at isEntry
          subst isEntry
          rcases get_of_insertBlock updates isFound getsFound with
            ⟨before, isBefore, -⟩ | ⟨accepted, sameBlock, sameKey, sameResult⟩
          · simp at isBefore
          · exact Or.inr ⟨accepted, same.symm, sameBlock, sameKey, sameResult⟩
        · rw [if_neg same] at isEntry
          cases isEntry

end get

/-! ## Runs -/

/-- An insert of `result` for `network`, `blockPtr` and `key` that the cache accepted. -/
def Accepted (trace : List (Call K R × Response R)) (network : String) (blockPtr : BlockPtr)
    (key : K) (result : R) : Prop :=
  ∃ weight, (Call.insert network blockPtr key result weight, Response.inserted true) ∈ trace

/-- Every result the cache holds was accepted by an insert of the trace. -/
def Sound (cache : QueryBlockCache K R cmp) (trace : List (Call K R × Response R)) : Prop :=
  ∀ network blockPtr key result, cache.get network blockPtr key = some result →
    Accepted trace network blockPtr key result

variable {call : Call K R} {response : Response R} {trace : List (Call K R × Response R)}

/-- What one call can do: an insert, or a lookup that changes nothing. -/
theorem step_cases (stepped : cache.step hasErrors call = some (final, response)) :
    (∃ network blockPtr key result weight inserted,
        call = .insert network blockPtr key result weight ∧ response = .inserted inserted ∧
        cache.insert hasErrors network blockPtr key result weight = some (final, inserted)) ∨
      (∃ network blockPtr key, call = .get network blockPtr key ∧ final = cache ∧
        response = .found (cache.get network blockPtr key)) := by
  cases call with
  | insert network blockPtr key result weight =>
      simp only [step, bind, Option.bind_eq_some_iff] at stepped
      obtain ⟨⟨next, inserted⟩, inserts, answered⟩ := stepped
      simp only [pure, Option.some.injEq, Prod.mk.injEq] at answered
      obtain ⟨rfl, rfl⟩ := answered
      exact Or.inl ⟨network, blockPtr, key, result, weight, inserted, rfl, rfl, inserts⟩
  | get network blockPtr key =>
      simp only [step, Option.some.injEq, Prod.mk.injEq] at stepped
      exact Or.inr ⟨network, blockPtr, key, rfl, stepped.1.symm, stepped.2.symm⟩

theorem WellFormed.step (wellFormed : cache.WellFormed)
    (stepped : cache.step hasErrors call = some (final, response)) : final.WellFormed := by
  rcases step_cases stepped with ⟨_, _, _, _, _, _, -, -, inserts⟩ | ⟨_, _, _, -, rfl, -⟩
  · exact wellFormed.insert inserts
  · exact wellFormed

theorem config_of_step (stepped : cache.step hasErrors call = some (final, response)) :
    final.maxWeight = cache.maxWeight ∧ final.maxBlocks = cache.maxBlocks := by
  rcases step_cases stepped with ⟨_, _, _, _, _, _, -, -, inserts⟩ | ⟨_, _, _, -, rfl, -⟩
  · exact config_of_insert inserts
  · exact ⟨rfl, rfl⟩

/-- The run lemma of the invariant: every run keeps the cache well formed, with its budget and
its number of blocks. -/
theorem WellFormed.run :
    ∀ {calls : List (Call K R)} {cache final : QueryBlockCache K R cmp}
      {responses : List (Response R)}, cache.WellFormed →
      cache.run hasErrors calls = some (final, responses) →
      final.WellFormed ∧ final.maxWeight = cache.maxWeight ∧ final.maxBlocks = cache.maxBlocks
  | [], _, _, _, wellFormed, ran => by
      simp only [QueryBlockCache.run, Option.some.injEq, Prod.mk.injEq] at ran
      obtain ⟨rfl, -⟩ := ran
      exact ⟨wellFormed, rfl, rfl⟩
  | call :: calls, cache, final, responses, wellFormed, ran => by
      simp only [QueryBlockCache.run, bind, Option.bind_eq_some_iff] at ran
      obtain ⟨⟨next, response⟩, stepped, ⟨rest, restResponses⟩, ranRest, answered⟩ := ran
      simp only [pure, Option.some.injEq, Prod.mk.injEq] at answered
      obtain ⟨rfl, -⟩ := answered
      have config := config_of_step stepped
      obtain ⟨finalWellFormed, sameWeight, sameBlocks⟩ :=
        (wellFormed.step stepped).run ranRest
      exact ⟨finalWellFormed, sameWeight.trans config.1, sameBlocks.trans config.2⟩

theorem Sound.nil_new (maxBlocks maxWeight : Nat) :
    Sound (new maxBlocks maxWeight : QueryBlockCache K R cmp) [] := by
  intro network blockPtr key result gets
  simp [get_eq_some, new] at gets

section sound

variable [Std.LawfulEqCmp cmp]

/-- The step lemma of soundness: a result held after a call was held before, or the call is the
insert that accepted it. -/
theorem Sound.step (sound : Sound cache trace)
    (stepped : cache.step hasErrors call = some (final, response)) :
    Sound final (trace ++ [(call, response)]) := by
  intro network blockPtr key result gets
  rcases step_cases stepped with
    ⟨network', blockPtr', key', result', weight, inserted, rfl, rfl, inserts⟩ | ⟨-, -, -, -, rfl, -⟩
  · rcases get_of_insert inserts gets with before | ⟨rfl, rfl, rfl, rfl, rfl⟩
    · obtain ⟨weight', member⟩ := sound network blockPtr key result before
      exact ⟨weight', List.mem_append_left _ member⟩
    · exact ⟨weight, List.mem_append_right _ (List.mem_singleton_self _)⟩
  · obtain ⟨weight', member⟩ := sound network blockPtr key result gets
    exact ⟨weight', List.mem_append_left _ member⟩

/-- The run lemma of soundness: each result a lookup of the run finds was accepted before the
run or by an earlier insert of it. -/
theorem Sound.run :
    ∀ {calls : List (Call K R)} {cache final : QueryBlockCache K R cmp}
      {responses : List (Response R)} {trace : List (Call K R × Response R)},
      Sound cache trace → cache.run hasErrors calls = some (final, responses) →
      ∀ (i : Nat) (network : String) (blockPtr : BlockPtr) (key : K) (result : R),
        calls[i]? = some (Call.get network blockPtr key) →
        responses[i]? = some (Response.found (some result)) →
        Accepted trace network blockPtr key result ∨
          ∃ j < i, ∃ weight, calls[j]? = some (Call.insert network blockPtr key result weight) ∧
            responses[j]? = some (Response.inserted true)
  | [], _, _, _, _, _, _, i, _, _, _, _, called, _ => by simp at called
  | call :: calls, cache, final, responses, trace, sound, ran, i, network, blockPtr, key, result,
      called, answered => by
      simp only [QueryBlockCache.run, bind, Option.bind_eq_some_iff] at ran
      obtain ⟨⟨next, response⟩, stepped, ⟨rest, restResponses⟩, ranRest, answeredAll⟩ := ran
      simp only [pure, Option.some.injEq, Prod.mk.injEq] at answeredAll
      obtain ⟨-, rfl⟩ := answeredAll
      cases i with
      | zero =>
          simp only [List.getElem?_cons_zero, Option.some.injEq] at called answered
          subst called answered
          -- the lookup is this call: what it found was held before it
          simp only [QueryBlockCache.step, Option.some.injEq, Prod.mk.injEq,
            Response.found.injEq] at stepped
          exact Or.inl (sound network blockPtr key result stepped.2)
      | succ i =>
          simp only [List.getElem?_cons_succ] at called answered
          rcases Sound.run (sound.step stepped) ranRest i network blockPtr key result called
              answered with ⟨weight, member⟩ | ⟨j, earlier, weight, insertCall, accepted⟩
          · rcases List.mem_append.mp member with member | member
            · exact Or.inl ⟨weight, member⟩
            · -- the insert that accepted it is this call
              obtain ⟨rfl, rfl⟩ := Prod.mk.inj (List.mem_singleton.mp member)
              exact Or.inr ⟨0, Nat.zero_lt_succ i, weight, rfl, rfl⟩
          · exact Or.inr ⟨j + 1, Nat.succ_lt_succ earlier, weight, insertCall, accepted⟩

end sound

/-- The query block cache over every run from an empty cache: bounded ordered deques, stale
inserts refused, and lookups that find only accepted results. -/
theorem queryBlockCache_invariants [Std.LawfulEqCmp cmp] (maxBlocks maxWeight : Nat)
    {calls : List (Call K R)} {final : QueryBlockCache K R cmp} {responses : List (Response R)}
    (ran : (new maxBlocks maxWeight).run hasErrors calls = some (final, responses)) :
    (KeyedList.Distinct Prod.fst final.cacheByNetwork ∧
        ∀ entry ∈ final.cacheByNetwork, DequeWellFormed maxWeight maxBlocks entry.2) ∧
      (∀ network blocks blockPtr key result weight, (network, blocks) ∈ final.cacheByNetwork →
        (∃ cached ∈ blocks, blockPtr.number < cached.block.number) →
        (∀ cached ∈ blocks, cached.block ≠ blockPtr) →
        final.insert hasErrors network blockPtr key result weight = some (final, false)) ∧
      (∀ (i : Nat) (network : String) (blockPtr : BlockPtr) (key : K) (result : R),
        calls[i]? = some (Call.get network blockPtr key) →
        responses[i]? = some (Response.found (some result)) →
        ∃ j < i, ∃ weight, calls[j]? = some (Call.insert network blockPtr key result weight) ∧
          responses[j]? = some (Response.inserted true)) := by
  have empty : (new maxBlocks maxWeight : QueryBlockCache K R cmp).WellFormed :=
    ⟨List.nodup_nil, fun _ member => by simp [new] at member⟩
  obtain ⟨wellFormed, sameWeight, sameBlocks⟩ := empty.run ran
  refine ⟨⟨wellFormed.networks, fun entry member => ?_⟩, ?_, ?_⟩
  · have deque := wellFormed.deques entry member
    rw [sameWeight, sameBlocks] at deque
    exact deque
  · intro network blocks blockPtr key result weight member older absent
    exact insert_of_older wellFormed member older absent
  · intro i network blockPtr key result called answered
    rcases (Sound.nil_new maxBlocks maxWeight).run ran i network blockPtr key result called
        answered with ⟨_, member⟩ | earlier
    · simp at member
    · exact earlier

/-- Two calls on one network: an insert at block 10, and a lookup of the same key there. -/
def sampleCalls : List (Call Nat Nat) :=
  [.insert "mainnet" ⟨[1], 10⟩ 0 7 1, .get "mainnet" ⟨[1], 10⟩ 0]

theorem queryBlockCache_invariants_sampleCalls :
    ∃ final, (new 2 5 : QueryBlockCache Nat Nat compare).run (fun _ => false) sampleCalls =
        some (final, [.inserted true, .found (some 7)]) ∧
      ∀ entry ∈ final.cacheByNetwork, DequeWellFormed 5 2 entry.2 := by
  obtain ⟨final, ran⟩ : ∃ final,
      (new 2 5 : QueryBlockCache Nat Nat compare).run (fun _ => false) sampleCalls =
        some (final, [.inserted true, .found (some 7)]) := ⟨_, rfl⟩
  exact ⟨final, ran, (queryBlockCache_invariants 2 5 ran).1.2⟩

end QueryBlockCache

end GraphNode
