import GraphNode.Util.LfuCache

/-!
# The cache as a finite map

Every cache built by `new`, `insert`, `get`, `remove` and `evict_with_period` keeps distinct
keys, frequencies of at least one and a total weight equal to the weights of its entries.  Under
that invariant no subtraction of `total_weight` underflows, `remove` always pops the entry it was
asked for, eviction never runs out of entries, and each operation acts on the map from keys to
values as its name says.  `Extend` breaks the invariant: it adds entries without their weight,
after which `remove` of such an entry panics at the subtraction.
-/

namespace GraphNode

namespace LfuCache

variable {K V : Type} [DecidableEq K]

/-- The value cached under `key`. -/
def lookup (cache : LfuCache K V) (key : K) : Option V :=
  (KeyedList.find QueueItem.key cache.queue key).map fun item => item.1.value

/-- The sum of the weights of the queued entries. -/
def weightSum (queue : List (QueueItem K V)) : Nat :=
  (queue.map fun item => item.1.weight).sum

/-- The invariant of reachable caches. -/
structure WellFormed (cache : LfuCache K V) : Prop where
  distinct : KeyedList.Distinct QueueItem.key cache.queue
  used : ∀ item ∈ cache.queue, 1 ≤ item.2.frequency
  total : cache.totalWeight = weightSum cache.queue

/-! ## Popping -/

omit [DecidableEq K] in
theorem greatest_mem {queue : List (QueueItem K V)} {item : QueueItem K V}
    (found : greatest queue = some item) : item ∈ queue := by
  induction queue with
  | nil => simp [greatest] at found
  | cons head rest induction =>
      simp only [greatest] at found
      cases best : greatest rest with
      | none =>
          simp only [best, Option.some.injEq] at found
          simp [found]
      | some best' =>
          simp only [best] at found
          split at found
          · cases found
            exact List.mem_cons_of_mem _ (induction best)
          · cases found
            exact List.mem_cons_self

omit [DecidableEq K] in
/-- An item strictly above all others is the one `greatest` picks. -/
theorem greatest_of_above {queue : List (QueueItem K V)}
    (distinct : KeyedList.Distinct QueueItem.key queue) {item : QueueItem K V}
    (member : item ∈ queue)
    (above : ∀ other ∈ queue, other.key ≠ item.key → other.2.lt item.2) :
    greatest queue = some item := by
  induction queue with
  | nil => simp at member
  | cons head rest induction =>
      have fresh := (List.nodup_cons.mp distinct).1
      have restAbove : ∀ other ∈ rest, other.key ≠ item.key → other.2.lt item.2 :=
        fun other otherMember => above other (List.mem_cons_of_mem _ otherMember)
      rcases List.mem_cons.mp member with rfl | restMember
      · -- the item heads the queue; whatever `rest` offers lies strictly below it
        simp only [greatest]
        cases best : greatest rest with
        | none => rfl
        | some best' =>
            have bestMember := greatest_mem best
            have different : best'.key ≠ item.key := by
              intro same
              exact fresh (same ▸ List.mem_map_of_mem bestMember)
            simp [Priority.lt_asymm (restAbove best' bestMember different)]
      · have different : head.key ≠ item.key := by
          intro same
          exact fresh (same ▸ List.mem_map_of_mem restMember)
        simp [greatest, induction (List.nodup_cons.mp distinct).2 restMember restAbove,
          above head List.mem_cons_self different]

omit [DecidableEq K] in
theorem weightSum_append (front back : List (QueueItem K V)) :
    weightSum (front ++ back) = weightSum front + weightSum back := by
  simp [weightSum]

theorem weightSum_modify (f : QueueItem K V → QueueItem K V)
    (same : ∀ item, (f item).1.weight = item.1.weight)
    (queue : List (QueueItem K V)) (key : K) :
    weightSum (KeyedList.modify QueueItem.key queue key f) = weightSum queue := by
  induction queue with
  | nil => rfl
  | cons item queue induction =>
      by_cases hit : item.key = key <;>
        simp_all [weightSum, KeyedList.modify]

/-- Removing a present key takes exactly its entry's weight off the sum. -/
theorem weightSum_erase {queue : List (QueueItem K V)}
    (distinct : KeyedList.Distinct QueueItem.key queue) {item : QueueItem K V}
    (member : item ∈ queue) :
    weightSum (KeyedList.erase QueueItem.key queue item.key) + item.1.weight =
      weightSum queue := by
  induction queue with
  | nil => simp at member
  | cons head rest induction =>
      have fresh := (List.nodup_cons.mp distinct).1
      rcases List.mem_cons.mp member with rfl | restMember
      · have absent : KeyedList.erase QueueItem.key rest item.key = rest := by
          apply List.filter_eq_self.mpr
          intro other otherMember
          have different : other.key ≠ item.key := by
            intro same
            exact fresh (same ▸ List.mem_map_of_mem otherMember)
          simpa using different
        have dropped : KeyedList.erase QueueItem.key (item :: rest) item.key = rest := by
          rw [← absent]
          simp [KeyedList.erase]
        rw [dropped]
        simp [weightSum]
        omega
      · have different : head.key ≠ item.key := by
          intro same
          exact fresh (same ▸ List.mem_map_of_mem restMember)
        have rest := induction (List.nodup_cons.mp distinct).2 restMember
        simp only [KeyedList.erase, weightSum] at rest ⊢
        simp [different] at rest ⊢
        omega

/-- Editing the item of one key changes the sum by the change of that item's weight. -/
theorem weightSum_modify_at {queue : List (QueueItem K V)}
    (distinct : KeyedList.Distinct QueueItem.key queue) {item : QueueItem K V}
    (member : item ∈ queue) (f : QueueItem K V → QueueItem K V) :
    weightSum (KeyedList.modify QueueItem.key queue item.key f) + item.1.weight =
      weightSum queue + (f item).1.weight := by
  induction queue with
  | nil => simp at member
  | cons head rest induction =>
      have fresh := (List.nodup_cons.mp distinct).1
      rcases List.mem_cons.mp member with rfl | restMember
      · have untouched : KeyedList.modify QueueItem.key rest item.key f = rest := by
          unfold KeyedList.modify
          conv => rhs; rw [← List.map_id rest]
          apply List.map_congr_left
          intro other otherMember
          have different : other.key ≠ item.key := by
            intro same
            exact fresh (same ▸ List.mem_map_of_mem otherMember)
          simp [different]
        have edited : KeyedList.modify QueueItem.key (item :: rest) item.key f =
            f item :: rest := by
          simp only [KeyedList.modify, List.map_cons]
          exact congrArg _ untouched
        rw [edited]
        simp [weightSum]
        omega
      · have different : head.key ≠ item.key := by
          intro same
          exact fresh (same ▸ List.mem_map_of_mem restMember)
        have rest := induction (List.nodup_cons.mp distinct).2 restMember
        simp only [KeyedList.modify, weightSum] at rest ⊢
        simp [different] at rest ⊢
        omega

theorem weight_le_weightSum {queue : List (QueueItem K V)}
    (distinct : KeyedList.Distinct QueueItem.key queue) {item : QueueItem K V}
    (member : item ∈ queue) : item.1.weight ≤ weightSum queue := by
  have := weightSum_erase distinct member
  omega

/-! ## Each operation on the map -/

omit [DecidableEq K] in
theorem wellFormed_new : (new : LfuCache K V).WellFormed :=
  ⟨List.nodup_nil, by simp [new], rfl⟩

@[simp]
theorem lookup_new (key : K) : (new : LfuCache K V).lookup key = none := rfl

theorem containsKey_eq (cache : LfuCache K V) (key : K) :
    cache.containsKey key = (cache.lookup key).isSome := by
  simp [containsKey, lookup]

/-- An edit that keeps keys and values leaves every lookup as it was. -/
theorem lookup_modify {f : QueueItem K V → QueueItem K V}
    (keeps : ∀ item, (f item).key = item.key) (same : ∀ item, (f item).1.value = item.1.value)
    (cache : LfuCache K V) (key probe : K) :
    (KeyedList.find QueueItem.key (KeyedList.modify QueueItem.key cache.queue key f) probe).map
      (fun item => item.1.value) = cache.lookup probe := by
  rw [KeyedList.find_modify keeps]
  split
  · simp only [lookup, Option.map_map]
    congr 1
    funext item
    exact same item
  · rfl

theorem getMut_lookup (cache : LfuCache K V) (key probe : K) :
    (cache.getMut key).1.lookup probe = cache.lookup probe := by
  unfold getMut
  split
  · rfl
  · exact lookup_modify QueueItem.key_touch (fun _ => rfl) cache key probe

theorem getMut_value (cache : LfuCache K V) (key : K) :
    (cache.getMut key).2.map CacheEntry.value = cache.lookup key := by
  unfold getMut
  split <;> simp_all [lookup, QueueItem.touch]

theorem getMut_wellFormed {cache : LfuCache K V} (wellFormed : cache.WellFormed) (key : K) :
    (cache.getMut key).1.WellFormed := by
  unfold getMut
  split
  · exact wellFormed
  · refine ⟨KeyedList.distinct_modify QueueItem.key_touch wellFormed.distinct key, ?_, ?_⟩
    · intro item member
      obtain ⟨original, originalMember, rfl⟩ := List.mem_map.mp member
      have used := wellFormed.used original originalMember
      split
      · simp only [QueueItem.touch]
        omega
      · exact used
    · simp only
      rw [wellFormed.total, weightSum_modify QueueItem.touch (fun _ => rfl)]

@[simp]
theorem get_lookup (cache : LfuCache K V) (key probe : K) :
    (cache.get key).1.lookup probe = cache.lookup probe :=
  getMut_lookup cache key probe

@[simp]
theorem get_value (cache : LfuCache K V) (key : K) : (cache.get key).2 = cache.lookup key :=
  getMut_value cache key

theorem get_wellFormed {cache : LfuCache K V} (wellFormed : cache.WellFormed) (key : K) :
    (cache.get key).1.WellFormed :=
  getMut_wellFormed wellFormed key

theorem getMut_of_absent {cache : LfuCache K V} {key : K}
    (absent : KeyedList.find QueueItem.key cache.queue key = none) :
    cache.getMut key = (cache, none) := by
  simp [getMut, absent]

theorem getMut_of_present {cache : LfuCache K V} {key : K} {item : QueueItem K V}
    (present : KeyedList.find QueueItem.key cache.queue key = some item) :
    cache.getMut key =
      ({ cache with queue := KeyedList.modify QueueItem.key cache.queue key QueueItem.touch },
        some item.touch.1) := by
  simp [getMut, present]

theorem lookup_of_insert {weight : K → V → Nat} {cache inserted : LfuCache K V} {key : K}
    {value : V} (insertedIs : cache.insert weight key value = some inserted) (probe : K) :
    inserted.lookup probe = if key = probe then some value else cache.lookup probe := by
  cases found : KeyedList.find QueueItem.key cache.queue key with
  | none =>
      simp only [insert, getMut_of_absent found, Option.some.injEq] at insertedIs
      subst insertedIs
      simp only [lookup, KeyedList.find_append, KeyedList.find_cons, KeyedList.find_nil,
        QueueItem.key]
      by_cases same : key = probe
      · subst same
        simp [found]
      · simp [same]
  | some item =>
      simp only [insert, getMut_of_present found, Option.map_eq_some_iff] at insertedIs
      obtain ⟨total, -, rfl⟩ := insertedIs
      simp only [lookup]
      rw [KeyedList.find_modify (QueueItem.key_replace _ _), KeyedList.find_modify
        QueueItem.key_touch]
      by_cases same : key = probe
      · subst same
        simp [found, QueueItem.replace]
      · simp [same]

/-- `insert` on a well-formed cache never panics: the weight it takes off is part of the total. -/
theorem insert_eq_some (weight : K → V → Nat) {cache : LfuCache K V}
    (wellFormed : cache.WellFormed) (key : K) (value : V) :
    ∃ inserted, cache.insert weight key value = some inserted ∧ inserted.WellFormed := by
  cases found : KeyedList.find QueueItem.key cache.queue key with
  | none =>
      simp only [insert, getMut_of_absent found, Option.some.injEq, exists_eq_left']
      refine ⟨KeyedList.distinct_append_fresh wellFormed.distinct found, ?_, ?_⟩
      · intro item member
        rcases List.mem_append.mp member with member | member
        · exact wellFormed.used item member
        · simp at member
          simp [member]
      · simp [wellFormed.total, weightSum]
  | some item =>
      have member := KeyedList.mem_of_find found
      have itemKey : item.key = key := KeyedList.key_of_find found
      have bound := weight_le_weightSum wellFormed.distinct member
      have fits : Nat.psub' cache.totalWeight item.touch.1.weight =
          some (cache.totalWeight - item.1.weight) := by
        simp [Nat.psub', QueueItem.touch, wellFormed.total, bound]
      have touched : item.touch ∈ KeyedList.modify QueueItem.key cache.queue key
          QueueItem.touch := by
        simpa [itemKey] using
          @KeyedList.mem_modify (QueueItem K V) K _ QueueItem.key _ _ member key QueueItem.touch
      have touchedDistinct :=
        KeyedList.distinct_modify QueueItem.key_touch wellFormed.distinct key
      simp only [insert, getMut_of_present found, fits, Option.map_some, Option.some.injEq,
        exists_eq_left']
      refine ⟨KeyedList.distinct_modify (QueueItem.key_replace _ _) touchedDistinct key, ?_, ?_⟩
      · intro edited editedMember
        obtain ⟨before, beforeMember, rfl⟩ := List.mem_map.mp editedMember
        obtain ⟨original, originalMember, rfl⟩ := List.mem_map.mp beforeMember
        have used := wellFormed.used original originalMember
        by_cases hit : original.key = key
        · simp only [hit, if_true, QueueItem.key_touch]
          simp only [QueueItem.replace, QueueItem.touch]
          omega
        · simpa [hit] using used
      · have replaced := weightSum_modify_at touchedDistinct touched
          (QueueItem.replace (weight key value) value)
        rw [QueueItem.key_touch, itemKey, weightSum_modify QueueItem.touch (fun _ => rfl)]
          at replaced
        simp only [QueueItem.replace, QueueItem.touch] at replaced ⊢
        rw [wellFormed.total]
        omega

/-- `insert` of a key the cache does not hold never panics: it only pushes. -/
theorem insert_of_lookup_eq_none (weight : K → V → Nat) {cache : LfuCache K V} {key : K}
    (absent : cache.lookup key = none) (value : V) :
    ∃ inserted, cache.insert weight key value = some inserted := by
  have found : KeyedList.find QueueItem.key cache.queue key = none := by
    simpa [lookup] using absent
  simp [insert, getMut_of_absent found]

theorem insert_wellFormed {weight : K → V → Nat} {cache inserted : LfuCache K V}
    (wellFormed : cache.WellFormed) {key : K} {value : V}
    (insertedIs : cache.insert weight key value = some inserted) : inserted.WellFormed := by
  obtain ⟨other, otherIs, otherWellFormed⟩ := insert_eq_some weight wellFormed key value
  rw [insertedIs, Option.some.injEq] at otherIs
  rwa [otherIs]

/-- In a queue of distinct keys whose entries were all used, the promoted entry is strictly
greatest, so it is the one popped. -/
theorem pop_promote {queue : List (QueueItem K V)}
    (distinct : KeyedList.Distinct QueueItem.key queue)
    (used : ∀ item ∈ queue, 1 ≤ item.2.frequency) {key : K}
    {item : QueueItem K V} (found : KeyedList.find QueueItem.key queue key = some item) :
    pop (KeyedList.modify QueueItem.key queue key QueueItem.promote) =
      some (item.promote, KeyedList.erase QueueItem.key
        (KeyedList.modify QueueItem.key queue key QueueItem.promote) key) := by
  have member := KeyedList.mem_of_find found
  have itemKey : item.key = key := KeyedList.key_of_find found
  have promotedMember : item.promote ∈
      KeyedList.modify QueueItem.key queue key QueueItem.promote := by
    simpa [itemKey] using
      @KeyedList.mem_modify (QueueItem K V) K _ QueueItem.key _ _ member key QueueItem.promote
  have greatestPromoted : greatest (KeyedList.modify QueueItem.key queue key
      QueueItem.promote) = some item.promote := by
    apply greatest_of_above
      (KeyedList.distinct_modify QueueItem.key_promote distinct key) promotedMember
    intro other otherMember different
    have original := KeyedList.mem_of_mem_modify QueueItem.key_promote otherMember
      (by simpa [itemKey] using different)
    exact Priority.lt_top (used other original)
  simp [pop, greatestPromoted, itemKey]

/-- `remove` on a well-formed cache never panics, returns the cached value and leaves the map
without its key. -/
theorem remove_spec {cache : LfuCache K V} (wellFormed : cache.WellFormed) (key : K) :
    ∃ removed, cache.remove key = some (removed, cache.lookup key) ∧ removed.WellFormed ∧
      ∀ probe, removed.lookup probe = if key = probe then none else cache.lookup probe := by
  cases found : KeyedList.find QueueItem.key cache.queue key with
  | none =>
      have absent : cache.lookup key = none := by simp [lookup, found]
      refine ⟨cache, by simp [remove, found, absent], wellFormed, ?_⟩
      intro probe
      by_cases same : key = probe
      · subst same
        simp [absent]
      · simp [same]
  | some item =>
      have member := KeyedList.mem_of_find found
      have itemKey : item.1.key = key := by
        simpa [QueueItem.key] using KeyedList.key_of_find found
      have promotedDistinct :=
        KeyedList.distinct_modify QueueItem.key_promote wellFormed.distinct key
      have promotedMember : item.promote ∈
          KeyedList.modify QueueItem.key cache.queue key QueueItem.promote := by
        simpa [QueueItem.key, itemKey] using
          @KeyedList.mem_modify (QueueItem K V) K _ QueueItem.key _ _ member key
            QueueItem.promote
      have weights := weightSum_erase promotedDistinct promotedMember
      rw [weightSum_modify QueueItem.promote (fun _ => rfl), QueueItem.key_promote,
        KeyedList.key_of_find found] at weights
      refine ⟨⟨KeyedList.erase QueueItem.key
          (KeyedList.modify QueueItem.key cache.queue key QueueItem.promote) key,
        cache.totalWeight - item.1.weight, cache.staleCounter⟩, ?_, ?_, ?_⟩
      · have value : cache.lookup key = some item.1.value := by simp [lookup, found]
        have fits : Nat.psub' cache.totalWeight item.1.weight =
            some (cache.totalWeight - item.1.weight) := by
          simp [Nat.psub', wellFormed.total, weight_le_weightSum wellFormed.distinct member]
        simp [remove, found, pop_promote wellFormed.distinct wellFormed.used found, QueueItem.promote,
          itemKey, value, fits]
      · refine ⟨KeyedList.distinct_erase promotedDistinct key, ?_, ?_⟩
        · intro other otherMember
          have different := KeyedList.key_of_mem_erase otherMember
          exact wellFormed.used other (KeyedList.mem_of_mem_modify QueueItem.key_promote
            (KeyedList.mem_of_mem_erase otherMember) different)
        · simp only [QueueItem.promote] at weights
          simp only
          rw [wellFormed.total]
          omega
      · intro probe
        simp only [lookup]
        rw [KeyedList.find_erase]
        split
        · rfl
        · exact lookup_modify QueueItem.key_promote (fun _ => rfl) cache key probe

omit [DecidableEq K] in
theorem greatest_isSome {queue : List (QueueItem K V)} (nonempty : queue ≠ []) :
    ∃ item, greatest queue = some item := by
  cases queue with
  | nil => exact absurd rfl nonempty
  | cons head rest =>
      simp only [greatest]
      cases greatest rest with
      | none => exact ⟨head, rfl⟩
      | some best => by_cases above : head.2.lt best.2 <;> simp [above]

/-- The eviction loop pops entries only, and its running total stays the sum of what is left;
with one unit of fuel per entry it never panics. -/
theorem evictLoop_spec (maxWeight : Nat) :
    ∀ (fuel : Nat) (queue : List (QueueItem K V)) (evicted : Nat), queue.length ≤ fuel →
      KeyedList.Distinct QueueItem.key queue →
      ∃ rest evictedTotal,
        evictLoop maxWeight fuel queue (weightSum queue) evicted =
          some (rest, weightSum rest, evictedTotal) ∧
        KeyedList.Distinct QueueItem.key rest ∧ ∀ item ∈ rest, item ∈ queue := by
  intro fuel
  induction fuel with
  | zero =>
      intro queue evicted short distinct
      have empty : queue = [] := List.eq_nil_of_length_eq_zero (by omega)
      subst empty
      exact ⟨[], evicted, by simp [evictLoop, weightSum], distinct, by simp⟩
  | succ fuel induction =>
      intro queue evicted short distinct
      by_cases fits : weightSum queue ≤ maxWeight
      · exact ⟨queue, evicted, by simp [evictLoop, fits], distinct, fun _ member => member⟩
      · have nonempty : queue ≠ [] := by
          rintro rfl
          simp [weightSum] at fits
        obtain ⟨item, found⟩ := greatest_isSome nonempty
        have member := greatest_mem found
        have shorter := @KeyedList.length_erase_lt (QueueItem K V) K _ QueueItem.key _ _ member
        have weights := weightSum_erase distinct member
        obtain ⟨rest, evictedTotal, loop, restDistinct, within⟩ :=
          induction (KeyedList.erase QueueItem.key queue item.key) (evicted + item.1.weight)
            (by omega) (KeyedList.distinct_erase distinct item.key)
        refine ⟨rest, evictedTotal, ?_, restDistinct,
          fun other otherMember => KeyedList.mem_of_mem_erase (within other otherMember)⟩
        obtain ⟨entry, priority⟩ := item
        simp only [QueueItem.key] at weights loop
        have subtracted : Nat.psub' (weightSum queue) entry.weight =
            some (weightSum (KeyedList.erase QueueItem.key queue entry.key)) := by
          rw [Nat.psub', if_pos (by omega)]
          congr 1
          omega
        simp only [evictLoop, fits, if_false, pop, found, Option.map_some, subtracted,
          Option.bind_some]
        exact loop

/-- Eviction on a reachable cache never panics and only drops entries. -/
theorem evictWithPeriod_spec {cache : LfuCache K V} (wellFormed : cache.WellFormed)
    (maxWeight stalePeriod : Nat) :
    ∃ evicted result, cache.evictWithPeriod maxWeight stalePeriod = some (evicted, result) ∧
      evicted.WellFormed ∧
      ∀ probe value, evicted.lookup probe = some value → cache.lookup probe = some value := by
  by_cases fits : cache.totalWeight ≤ maxWeight
  · exact ⟨cache, none, by simp [evictWithPeriod, fits], wellFormed, fun _ _ found => found⟩
  obtain ⟨counter, queue, marked, markedDistinct, markedWeight, markedFrom⟩ :
      ∃ counter queue,
        (if cache.staleCounter + 1 = stalePeriod then (0, cache.queue.map QueueItem.age)
          else (cache.staleCounter + 1, cache.queue)) = (counter, queue) ∧
        KeyedList.Distinct QueueItem.key queue ∧ weightSum queue = weightSum cache.queue ∧
        ∀ item ∈ queue, ∃ original ∈ cache.queue, original.key = item.key ∧
          original.1.value = item.1.value ∧ original.2.frequency = item.2.frequency := by
    by_cases period : cache.staleCounter + 1 = stalePeriod
    · refine ⟨0, cache.queue.map QueueItem.age, by simp [period],
        KeyedList.distinct_map QueueItem.key_age wellFormed.distinct,
        by simp [weightSum, QueueItem.age, Function.comp_def], ?_⟩
      intro item member
      obtain ⟨original, originalMember, rfl⟩ := List.mem_map.mp member
      exact ⟨original, originalMember, rfl, rfl, rfl⟩
    · exact ⟨cache.staleCounter + 1, cache.queue, by simp [period], wellFormed.distinct, rfl,
        fun item member => ⟨item, member, rfl, rfl, rfl⟩⟩
  obtain ⟨rest, evictedTotal, loop, restDistinct, within⟩ :=
    evictLoop_spec maxWeight queue.length queue 0 (Nat.le_refl _) markedDistinct
  rw [markedWeight, ← wellFormed.total] at loop
  refine ⟨⟨rest, weightSum rest, counter⟩, some (evictedTotal, cache.totalWeight, weightSum rest),
    ?_, ⟨restDistinct, ?_, rfl⟩, ?_⟩
  · simp only [evictWithPeriod, fits, if_false]
    rw [marked]
    simp [loop]
  · intro item member
    obtain ⟨original, originalMember, -, -, frequency⟩ := markedFrom item (within item member)
    exact frequency ▸ wellFormed.used original originalMember
  · intro probe value found
    simp only [lookup, Option.map_eq_some_iff] at found ⊢
    obtain ⟨item, itemFound, rfl⟩ := found
    obtain ⟨original, originalMember, sameKey, sameValue, -⟩ :=
      markedFrom item (within item (KeyedList.mem_of_find itemFound))
    refine ⟨original, ?_, sameValue⟩
    rw [← KeyedList.key_of_find itemFound, ← sameKey]
    exact KeyedList.find_of_mem wellFormed.distinct originalMember

/-! ## Reachable caches -/

/-- The caches that `new`, `insert`, `get`, `remove`, `evict_with_period` and `Extend` build;
`weight` is `CacheEntry::weight`.  `Extend` merges the entries of another such cache, as
`EntityCache::extend` does with the caches of `ipfs.map` callbacks. -/
inductive Reachable (weight : K → V → Nat) : LfuCache K V → Prop
  | new : Reachable weight new
  | insert {cache inserted : LfuCache K V} (key : K) (value : V) :
      Reachable weight cache → cache.insert weight key value = some inserted →
        Reachable weight inserted
  | get {cache : LfuCache K V} (key : K) :
      Reachable weight cache → Reachable weight (cache.get key).1
  | remove {cache removed : LfuCache K V} {key : K} {value : Option V} :
      Reachable weight cache → cache.remove key = some (removed, value) → Reachable weight removed
  | evict {cache evicted : LfuCache K V} {maxWeight stalePeriod : Nat}
      {result : Option (Nat × Nat × Nat)} :
      Reachable weight cache → cache.evictWithPeriod maxWeight stalePeriod = some (evicted, result) →
        Reachable weight evicted
  | extend {cache other : LfuCache K V} :
      Reachable weight cache → Reachable weight other → Reachable weight (cache.extend other.queue)

/-- `remove` leaves the queue item of every other key as it was, its priority included. -/
theorem find_remove {cache removed : LfuCache K V} (wellFormed : cache.WellFormed) {key : K}
    {value : Option V} (removing : cache.remove key = some (removed, value)) {probe : K}
    (different : probe ≠ key) :
    KeyedList.find QueueItem.key removed.queue probe =
      KeyedList.find QueueItem.key cache.queue probe := by
  cases found : KeyedList.find QueueItem.key cache.queue key with
  | none =>
      simp only [remove, found, Option.some.injEq, Prod.mk.injEq] at removing
      rw [← removing.1]
  | some item =>
      have itemKey : item.1.key = key := by
        simpa [QueueItem.key] using KeyedList.key_of_find found
      simp only [remove, found, pop_promote wellFormed.distinct wellFormed.used found,
        QueueItem.promote, itemKey, if_true, Option.map_eq_some_iff, Prod.mk.injEq] at removing
      obtain ⟨total, -, rfl, -⟩ := removing
      rw [KeyedList.find_erase, if_neg (Ne.symm different),
        KeyedList.find_modify QueueItem.key_promote, if_neg (Ne.symm different)]

/-- On a well-formed cache `remove` returns the key's value and leaves every other entry as it
was. -/
theorem remove_of_wellFormed {cache : LfuCache K V} (wellFormed : cache.WellFormed) (key : K) :
    ∃ removed, cache.remove key = some (removed, cache.lookup key) ∧
      removed.lookup key = none ∧
      (∀ probe, probe ≠ key →
        KeyedList.find QueueItem.key removed.queue probe =
          KeyedList.find QueueItem.key cache.queue probe) ∧
      ∀ item, KeyedList.find QueueItem.key cache.queue key = some item →
        ∃ rest, pop (KeyedList.modify QueueItem.key cache.queue key QueueItem.promote) =
          some (item.promote, rest) := by
  obtain ⟨removed, removing, -, lookups⟩ := remove_spec wellFormed key
  refine ⟨removed, removing, by simp [lookups], ?_, ?_⟩
  · intro probe different
    exact find_remove wellFormed removing different
  · intro item found
    exact ⟨_, pop_promote wellFormed.distinct wellFormed.used found⟩

/-! ## Merging caches -/

/-- Items of keys not queued yet are pushed to the end, one after another. -/
theorem foldl_push_of_distinct :
    ∀ {queue items : List (QueueItem K V)},
      KeyedList.Distinct QueueItem.key (queue ++ items) → items.foldl push queue = queue ++ items
  | _, [], _ => by simp
  | queue, item :: items, distinct => by
      have fresh : KeyedList.find QueueItem.key queue item.key = none := by
        apply KeyedList.find_eq_none.mpr
        intro queued member same
        simp only [KeyedList.Distinct, List.map_append, List.map_cons, List.nodup_append,
          List.mem_map] at distinct
        exact distinct.2.2 _ ⟨queued, member, rfl⟩ _ List.mem_cons_self same
      have pushed : push queue item = queue ++ [item] := by simp [push, fresh]
      rw [List.foldl_cons, pushed, foldl_push_of_distinct (by simpa using distinct)]
      simp

omit [DecidableEq K] in
/-- The entries of two well-formed caches were all used. -/
theorem used_append {cache other : LfuCache K V} (wellFormed : cache.WellFormed)
    (otherWellFormed : other.WellFormed) :
    ∀ queued ∈ cache.queue ++ other.queue, 1 ≤ queued.2.frequency := by
  intro queued queuedMember
  rcases List.mem_append.mp queuedMember with inCache | inOther
  · exact wellFormed.used queued inCache
  · exact otherWellFormed.used queued inOther

/-- `Extend` leaves the total weight short by the other cache's total, so removing a heavy merged
entry subtracts more than the total holds. -/
theorem extend_then_remove_underflows {cache other : LfuCache K V}
    (wellFormed : cache.WellFormed) (otherWellFormed : other.WellFormed)
    (fresh : KeyedList.Distinct QueueItem.key (cache.queue ++ other.queue))
    {item : QueueItem K V} (member : item ∈ other.queue)
    (heavy : cache.totalWeight < item.1.weight) :
    (cache.extend other.queue).totalWeight + other.totalWeight =
        weightSum (cache.extend other.queue).queue ∧
      ∃ rest, pop (KeyedList.modify QueueItem.key (cache.extend other.queue).queue item.key
          QueueItem.promote) = some (item.promote, rest) ∧
        (cache.extend other.queue).totalWeight < item.promote.1.weight := by
  have merged : (cache.extend other.queue).queue = cache.queue ++ other.queue :=
    foldl_push_of_distinct fresh
  have found : KeyedList.find QueueItem.key (cache.queue ++ other.queue) item.key = some item :=
    KeyedList.find_of_mem fresh (List.mem_append_right _ member)
  constructor
  · rw [merged, weightSum_append, ← wellFormed.total, ← otherWellFormed.total]
    rfl
  · rw [merged]
    exact ⟨_, pop_promote fresh (used_append wellFormed otherWellFormed) found, heavy⟩

/-- A cache of one entry: key 0, with value and weight 5. -/
def sampleOne : LfuCache Nat Nat := ⟨[(⟨5, 0, 5, false⟩, ⟨false, 1⟩)], 5, 0⟩

theorem insert_new_sampleOne :
    (new : LfuCache Nat Nat).insert (fun _ value => value) 0 5 = some sampleOne := rfl

theorem wellFormed_sampleOne : sampleOne.WellFormed := ⟨by decide, by decide, rfl⟩

/-- A new cache merged with `sampleOne`: the merged total stays 0 and removing the entry
subtracts 5 from it. -/
theorem extend_then_remove_underflows_sampleOne :
    ((new : LfuCache Nat Nat).extend sampleOne.queue).totalWeight + sampleOne.totalWeight =
        weightSum ((new : LfuCache Nat Nat).extend sampleOne.queue).queue ∧
      ∃ rest, pop (KeyedList.modify QueueItem.key
          ((new : LfuCache Nat Nat).extend sampleOne.queue).queue 0 QueueItem.promote) =
          some (QueueItem.promote (⟨5, 0, 5, false⟩, ⟨false, 1⟩), rest) ∧
        ((new : LfuCache Nat Nat).extend sampleOne.queue).totalWeight <
          (QueueItem.promote ((⟨5, 0, 5, false⟩, ⟨false, 1⟩) : QueueItem Nat Nat)).1.weight :=
  extend_then_remove_underflows wellFormed_new wellFormed_sampleOne (by decide)
    (show ((⟨5, 0, 5, false⟩, ⟨false, 1⟩) : QueueItem Nat Nat) ∈ sampleOne.queue from
      List.mem_singleton_self _)
    (by decide)

/-- With overflow checks `remove` panics on a cache reached through `Extend`. -/
theorem remove_after_extend_panics {weight : K → V → Nat} {cache other : LfuCache K V}
    (reachable : Reachable weight cache) (otherReachable : Reachable weight other)
    (wellFormed : cache.WellFormed) (otherWellFormed : other.WellFormed)
    (fresh : KeyedList.Distinct QueueItem.key (cache.queue ++ other.queue))
    {item : QueueItem K V} (member : item ∈ other.queue)
    (heavy : cache.totalWeight < item.1.weight) :
    Reachable weight (cache.extend other.queue) ∧
      (cache.extend other.queue).lookup item.key = some item.1.value ∧
      (cache.extend other.queue).remove item.key = none := by
  have merged : (cache.extend other.queue).queue = cache.queue ++ other.queue :=
    foldl_push_of_distinct fresh
  have found : KeyedList.find QueueItem.key (cache.queue ++ other.queue) item.key = some item :=
    KeyedList.find_of_mem fresh (List.mem_append_right _ member)
  have underflows : Nat.psub' (cache.extend other.queue).totalWeight item.1.weight = none := by
    rw [Nat.psub', if_neg (by simpa [extend] using heavy)]
  refine ⟨.extend reachable otherReachable, by simp [lookup, merged, found], ?_⟩
  simp [remove, merged, found, pop_promote fresh (used_append wellFormed otherWellFormed) found,
    QueueItem.promote, underflows]

theorem reachable_sampleOne : Reachable (fun _ value => value) sampleOne :=
  .insert 0 5 .new insert_new_sampleOne

/-- On the merge of a new cache with `sampleOne`, removing key 0 panics. -/
theorem remove_after_extend_panics_sampleOne :
    Reachable (fun _ value => value) ((new : LfuCache Nat Nat).extend sampleOne.queue) ∧
      ((new : LfuCache Nat Nat).extend sampleOne.queue).lookup 0 = some 5 ∧
      ((new : LfuCache Nat Nat).extend sampleOne.queue).remove 0 = none :=
  remove_after_extend_panics .new reachable_sampleOne wellFormed_new wellFormed_sampleOne
    (by decide)
    (show ((⟨5, 0, 5, false⟩, ⟨false, 1⟩) : QueueItem Nat Nat) ∈ sampleOne.queue from
      List.mem_singleton_self _)
    (by decide)

end LfuCache

end GraphNode
