import GraphNode.Library.KeyedList
import Mathlib.Data.Nat.PSub

/-!
# The least-frequently-used cache

`graph/src/util/lfu_cache.rs`.  The cache keeps its entries in a `PriorityQueue` of the
`priority_queue` crate, keyed by the entry's key, with priority `(stale, Reverse(frequency))`:
`pop` removes an item of greatest priority, so stale entries go first and then the least
frequently used ones.  The queue is a keyed list here; among several items of the same greatest
priority the crate leaves the choice open and the model pops the first.  The weight of an entry
is a memory estimate (`CacheEntry::weight`) and enters as a function of key and value.

`total_weight` is a `usize`.  The model is the build with overflow checks (the dev and test
profiles): a subtraction `total_weight -= weight` below zero panics, `none` here, as
`Nat.psub'` does.  The additions are exact; the weights are memory sizes, far from `usize::MAX`.
-/

namespace GraphNode

/-- `CacheEntry`: the priority queue identifies entries by `key` alone. -/
structure CacheEntry (K V : Type) where
  /-- The estimated memory of the entry. -/
  weight : Nat
  key : K
  value : V
  /-- Not accessed since the last staleness period. -/
  willStale : Bool

/-- `Priority = (bool, Reverse<u64>)`. -/
structure Priority where
  stale : Bool
  frequency : Nat
  deriving DecidableEq

namespace Priority

/-- The order of `(bool, Reverse<u64>)`: `false < true`, then the higher frequency is smaller. -/
def lt (p q : Priority) : Prop :=
  (p.stale = false ∧ q.stale = true) ∨ (p.stale = q.stale ∧ q.frequency < p.frequency)

instance (p q : Priority) : Decidable (p.lt q) :=
  inferInstanceAs (Decidable (_ ∨ _))

theorem lt_asymm {p q : Priority} (less : p.lt q) : ¬ q.lt p := by
  obtain ⟨ps, pf⟩ := p
  obtain ⟨qs, qf⟩ := q
  cases ps <;> cases qs <;> simp_all [lt] <;> omega

/-- The priority `remove` gives an entry before popping it: the greatest there is. -/
def top : Priority := ⟨true, 0⟩

theorem lt_top {p : Priority} (used : 1 ≤ p.frequency) : p.lt top := by
  obtain ⟨stale, frequency⟩ := p
  simp only at used
  cases stale with
  | false => simp [lt, top]
  | true => simp [lt, top]; omega

end Priority

/-- An item of the priority queue: the entry and its priority. -/
abbrev QueueItem (K V : Type) := CacheEntry K V × Priority

namespace QueueItem

variable {K V : Type}

/-- The key of a queue item. -/
def key (item : QueueItem K V) : K := item.1.key

/-- What `get_mut` does to the item it finds: one more use, and no longer about to go stale. -/
def touch (item : QueueItem K V) : QueueItem K V :=
  ({ item.1 with willStale := false }, { item.2 with frequency := item.2.frequency + 1 })

/-- What `insert` does to a present item: the new value with its weight. -/
def replace (weight : Nat) (value : V) (item : QueueItem K V) : QueueItem K V :=
  ({ item.1 with weight := weight, value := value }, item.2)

/-- What `remove` does to the item before popping it. -/
def promote (item : QueueItem K V) : QueueItem K V :=
  (item.1, Priority.top)

/-- What a staleness period does: an entry not used since the last one becomes stale, and
every entry is marked for the next one. -/
def age (item : QueueItem K V) : QueueItem K V :=
  ({ item.1 with willStale := true }, { item.2 with stale := item.1.willStale })

@[simp] theorem key_touch (item : QueueItem K V) : item.touch.key = item.key := rfl
@[simp] theorem key_replace (weight : Nat) (value : V) (item : QueueItem K V) :
    (item.replace weight value).key = item.key := rfl
@[simp] theorem key_promote (item : QueueItem K V) : item.promote.key = item.key := rfl
@[simp] theorem key_age (item : QueueItem K V) : item.age.key = item.key := rfl

end QueueItem

/-- The first item of greatest priority. -/
def greatest {K V : Type} : List (QueueItem K V) → Option (QueueItem K V)
  | [] => none
  | item :: rest =>
      match greatest rest with
      | none => some item
      | some best => if item.2.lt best.2 then some best else some item

/-- `LfuCache`. -/
structure LfuCache (K V : Type) where
  queue : List (QueueItem K V)
  totalWeight : Nat
  staleCounter : Nat

namespace LfuCache

variable {K V : Type} [DecidableEq K]

/-- `LfuCache::new`. -/
def new : LfuCache K V := ⟨[], 0, 0⟩

/-- `PriorityQueue::pop`: remove an item of greatest priority. -/
def pop (queue : List (QueueItem K V)) : Option (QueueItem K V × List (QueueItem K V)) :=
  (greatest queue).map fun item => (item, KeyedList.erase QueueItem.key queue item.key)

/-- `PriorityQueue::push`: for a key already queued the crate keeps the queued entry and only
takes the new priority; an item of any other key joins the queue at the end. -/
def push (queue : List (QueueItem K V)) (item : QueueItem K V) : List (QueueItem K V) :=
  match KeyedList.find QueueItem.key queue item.key with
  | none => queue ++ [item]
  | some _ => KeyedList.modify QueueItem.key queue item.key fun queued => (queued.1, item.2)

/-- `LfuCache::get_mut`: bump the frequency of the entry and clear its `will_stale` mark. -/
def getMut (cache : LfuCache K V) (key : K) : LfuCache K V × Option (CacheEntry K V) :=
  match KeyedList.find QueueItem.key cache.queue key with
  | none => (cache, none)
  | some item =>
      ({ cache with queue := KeyedList.modify QueueItem.key cache.queue key QueueItem.touch },
        some item.touch.1)

/-- `LfuCache::get`. -/
def get (cache : LfuCache K V) (key : K) : LfuCache K V × Option V :=
  let (cache, entry) := cache.getMut key
  (cache, entry.map CacheEntry.value)

/-- `LfuCache::insert`: update and bump the frequency of a present entry, or push a new one
with frequency one.  `none` is the panic of `total_weight -= old_weight` below zero. -/
def insert (weight : K → V → Nat) (cache : LfuCache K V) (key : K) (value : V) :
    Option (LfuCache K V) :=
  let entryWeight := weight key value
  match cache.getMut key with
  | (cache, none) =>
      some { cache with
          totalWeight := cache.totalWeight + entryWeight
          queue := cache.queue ++ [(⟨entryWeight, key, value, false⟩, ⟨false, 1⟩)] }
  | (cache, some entry) =>
      (Nat.psub' cache.totalWeight entry.weight).map fun totalWeight =>
        { cache with
            queue := KeyedList.modify QueueItem.key cache.queue key
              (QueueItem.replace entryWeight value)
            totalWeight := totalWeight + entryWeight }

/-- `LfuCache::remove`: give the entry the greatest priority and pop it.  `none` is the panic
of the `assert_eq!` when the popped entry has another key, or of `total_weight -= e.weight`
below zero. -/
def remove (cache : LfuCache K V) (key : K) : Option (LfuCache K V × Option V) :=
  match KeyedList.find QueueItem.key cache.queue key with
  | none => some (cache, none)
  | some _ =>
      let queue := KeyedList.modify QueueItem.key cache.queue key QueueItem.promote
      match pop queue with
      | none => some ({ cache with queue := queue }, none)
      | some ((entry, _), rest) =>
          if entry.key = key then
            (Nat.psub' cache.totalWeight entry.weight).map fun totalWeight =>
              ({ cache with queue := rest, totalWeight := totalWeight }, some entry.value)
          else none

/-- `LfuCache::contains_key`. -/
def containsKey (cache : LfuCache K V) (key : K) : Bool :=
  (KeyedList.find QueueItem.key cache.queue key).isSome

/-- The eviction loop: pop until the total weight is at most `maxWeight`.  `fuel` bounds the
pops, one per entry; `none` is the panic of `expect` on an empty queue, which is where the loop
is when the fuel has run out, or of `total_weight -= entry.weight` below zero. -/
def evictLoop (maxWeight : Nat) :
    Nat → List (QueueItem K V) → Nat → Nat → Option (List (QueueItem K V) × Nat × Nat)
  | 0, queue, total, evicted =>
      if total ≤ maxWeight then some (queue, total, evicted) else none
  | fuel + 1, queue, total, evicted =>
      if total ≤ maxWeight then some (queue, total, evicted)
      else
        match pop queue with
        | some ((entry, _), rest) =>
            (Nat.psub' total entry.weight).bind fun total =>
              evictLoop maxWeight fuel rest total (evicted + entry.weight)
        | none => none

/-- `LfuCache::evict_with_period`: every `stalePeriod` evictions the `will_stale` marks become
the stale flags, then entries are popped until the weight fits.  The result also carries what
the function returns: the evicted weight, the old and the new total weight. -/
def evictWithPeriod (cache : LfuCache K V) (maxWeight stalePeriod : Nat) :
    Option (LfuCache K V × Option (Nat × Nat × Nat)) :=
  if cache.totalWeight ≤ maxWeight then some (cache, none)
  else
    let counter := cache.staleCounter + 1
    let (counter, queue) :=
      if counter = stalePeriod then
        (0, cache.queue.map QueueItem.age)
      else (counter, cache.queue)
    (evictLoop maxWeight queue.length queue cache.totalWeight 0).map
      fun (queue, total, evicted) =>
        (⟨queue, total, counter⟩, some (evicted, cache.totalWeight, total))

/-- `STALE_PERIOD`. -/
def stalePeriod : Nat := 100

/-- `LfuCache::evict`. -/
def evict (cache : LfuCache K V) (maxWeight : Nat) :
    Option (LfuCache K V × Option (Nat × Nat × Nat)) :=
  cache.evictWithPeriod maxWeight stalePeriod

/-- `Extend for LfuCache`, which `EntityCache::extend` uses to merge the caches of `ipfs.map`
callbacks: the items are pushed into the queue one by one and `total_weight` is left as it
was. -/
def extend (cache : LfuCache K V) (items : List (QueueItem K V)) : LfuCache K V :=
  { cache with queue := items.foldl push cache.queue }

end LfuCache

end GraphNode
