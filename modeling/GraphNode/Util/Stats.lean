import GraphNode.Util.Backoff

/-!
# Moving statistics

`graph/src/util/stats.rs`.  `MovingStats` keeps the measurements of the last `window_size` in
bins of `bin_size`, oldest at the front, and a running `total` of the bins.  `add_at` starts a
new bin when the newest one is `bin_size` old, expires the bins that are `window_size` old,
subtracting each from the total with `Bin::remove`, and adds the measurement to the newest bin
and to the total.

An `Instant` is a count of nanoseconds of a monotonic clock, and `saturating_duration_since` the
truncated difference.  `Duration` arithmetic panics on overflow in every build ("overflow when
adding durations"); the `u32` counts panic with overflow checks and wrap without them, as the
flag `overflowChecks` chooses.  A panic is `none`.
-/

namespace GraphNode

namespace Duration

/-- `Duration::from_millis(0)`. -/
def zero : Duration :=
  ⟨0, Nat.zero_le _⟩

/-- `Duration + Duration`, which panics when the sum passes `Duration::MAX`. -/
def add (duration other : Duration) : Option Duration :=
  if fits : duration.nanos + other.nanos ≤ durationMax then some ⟨_, fits⟩ else none

/-- `Duration - Duration`, which panics below zero. -/
def sub (duration other : Duration) : Option Duration :=
  if other.nanos ≤ duration.nanos then
    some ⟨duration.nanos - other.nanos, Nat.le_trans (Nat.sub_le _ _) duration.le_max⟩
  else none

/-- `Duration::checked_mul` by a `u32`. -/
def checkedMul (duration : Duration) (factor : UInt32) : Option Duration :=
  if fits : duration.nanos * factor.toNat ≤ durationMax then some ⟨_, fits⟩ else none

theorem add_of_le {duration other : Duration} (fits : duration.nanos + other.nanos ≤ durationMax) :
    ∃ sum, duration.add other = some sum ∧ sum.nanos = duration.nanos + other.nanos :=
  ⟨_, dif_pos fits, rfl⟩

theorem add_eq_none {duration other : Duration}
    (overflow : durationMax < duration.nanos + other.nanos) : duration.add other = none :=
  dif_neg (Nat.not_le.mpr overflow)

theorem sub_of_le {duration other : Duration} (below : other.nanos ≤ duration.nanos) :
    ∃ difference, duration.sub other = some difference ∧
      difference.nanos = duration.nanos - other.nanos :=
  ⟨_, if_pos below, rfl⟩

end Duration

/-- `u32 += 1`: at `u32::MAX` it panics with overflow checks and wraps to 0 without them. -/
def incrementU32 (overflowChecks : Bool) (n : UInt32) : Option UInt32 :=
  if n.toNat + 1 < 2 ^ 32 ∨ overflowChecks = false then some (n + 1) else none

/-- `u32 -= u32`: below zero it panics with overflow checks and wraps without them. -/
def subU32 (overflowChecks : Bool) (n m : UInt32) : Option UInt32 :=
  if m.toNat ≤ n.toNat ∨ overflowChecks = false then some (n - m) else none

theorem incrementU32_of_lt (overflowChecks : Bool) {n : UInt32} (fits : n.toNat + 1 < 2 ^ 32) :
    ∃ m, incrementU32 overflowChecks n = some m ∧ m.toNat = n.toNat + 1 :=
  ⟨n + 1, if_pos (Or.inl fits), by rw [UInt32.toNat_add, UInt32.toNat_one, Nat.mod_eq_of_lt fits]⟩

theorem incrementU32_eq_none {n : UInt32} (overflow : 2 ^ 32 ≤ n.toNat + 1) :
    incrementU32 true n = none :=
  if_neg (by simp only [Bool.true_eq_false, or_false]; omega)

@[simp]
theorem incrementU32_false (n : UInt32) : incrementU32 false n = some (n + 1) :=
  if_pos (Or.inr rfl)

theorem subU32_of_le (overflowChecks : Bool) {n m : UInt32} (below : m.toNat ≤ n.toNat) :
    ∃ r, subU32 overflowChecks n m = some r ∧ r.toNat = n.toNat - m.toNat :=
  ⟨n - m, if_pos (Or.inl below), UInt32.toNat_sub_of_le _ _ (UInt32.le_iff_toNat_le.mpr below)⟩

/-- `Bin`: `count` measurements adding up to `duration`, since `start`. -/
structure Bin where
  start : Nat
  duration : Duration
  count : UInt32

namespace Bin

variable (overflowChecks : Bool)

/-- `Bin::new`. -/
def new (start : Nat) : Bin :=
  ⟨start, Duration.zero, 0⟩

/-- `Bin::add`. -/
def add (bin : Bin) (duration : Duration) : Option Bin := do
  let count ← incrementU32 overflowChecks bin.count
  let duration ← bin.duration.add duration
  pure { bin with count := count, duration := duration }

/-- `Bin::remove`. -/
def remove (bin other : Bin) : Option Bin := do
  let count ← subU32 overflowChecks bin.count other.count
  let duration ← bin.duration.sub other.duration
  pure { bin with count := count, duration := duration }

/-- `Bin::average_gt`: `duration * count < self.duration`, and `false` when the product
overflows. -/
def averageGt (bin : Bin) (duration : Duration) : Bool :=
  match duration.checkedMul bin.count with
  | some rhs => decide (rhs.nanos < bin.duration.nanos)
  | none => false

theorem add_of_fits {bin : Bin} {duration : Duration} (fitsCount : bin.count.toNat + 1 < 2 ^ 32)
    (fitsDuration : bin.duration.nanos + duration.nanos ≤ durationMax) :
    ∃ added, bin.add overflowChecks duration = some added ∧ added.start = bin.start ∧
      added.count.toNat = bin.count.toNat + 1 ∧
      added.duration.nanos = bin.duration.nanos + duration.nanos := by
  obtain ⟨count, incremented, countIs⟩ := incrementU32_of_lt overflowChecks fitsCount
  obtain ⟨sum, summed, sumIs⟩ := Duration.add_of_le fitsDuration
  exact ⟨{ bin with count := count, duration := sum }, by simp [add, incremented, summed], rfl,
    countIs, sumIs⟩

/-- With overflow checks, an add that overflows the count or the duration panics. -/
theorem add_eq_none {bin : Bin} {duration : Duration}
    (overflow : 2 ^ 32 ≤ bin.count.toNat + 1 ∨ durationMax < bin.duration.nanos + duration.nanos) :
    bin.add true duration = none := by
  rcases overflow with countOverflow | durationOverflow
  · simp [add, incrementU32_eq_none countOverflow]
  · simp [add, Duration.add_eq_none durationOverflow]

theorem remove_of_le {bin other : Bin} (fewer : other.count.toNat ≤ bin.count.toNat)
    (shorter : other.duration.nanos ≤ bin.duration.nanos) :
    ∃ removed, bin.remove overflowChecks other = some removed ∧ removed.start = bin.start ∧
      removed.count.toNat = bin.count.toNat - other.count.toNat ∧
      removed.duration.nanos = bin.duration.nanos - other.duration.nanos := by
  obtain ⟨count, subtracted, countIs⟩ := subU32_of_le overflowChecks fewer
  obtain ⟨difference, differenced, differenceIs⟩ := Duration.sub_of_le shorter
  exact ⟨{ bin with count := count, duration := difference },
    by simp [remove, subtracted, differenced], rfl, countIs, differenceIs⟩

/-- `average_gt` compares the total with the product whenever the product fits. -/
theorem averageGt_iff (bin : Bin) (duration : Duration) :
    bin.averageGt duration = true ↔
      duration.nanos * bin.count.toNat ≤ durationMax ∧
        duration.nanos * bin.count.toNat < bin.duration.nanos := by
  by_cases fits : duration.nanos * bin.count.toNat ≤ durationMax
  · have computed : duration.checkedMul bin.count = some ⟨_, fits⟩ := dif_pos fits
    simp [averageGt, computed, fits]
  · have computed : duration.checkedMul bin.count = none := dif_neg fits
    simp [averageGt, computed, fits]

end Bin

/-- `MovingStats`. -/
structure MovingStats where
  windowSize : Duration
  binSize : Duration
  /-- Oldest first. -/
  bins : List Bin
  total : Bin

namespace MovingStats

variable (overflowChecks : Bool)

/-- `MovingStats::new`, with `Instant::now()` as `now`: its three asserts, on the sizes in
milliseconds and on their order. -/
def new (windowSize binSize : Duration) (now : Nat) : Option MovingStats :=
  if windowSize.nanos / 1000000 > 0 ∧ binSize.nanos / 1000000 > 0 ∧
      windowSize.nanos > binSize.nanos then
    some ⟨windowSize, binSize, [], Bin.new now⟩
  else none

/-- `MovingStats::average_gt`. -/
def averageGt (stats : MovingStats) (duration : Duration) : Bool :=
  stats.total.averageGt duration

/-- The `need_new_bin` test of `add_at`: no bin yet, or the newest is `bin_size` old. -/
def needNewBin (stats : MovingStats) (now : Nat) : Bool :=
  (stats.bins.getLast?.map fun bin => decide (stats.binSize.nanos ≤ now - bin.start)).getD true

/-- The bins after the first step of `add_at`. -/
def pushBin (stats : MovingStats) (now : Nat) : List Bin :=
  if stats.needNewBin now then stats.bins ++ [Bin.new now] else stats.bins

/-- `MovingStats::expire_bins`: pop the front bin and remove it from the total while it is
`window_size` old. -/
def expireBins (windowSize : Duration) (now : Nat) : List Bin → Bin → Option (List Bin × Bin)
  | [], total => some ([], total)
  | existing :: rest, total =>
      if windowSize.nanos ≤ now - existing.start then
        (total.remove overflowChecks existing).bind (expireBins windowSize now rest)
      else some (existing :: rest, total)

/-- The last step of `add_at`: the measurement goes to the newest bin, whose `unwrap` panics
when there is none, and to the total. -/
def addToNewest (stats : MovingStats) (duration : Duration) : Option MovingStats := do
  let bin ← stats.bins.getLast?
  let bin ← bin.add overflowChecks duration
  let total ← stats.total.add overflowChecks duration
  pure { stats with bins := stats.bins.dropLast ++ [bin], total := total }

/-- `MovingStats::add_at`; `none` is a panic: an overflow in `Bin::add` or `Bin::remove`, or the
`unwrap` of the newest bin. -/
def addAt (stats : MovingStats) (now : Nat) (duration : Duration) : Option MovingStats := do
  let (bins, total) ← expireBins overflowChecks stats.windowSize now (stats.pushBin now) stats.total
  { stats with bins := bins, total := total }.addToNewest overflowChecks duration

/-- `add_at` for each `(now, duration)` in turn. -/
def addAll (stats : MovingStats) (calls : List (Nat × Duration)) : Option MovingStats :=
  calls.foldlM (fun stats call => stats.addAt overflowChecks call.1 call.2) stats

@[simp]
theorem addAll_nil (stats : MovingStats) : stats.addAll overflowChecks [] = some stats :=
  rfl

@[simp]
theorem addAll_cons (stats : MovingStats) (call : Nat × Duration) (calls : List (Nat × Duration)) :
    stats.addAll overflowChecks (call :: calls) =
      (stats.addAt overflowChecks call.1 call.2).bind fun next => next.addAll overflowChecks calls :=
  rfl

/-! ## The window invariant -/

/-- The sum of the counts of some bins. -/
def counts (bins : List Bin) : Nat :=
  (bins.map fun bin => bin.count.toNat).sum

/-- The sum of the durations of some bins, in nanoseconds. -/
def durations (bins : List Bin) : Nat :=
  (bins.map fun bin => bin.duration.nanos).sum

/-- The start times of some bins. -/
def starts (bins : List Bin) : List Nat :=
  bins.map Bin.start

@[simp] theorem counts_nil : counts [] = 0 := rfl
@[simp] theorem counts_cons (bin : Bin) (bins : List Bin) :
    counts (bin :: bins) = bin.count.toNat + counts bins := by simp [counts]
@[simp] theorem counts_append (front back : List Bin) :
    counts (front ++ back) = counts front + counts back := by simp [counts]
@[simp] theorem durations_nil : durations [] = 0 := rfl
@[simp] theorem durations_cons (bin : Bin) (bins : List Bin) :
    durations (bin :: bins) = bin.duration.nanos + durations bins := by simp [durations]
@[simp] theorem durations_append (front back : List Bin) :
    durations (front ++ back) = durations front + durations back := by simp [durations]
@[simp] theorem starts_cons (bin : Bin) (bins : List Bin) :
    starts (bin :: bins) = bin.start :: starts bins := rfl
@[simp] theorem starts_append (front back : List Bin) :
    starts (front ++ back) = starts front ++ starts back := List.map_append

theorem count_le_counts {bins : List Bin} {bin : Bin} (member : bin ∈ bins) :
    bin.count.toNat ≤ counts bins := by
  obtain ⟨front, back, rfl⟩ := List.append_of_mem member
  simp only [counts_append, counts_cons]
  omega

theorem duration_le_durations {bins : List Bin} {bin : Bin} (member : bin ∈ bins) :
    bin.duration.nanos ≤ durations bins := by
  obtain ⟨front, back, rfl⟩ := List.append_of_mem member
  simp only [durations_append, durations_cons]
  omega

/-- What holds after every `add_at` of a run whose latest `now` is `latest`: the total is the sum
of the bins, the bins start at least `bin_size` apart, oldest first, and none is `window_size`
old. -/
structure Window (stats : MovingStats) (latest : Nat) : Prop where
  sizes : 0 < stats.binSize.nanos ∧ stats.binSize.nanos < stats.windowSize.nanos
  count_eq : stats.total.count.toNat = counts stats.bins
  duration_eq : stats.total.duration.nanos = durations stats.bins
  spaced : (starts stats.bins).Pairwise fun earlier later => earlier + stats.binSize.nanos ≤ later
  recent : ∀ bin ∈ stats.bins, bin.start ≤ latest ∧ latest - bin.start < stats.windowSize.nanos

theorem window_new {windowSize binSize : Duration} {now : Nat} {stats : MovingStats}
    (created : new windowSize binSize now = some stats) (latest : Nat) : Window stats latest := by
  unfold new at created
  split at created
  · rename_i sizes
    cases created
    have positive : 0 < binSize.nanos := by omega
    exact ⟨⟨positive, sizes.2.2⟩, rfl, rfl, List.Pairwise.nil, by simp⟩
  · cases created

/-- The first step of `add_at`: a new bin, when there is none or the newest is old enough. -/
theorem pushBin_cases (stats : MovingStats) (now : Nat) :
    (stats.pushBin now = stats.bins ++ [Bin.new now] ∧
        ∀ back ∈ stats.bins.getLast?, stats.binSize.nanos ≤ now - back.start) ∨
      (stats.pushBin now = stats.bins ∧
        ∃ back ∈ stats.bins.getLast?, now - back.start < stats.binSize.nanos) := by
  unfold pushBin needNewBin
  cases last : stats.bins.getLast? with
  | none => simp
  | some back =>
      by_cases old : stats.binSize.nanos ≤ now - back.start
      · simp [old]
      · simp [old]
        omega

theorem counts_pushBin (stats : MovingStats) (now : Nat) :
    counts (stats.pushBin now) = counts stats.bins := by
  rcases pushBin_cases stats now with ⟨pushed, -⟩ | ⟨same, -⟩
  · simp [pushed, Bin.new]
  · rw [same]

theorem durations_pushBin (stats : MovingStats) (now : Nat) :
    durations (stats.pushBin now) = durations stats.bins := by
  rcases pushBin_cases stats now with ⟨pushed, -⟩ | ⟨same, -⟩
  · simp [pushed, Bin.new, Duration.zero]
  · rw [same]

/-- In a list of starts at least `gap` apart, every start is at most the last. -/
theorem le_last_of_spaced {gap : Nat} {starts : List Nat}
    (spaced : starts.Pairwise fun earlier later => earlier + gap ≤ later) {last : Nat}
    (isLast : starts.getLast? = some last) : ∀ start ∈ starts, start ≤ last := by
  obtain ⟨front, rfl⟩ := List.getLast?_eq_some_iff.mp isLast
  intro start member
  rcases List.mem_append.mp member with inFront | isLastStart
  · have apart := (List.pairwise_append.mp spaced).2.2 start inFront last (List.mem_singleton_self last)
    omega
  · rw [List.mem_singleton] at isLastStart
    omega

section Step

variable {stats : MovingStats} {latest now : Nat}

theorem spaced_pushBin (window : Window stats latest) :
    (starts (stats.pushBin now)).Pairwise fun earlier later => earlier + stats.binSize.nanos ≤ later := by
  rcases pushBin_cases stats now with ⟨pushed, old⟩ | ⟨same, -⟩
  · rw [pushed, starts_append]
    refine List.pairwise_append.mpr ⟨window.spaced, List.pairwise_singleton _ _, ?_⟩
    intro start member newStart isNew
    have newIs : newStart = now := by simpa [starts, Bin.new] using isNew
    cases last : stats.bins.getLast? with
    | none => simp [List.getLast?_eq_none_iff.mp last, starts] at member
    | some back =>
        have beforeBack := le_last_of_spaced window.spaced
          (by rw [starts, List.getLast?_map, last]; rfl) start member
        have oldEnough := old back last
        have positive := window.sizes.1
        rw [newIs]
        omega
  · rw [same]
    exact window.spaced

theorem start_le_of_mem_pushBin (window : Window stats latest) (later : latest ≤ now) :
    ∀ bin ∈ stats.pushBin now, bin.start ≤ now := by
  intro bin member
  rcases pushBin_cases stats now with ⟨pushed, -⟩ | ⟨same, -⟩
  · rw [pushed] at member
    rcases List.mem_append.mp member with old | isNew
    · exact le_trans (window.recent bin old).1 later
    · rw [List.mem_singleton] at isNew
      rw [isNew]
      exact le_refl _
  · rw [same] at member
    exact le_trans (window.recent bin member).1 later

/-- The newest bin after the first step is younger than `bin_size`. -/
theorem getLast?_pushBin (window : Window stats latest) :
    ∃ back ∈ (stats.pushBin now).getLast?, now - back.start < stats.binSize.nanos := by
  rcases pushBin_cases stats now with ⟨pushed, -⟩ | ⟨same, back, last, young⟩
  · refine ⟨Bin.new now, by simp [pushed], ?_⟩
    simp only [Bin.new, Nat.sub_self]
    exact window.sizes.1
  · exact ⟨back, by rw [same]; exact last, young⟩

end Step

/-- `expire_bins` drops a prefix of expired bins and stops at the first that is not, and
`Bin::remove` never underflows when the total is the sum of the bins. -/
theorem expireBins_spec (windowSize : Duration) (now : Nat) :
    ∀ (bins : List Bin) (total : Bin), total.count.toNat = counts bins →
      total.duration.nanos = durations bins →
      ∃ k remaining, expireBins overflowChecks windowSize now bins total =
          some (bins.drop k, remaining) ∧
        remaining.count.toNat = counts (bins.drop k) ∧
        remaining.duration.nanos = durations (bins.drop k) ∧
        (∀ bin ∈ bins.take k, windowSize.nanos ≤ now - bin.start) ∧
        ∀ front ∈ (bins.drop k).head?, now - front.start < windowSize.nanos := by
  intro bins
  induction bins with
  | nil => exact fun total countIs durationIs => ⟨0, total, rfl, countIs, durationIs, by simp, by simp⟩
  | cons existing rest induction =>
      intro total countIs durationIs
      rw [counts_cons] at countIs
      rw [durations_cons] at durationIs
      by_cases expired : windowSize.nanos ≤ now - existing.start
      · have fewer : existing.count.toNat ≤ total.count.toNat := by omega
        have shorter : existing.duration.nanos ≤ total.duration.nanos := by omega
        obtain ⟨removed, removing, -, removedCount, removedDuration⟩ :=
          Bin.remove_of_le overflowChecks fewer shorter
        obtain ⟨k, remaining, expiring, remainingCount, remainingDuration, gone, young⟩ :=
          induction removed (by omega) (by omega)
        refine ⟨k + 1, remaining, ?_, remainingCount, remainingDuration, ?_, young⟩
        · rw [expireBins, if_pos expired, removing, Option.bind_some, expiring, List.drop_succ_cons]
        · intro bin member
          rw [List.take_succ_cons, List.mem_cons] at member
          rcases member with rfl | later
          · exact expired
          · exact gone bin later
      · refine ⟨0, total, by rw [expireBins, if_neg expired]; rfl, by simp [countIs],
          by simp [durationIs], by simp, ?_⟩
        simp only [List.drop_zero, List.head?_cons, Option.mem_def, Option.some.injEq]
        rintro front rfl
        omega

/-- In bins that start at least `gap` apart, a front bin younger than the window makes all of
them younger. -/
theorem young_of_spaced {gap windowSize now : Nat} {bins : List Bin}
    (spaced : (starts bins).Pairwise fun earlier later => earlier + gap ≤ later)
    (frontYoung : ∀ front ∈ bins.head?, now - front.start < windowSize) :
    ∀ bin ∈ bins, now - bin.start < windowSize := by
  cases bins with
  | nil => simp
  | cons front rest =>
      have young := frontYoung front rfl
      intro bin member
      rcases List.mem_cons.mp member with rfl | later
      · exact young
      · have apart := List.rel_of_pairwise_cons spaced (List.mem_map_of_mem later)
        omega

section Step

variable {stats : MovingStats} {latest now : Nat}

/-- The first two steps of `add_at` keep the invariant at `now` and leave a newest bin. -/
theorem expire_pushBin (window : Window stats latest) (later : latest ≤ now) :
    ∃ bins total, expireBins overflowChecks stats.windowSize now (stats.pushBin now) stats.total =
        some (bins, total) ∧
      Window { stats with bins := bins, total := total } now ∧ bins ≠ [] := by
  obtain ⟨k, total, expiring, countIs, durationIs, expired, frontYoung⟩ :=
    expireBins_spec overflowChecks stats.windowSize now (stats.pushBin now) stats.total
      (by rw [counts_pushBin]; exact window.count_eq)
      (by rw [durations_pushBin]; exact window.duration_eq)
  obtain ⟨back, last, backYoung⟩ :
      ∃ back ∈ (stats.pushBin now).getLast?, now - back.start < stats.binSize.nanos :=
    getLast?_pushBin window
  have spacedPushed : (starts (stats.pushBin now)).Pairwise
      fun earlier later => earlier + stats.binSize.nanos ≤ later :=
    spaced_pushBin window
  have survives : k < (stats.pushBin now).length := by
    apply Nat.lt_of_not_le
    intro allGone
    have backMember : back ∈ (stats.pushBin now).take k := by
      rw [List.take_of_length_le allGone]
      exact List.mem_of_getLast? last
    have := expired back backMember
    have := window.sizes.2
    omega
  have spacedRest : (starts ((stats.pushBin now).drop k)).Pairwise
      fun earlier later => earlier + stats.binSize.nanos ≤ later := by
    rw [starts, List.map_drop]
    exact spacedPushed.sublist (List.drop_sublist _ _)
  refine ⟨_, total, expiring, ⟨window.sizes, countIs, durationIs, spacedRest, ?_⟩, ?_⟩
  · intro bin member
    exact ⟨start_le_of_mem_pushBin window later bin (List.mem_of_mem_drop member),
      young_of_spaced spacedRest frontYoung bin member⟩
  · rw [Ne, List.drop_eq_nil_iff]
    omega

end Step

/-- Replacing the newest bin changes the sum of the counts by the change of its count. -/
theorem counts_replaceLast {bins : List Bin} {back : Bin} (last : bins.getLast? = some back)
    (newer : Bin) :
    counts (bins.dropLast ++ [newer]) + back.count.toNat = counts bins + newer.count.toNat := by
  conv_rhs => rw [← List.dropLast_append_getLast? back last]
  simp only [counts_append, counts_cons, counts_nil]
  omega

theorem durations_replaceLast {bins : List Bin} {back : Bin} (last : bins.getLast? = some back)
    (newer : Bin) :
    durations (bins.dropLast ++ [newer]) + back.duration.nanos =
      durations bins + newer.duration.nanos := by
  conv_rhs => rw [← List.dropLast_append_getLast? back last]
  simp only [durations_append, durations_cons, durations_nil]
  omega

theorem starts_replaceLast {bins : List Bin} {back : Bin} (last : bins.getLast? = some back)
    {newer : Bin} (sameStart : newer.start = back.start) :
    starts (bins.dropLast ++ [newer]) = starts bins := by
  conv_rhs => rw [← List.dropLast_append_getLast? back last]
  simp [starts, sameStart]

section Step

variable {stats : MovingStats} {now : Nat}

/-- The measurement goes to the newest bin and to the total, and keeps the invariant, when the
total has room for it. -/
theorem addToNewest_of_fits (window : Window stats now) (nonempty : stats.bins ≠ [])
    {duration : Duration} (fitsCount : stats.total.count.toNat + 1 < 2 ^ 32)
    (fitsDuration : stats.total.duration.nanos + duration.nanos ≤ durationMax) :
    ∃ next, stats.addToNewest overflowChecks duration = some next ∧ Window next now := by
  obtain ⟨back, last⟩ := Option.isSome_iff_exists.mp (List.getLast?_isSome.mpr nonempty)
  have backMember := List.mem_of_getLast? last
  have backFewer := count_le_counts backMember
  have backShorter := duration_le_durations backMember
  rw [← window.count_eq] at backFewer
  rw [← window.duration_eq] at backShorter
  have backFits : back.count.toNat + 1 < 2 ^ 32 := by omega
  have backRoom : back.duration.nanos + duration.nanos ≤ durationMax := by omega
  obtain ⟨added, adding, addedStart, addedCount, addedDuration⟩ :=
    Bin.add_of_fits overflowChecks backFits backRoom
  obtain ⟨total, totalAdding, -, totalCount, totalDuration⟩ :=
    Bin.add_of_fits overflowChecks fitsCount fitsDuration
  refine ⟨{ stats with bins := stats.bins.dropLast ++ [added], total := total },
    by simp [addToNewest, last, adding, totalAdding], ?_⟩
  have counted := counts_replaceLast last added
  have timed := durations_replaceLast last added
  refine ⟨window.sizes, ?_, ?_, ?_, ?_⟩
  · show total.count.toNat = counts (stats.bins.dropLast ++ [added])
    rw [totalCount, window.count_eq]
    omega
  · show total.duration.nanos = durations (stats.bins.dropLast ++ [added])
    rw [totalDuration, window.duration_eq]
    omega
  · show (starts (stats.bins.dropLast ++ [added])).Pairwise _
    rw [starts_replaceLast last addedStart]
    exact window.spaced
  · intro bin member
    rcases List.mem_append.mp member with old | isAdded
    · exact window.recent bin (List.mem_of_mem_dropLast old)
    · rw [List.mem_singleton] at isAdded
      rw [isAdded, addedStart]
      exact window.recent back backMember

/-- With overflow checks, a measurement the total has no room for panics. -/
theorem addToNewest_eq_none {duration : Duration}
    (overflow : 2 ^ 32 ≤ stats.total.count.toNat + 1 ∨
      durationMax < stats.total.duration.nanos + duration.nanos) :
    stats.addToNewest true duration = none := by
  simp [addToNewest, Bin.add_eq_none overflow]

end Step

/-- The add of a measurement at `now` overflows: after the expiry the window's count is
`u32::MAX`, or its duration has no room for the measurement. -/
def Overflows (stats : MovingStats) (now : Nat) (duration : Duration) : Prop :=
  ∃ bins total, expireBins true stats.windowSize now (stats.pushBin now) stats.total =
      some (bins, total) ∧
    (2 ^ 32 ≤ total.count.toNat + 1 ∨ durationMax < total.duration.nanos + duration.nanos)

/-- One `add_at` with overflow checks, from the invariant and a later `now`: it panics exactly
when the measurement overflows the window, and otherwise keeps the invariant at `now`. -/
theorem addAt_spec {stats : MovingStats} {latest now : Nat} (window : Window stats latest)
    (later : latest ≤ now) (duration : Duration) :
    (stats.addAt true now duration = none ↔ Overflows stats now duration) ∧
      ∀ next, stats.addAt true now duration = some next → Window next now := by
  obtain ⟨bins, total, expiring, expiredWindow, nonempty⟩ := expire_pushBin true window later
  have unfolded : stats.addAt true now duration =
      { stats with bins := bins, total := total }.addToNewest true duration := by
    rw [addAt, expiring]
    rfl
  have overflowsIff : Overflows stats now duration ↔
      (2 ^ 32 ≤ total.count.toNat + 1 ∨ durationMax < total.duration.nanos + duration.nanos) := by
    constructor
    · rintro ⟨bins', total', expiring', overflow⟩
      rw [expiring, Option.some.injEq, Prod.mk.injEq] at expiring'
      rw [expiring'.2]
      exact overflow
    · exact fun overflow => ⟨bins, total, expiring, overflow⟩
  rw [unfolded, overflowsIff]
  by_cases fits : total.count.toNat + 1 < 2 ^ 32 ∧ total.duration.nanos + duration.nanos ≤ durationMax
  · obtain ⟨next, adding, nextWindow⟩ :=
      addToNewest_of_fits true expiredWindow nonempty fits.1 fits.2
    rw [adding]
    refine ⟨⟨fun done => (by cases done), fun overflow => (by omega)⟩, ?_⟩
    intro next' same
    cases same
    exact nextWindow
  · have overflow : 2 ^ 32 ≤ total.count.toNat + 1 ∨
        durationMax < total.duration.nanos + duration.nanos := by omega
    rw [addToNewest_eq_none overflow]
    exact ⟨⟨fun _ => overflow, fun _ => rfl⟩, fun _ done => by cases done⟩

/-- A run of `add_at` with overflow checks at non-decreasing times keeps the invariant after
every call, and panics only at a call whose measurement overflows the window. -/
theorem addAll_window {stats : MovingStats} {latest : Nat} (window : Window stats latest)
    (calls : List (Nat × Duration)) (ordered : (latest :: calls.map Prod.fst).IsChain (· ≤ ·)) :
    (∀ final, stats.addAll true calls = some final →
      Window final ((calls.map Prod.fst).getLast?.getD latest)) ∧
    (stats.addAll true calls = none → ∃ front now duration back reached,
      calls = front ++ (now, duration) :: back ∧ stats.addAll true front = some reached ∧
        Overflows reached now duration) := by
  induction calls generalizing stats latest with
  | nil =>
      refine ⟨fun final done => ?_, fun failed => by simp at failed⟩
      rw [addAll_nil, Option.some.injEq] at done
      rw [← done]
      exact window
  | cons call rest induction =>
      obtain ⟨now, duration⟩ := call
      have later : latest ≤ now := (List.isChain_cons_cons.mp ordered).1
      have orderedRest := (List.isChain_cons_cons.mp ordered).2
      obtain ⟨panics, keeps⟩ := addAt_spec window later duration
      rw [addAll_cons]
      cases step : stats.addAt true now duration with
      | none =>
          refine ⟨fun final done => by simp at done, fun _ => ?_⟩
          exact ⟨[], now, duration, rest, stats, rfl, rfl, panics.mp step⟩
      | some next =>
          obtain ⟨finalWindow, restPanics⟩ := induction (keeps next step) orderedRest
          rw [Option.bind_some]
          refine ⟨fun final done => ?_, fun failed => ?_⟩
          · simpa [List.getLast?_cons] using finalWindow final done
          · obtain ⟨front, now', duration', back, reached, split, reaching, overflows⟩ :=
              restPanics failed
            refine ⟨(now, duration) :: front, now', duration', back, reached, by rw [split]; rfl,
              ?_, overflows⟩
            rw [addAll_cons, step, Option.bind_some]
            exact reaching

/-- With overflow checks every run of `add_at` keeps the total the sum of a spaced, young window,
and panics only on an overflowing measurement. -/
theorem addAll_keeps_window {windowSize binSize : Duration} {start : Nat} {stats : MovingStats}
    (created : new windowSize binSize start = some stats) (calls : List (Nat × Duration))
    (ordered : (calls.map Prod.fst).IsChain (· ≤ ·)) :
    (∀ final, stats.addAll true calls = some final →
      Window final ((calls.map Prod.fst).getLast?.getD start) ∧
        ∀ duration, final.averageGt duration = true ↔
          duration.nanos * final.total.count.toNat ≤ durationMax ∧
            duration.nanos * final.total.count.toNat < final.total.duration.nanos) ∧
    (stats.addAll true calls = none → ∃ front now duration back reached,
      calls = front ++ (now, duration) :: back ∧ stats.addAll true front = some reached ∧
        Overflows reached now duration) := by
  have general : ∀ latest, (latest :: calls.map Prod.fst).IsChain (· ≤ ·) →
      (∀ final, stats.addAll true calls = some final →
        Window final ((calls.map Prod.fst).getLast?.getD latest)) ∧
      (stats.addAll true calls = none → ∃ front now duration back reached,
        calls = front ++ (now, duration) :: back ∧ stats.addAll true front = some reached ∧
          Overflows reached now duration) :=
    fun latest orderedFrom => addAll_window (window_new created latest) calls orderedFrom
  obtain ⟨keeps, panics⟩ : (∀ final, stats.addAll true calls = some final →
        Window final ((calls.map Prod.fst).getLast?.getD start)) ∧
      (stats.addAll true calls = none → ∃ front now duration back reached,
        calls = front ++ (now, duration) :: back ∧ stats.addAll true front = some reached ∧
          Overflows reached now duration) := by
    cases calls with
    | nil => exact general start (List.isChain_singleton start)
    | cons call rest =>
        have fromFirst := general call.1 (List.isChain_cons_cons.mpr ⟨le_refl _, ordered⟩)
        simpa [List.getLast?_cons] using fromFirst
  exact ⟨fun final done => ⟨keeps final done, fun duration => Bin.averageGt_iff _ _⟩, panics⟩

/-- One second, and five. -/
def oneSecond : Duration := ⟨1000000000, by decide⟩
def fiveSeconds : Duration := ⟨5000000000, by decide⟩

/-- Two measurements of one second, a second apart, in a window of five seconds. -/
theorem addAll_keeps_window_twoCalls :
    new fiveSeconds oneSecond 0 = some ⟨fiveSeconds, oneSecond, [], Bin.new 0⟩ ∧
      ([(0, oneSecond), (1000000000, oneSecond)].map Prod.fst).IsChain (· ≤ ·) ∧
      ((∀ final, (⟨fiveSeconds, oneSecond, [], Bin.new 0⟩ : MovingStats).addAll true
          [(0, oneSecond), (1000000000, oneSecond)] = some final →
        Window final (([(0, oneSecond), (1000000000, oneSecond)].map Prod.fst).getLast?.getD 0) ∧
          ∀ duration, final.averageGt duration = true ↔
            duration.nanos * final.total.count.toNat ≤ durationMax ∧
              duration.nanos * final.total.count.toNat < final.total.duration.nanos) ∧
      ((⟨fiveSeconds, oneSecond, [], Bin.new 0⟩ : MovingStats).addAll true
          [(0, oneSecond), (1000000000, oneSecond)] = none →
        ∃ front now duration back reached,
          [(0, oneSecond), (1000000000, oneSecond)] = front ++ (now, duration) :: back ∧
            (⟨fiveSeconds, oneSecond, [], Bin.new 0⟩ : MovingStats).addAll true front =
              some reached ∧ Overflows reached now duration)) :=
  ⟨rfl, by decide,
    addAll_keeps_window
      (rfl : new fiveSeconds oneSecond 0 = some ⟨fiveSeconds, oneSecond, [], Bin.new 0⟩) _
      (by decide)⟩

/-! ## Without overflow checks the count wraps -/

/-- One millisecond, and two. -/
def oneMilli : Duration := ⟨1000000, by decide⟩
def twoMillis : Duration := ⟨2000000, by decide⟩

/-- A window of two milliseconds in bins of one whose only bin, started at 0, holds `count`
measurements of zero. -/
def oneBin (count : UInt32) : MovingStats :=
  ⟨twoMillis, oneMilli, [⟨0, Duration.zero, count⟩], ⟨0, Duration.zero, count⟩⟩

theorem addAt_oneBin (count : UInt32) :
    (oneBin count).addAt false 0 Duration.zero = some (oneBin (count + 1)) := by
  have zeroSum : Duration.zero.add Duration.zero = some Duration.zero := dif_pos (Nat.zero_le _)
  simp [addAt, pushBin, needNewBin, expireBins, addToNewest, Bin.add, zeroSum, oneBin, oneMilli,
    twoMillis]

/-- Measurements at the start of the bin only raise its count, modulo `2^32` without overflow
checks. -/
theorem addAll_oneBin (count : UInt32) (n : Nat) :
    (oneBin count).addAll false (List.replicate n (0, Duration.zero)) =
      some (oneBin (count + UInt32.ofNat n)) := by
  induction n generalizing count with
  | zero => simp
  | succ n induction =>
      rw [List.replicate_succ, addAll_cons, addAt_oneBin, Option.bind_some, induction,
        UInt32.ofNat_add, UInt32.add_assoc, UInt32.add_comm 1]
      rfl

/-- Without overflow checks the total count wraps to 0 after `2^32` measurements, and
`Bin::remove` then takes more than the total holds. -/
theorem addAll_wraps_count :
    ∃ stats final, new twoMillis oneMilli 0 = some stats ∧
      stats.addAll false (List.replicate (2 ^ 32 - 1) (0, Duration.zero) ++
        [(1000000, Duration.zero)]) = some final ∧
      final.total.count.toNat ≠ counts final.bins ∧
      ∃ front ∈ final.bins.head?, twoMillis.nanos ≤ 2000000 - front.start ∧
        final.total.count.toNat < front.count.toNat := by
  have first : (⟨twoMillis, oneMilli, [], Bin.new 0⟩ : MovingStats).addAt false 0 Duration.zero =
      some (oneBin 1) := rfl
  have filled : (⟨twoMillis, oneMilli, [], Bin.new 0⟩ : MovingStats).addAll false
      (List.replicate (2 ^ 32 - 1) (0, Duration.zero)) = some (oneBin 4294967295) := by
    rw [show 2 ^ 32 - 1 = 4294967294 + 1 from rfl, List.replicate_succ, addAll_cons, first,
      Option.bind_some, addAll_oneBin]
    rfl
  refine ⟨_, ⟨twoMillis, oneMilli, [⟨0, Duration.zero, 4294967295⟩, ⟨1000000, Duration.zero, 1⟩],
    ⟨0, Duration.zero, 0⟩⟩, rfl, ?_, by decide, ⟨0, Duration.zero, 4294967295⟩, rfl,
    by decide, by decide⟩
  rw [addAll, List.foldlM_append, ← addAll, filled]
  rfl

end MovingStats

end GraphNode
