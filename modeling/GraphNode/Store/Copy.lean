import GraphNode.Library.MachineNumbers

/-!
# Copying a table in batches

`store/postgres/src/copy.rs`.  A table is copied in batches of consecutive vids, from
`next_vid` up to `target_vid`.  After each batch, `copy_batch` extrapolates the batch size from
the time the batch took so that a batch takes about `TARGET_DURATION`, at most doubling it:
`(2 * batch_size).min((batch_size as f64 * 300000 / elapsed_ms as f64).round() as i64)`.  The
`i64` arithmetic panics on overflow with overflow checks and wraps without them (the flag
`overflowChecks`); `f64` values are modelled exactly (`F64`).  The SQL that copies the rows and
records progress is left out; the loop of `copy_data_internal` is run on a given list of batch
times.

A batch slower than `600000` milliseconds for each vid of its batch size rounds the new batch
size to 0.  A batch of size 0 copies nothing, leaves `next_vid` where it is, and extrapolates
0 again, so the loop never ends (`copyTable_stalls`).
-/

namespace GraphNode

/-- `TARGET_DURATION`, in milliseconds. -/
def targetDurationMs : Nat := 5 * 60 * 1000

/-- `INITIAL_BATCH_SIZE`. -/
def initialBatchSize : Int := 10000

/-- `INITIAL_BATCH_SIZE_LIST`, for tables with a list column. -/
def initialBatchSizeList : Int := 100

/-- `TableState`, without the sites and tables its queries read. -/
structure TableState where
  nextVid : Int
  targetVid : Int
  batchSize : Int
  durationMs : Int
  deriving DecidableEq, Repr

namespace TableState

variable (overflowChecks : Bool)

/-- `TableState::init`, given the largest vid at the target block (`-1` for none). -/
def init (targetVid : Int) (hasListColumn : Bool) : TableState :=
  ⟨0, targetVid, if hasListColumn then initialBatchSizeList else initialBatchSize, 0⟩

/-- `TableState::finished`. -/
def finished (state : TableState) : Bool :=
  decide (state.targetVid < state.nextVid)

/-- `TableState::record_progress`: the batch's milliseconds are added to `duration_ms`, or
nothing where they do not fit in an `i64`. -/
def recordProgress (state : TableState) (elapsedMs : Nat) : Option TableState := do
  let elapsed : Int := if I64.Fits elapsedMs then elapsedMs else 0
  let durationMs ← I64.ofExact overflowChecks (state.durationMs + elapsed)
  pure { state with durationMs }

/-- The batch size `copy_batch` extrapolates from a batch of `batchSize` vids that took
`elapsedMs` milliseconds, before it is capped at twice the old size. -/
def extrapolate (batchSize : Int) (elapsedMs : Nat) : Int :=
  (F64.div (F64.mul (F64.ofInt batchSize) (F64.ofInt targetDurationMs))
    (F64.ofInt elapsedMs)).round.toInt 64

/-- `TableState::copy_batch` for a batch that takes `elapsedMs` milliseconds: the vids from
`next_vid` to `last_vid` are copied; the state after it and that range. -/
def copyBatch (state : TableState) (elapsedMs : Nat) : Option (TableState × Int × Int) := do
  let batchEnd ← I64.ofExact overflowChecks (state.nextVid + state.batchSize)
  let lastVid := min (← I64.ofExact overflowChecks (batchEnd - 1)) state.targetVid
  let nextVid ← I64.ofExact overflowChecks (lastVid + 1)
  let doubled ← I64.ofExact overflowChecks (2 * state.batchSize)
  let copied := { state with
    nextVid := nextVid
    batchSize := min doubled (extrapolate state.batchSize elapsedMs) }
  let recorded ← copied.recordProgress overflowChecks elapsedMs
  pure (recorded, state.nextVid, lastVid)

/-- The loop of `copy_data_internal` over one table: `copy_batch` while the table is not
finished, the batches taking the given times one after the other. -/
def copyTable : List Nat → TableState → Option TableState
  | [], state => some state
  | elapsedMs :: rest, state =>
      if state.finished then some state
      else do
        let (state, _) ← state.copyBatch overflowChecks elapsedMs
        copyTable rest state

/-- The last vid a batch copies, when nothing overflows. -/
def lastVid (state : TableState) : Int :=
  min (state.nextVid + state.batchSize - 1) state.targetVid

/-- The `i64` operations of `copy_batch` on the vids and the batch size do not overflow. -/
structure NoOverflow (state : TableState) : Prop where
  batchEnd : I64.Fits (state.nextVid + state.batchSize)
  last : I64.Fits (state.nextVid + state.batchSize - 1)
  next : I64.Fits (state.lastVid + 1)
  doubled : I64.Fits (2 * state.batchSize)

variable {overflowChecks}

/-! ## What a batch does -/

/-- `record_progress` only changes `duration_ms`. -/
theorem recordProgress_eq {state recorded : TableState} {elapsedMs : Nat}
    (records : state.recordProgress overflowChecks elapsedMs = some recorded) :
    recorded = { state with durationMs := recorded.durationMs } := by
  simp only [recordProgress, bind, Option.bind_eq_some_iff, pure, Option.some.injEq] at records
  obtain ⟨durationMs, -, rfl⟩ := records
  rfl

theorem recordProgress_of_fits {state : TableState} {elapsedMs : Nat}
    (fitsElapsed : I64.Fits elapsedMs) (fitsTotal : I64.Fits (state.durationMs + elapsedMs)) :
    state.recordProgress overflowChecks elapsedMs =
      some { state with durationMs := state.durationMs + elapsedMs } := by
  simp only [recordProgress, if_pos fitsElapsed, I64.ofExact_of_fits overflowChecks fitsTotal]
  rfl

/-- The spec of `copy_batch` when nothing overflows: the batch is copied, `next_vid` moves past
it, and the size is extrapolated. -/
theorem copyBatch_eq {state : TableState} (noOverflow : state.NoOverflow) (elapsedMs : Nat) :
    state.copyBatch overflowChecks elapsedMs =
      ({ state with
          nextVid := state.lastVid + 1
          batchSize := min (2 * state.batchSize) (extrapolate state.batchSize elapsedMs) }.recordProgress
        overflowChecks elapsedMs).map fun recorded => (recorded, state.nextVid, state.lastVid) := by
  have next := noOverflow.next
  unfold lastVid at next ⊢
  simp only [copyBatch, I64.ofExact_of_fits overflowChecks noOverflow.batchEnd,
    I64.ofExact_of_fits overflowChecks noOverflow.last, I64.ofExact_of_fits overflowChecks next,
    I64.ofExact_of_fits overflowChecks noOverflow.doubled, bind, Option.bind_some, pure,
    Option.map_eq_bind]
  rfl

/-- The extrapolated size of an empty batch is 0, however long it took. -/
theorem extrapolate_zero (elapsedMs : Nat) : extrapolate 0 elapsedMs = 0 := by
  rcases Nat.eq_zero_or_pos elapsedMs with rfl | positive
  · simp [extrapolate, F64.ofInt]
  · have nonzero : ((elapsedMs : Int) : ℚ) ≠ 0 := by exact_mod_cast positive.ne'
    have rounded : F64.roundHalfAway 0 = 0 := (F64.roundHalfAway_eq_iff le_rfl 0).mpr (by norm_num)
    rw [extrapolate, F64.ofInt, F64.ofInt, F64.ofInt, F64.mul_finite, F64.div_finite nonzero]
    simp only [Int.cast_zero, zero_mul, zero_div, F64.round, rounded]
    exact F64.toInt_finite_int (by norm_num) (by norm_num)

/-- For a batch that took some time, the extrapolation is `batch_size * 300000 / elapsed`,
rounded half away from zero. -/
theorem extrapolate_of_pos {batchSize n : Int} {elapsedMs : Nat} (positive : 0 < elapsedMs)
    (rounds : F64.roundHalfAway (batchSize * targetDurationMs / elapsedMs) = n)
    (low : -2 ^ 63 ≤ n) (high : n ≤ 2 ^ 63 - 1) : extrapolate batchSize elapsedMs = n := by
  have nonzero : ((elapsedMs : Int) : ℚ) ≠ 0 := by exact_mod_cast positive.ne'
  have casts : (batchSize : ℚ) * ((targetDurationMs : Int) : ℚ) / ((elapsedMs : Int) : ℚ) =
      batchSize * targetDurationMs / elapsedMs := by
    push_cast
    rfl
  rw [extrapolate, F64.ofInt, F64.ofInt, F64.ofInt, F64.mul_finite, F64.div_finite nonzero,
    F64.round, casts, rounds]
  exact F64.toInt_finite_int low high

/-- A batch that ends before the target, with nothing overflowing, copies `batch_size` vids. -/
theorem copyBatch_of_le {state : TableState} {elapsedMs : Nat} (started : 0 ≤ state.nextVid)
    (sized : 0 ≤ state.batchSize)
    (before : state.nextVid + state.batchSize - 1 ≤ state.targetVid)
    (fits : state.targetVid < I64.maxValue) (fitsDoubled : 2 * state.batchSize ≤ I64.maxValue)
    (fitsElapsed : I64.Fits elapsedMs) (fitsTotal : I64.Fits (state.durationMs + elapsedMs)) :
    state.copyBatch overflowChecks elapsedMs =
      some (⟨state.nextVid + state.batchSize, state.targetVid,
        min (2 * state.batchSize) (extrapolate state.batchSize elapsedMs),
        state.durationMs + elapsedMs⟩, state.nextVid, state.nextVid + state.batchSize - 1) := by
  have last : state.lastVid = state.nextVid + state.batchSize - 1 := min_eq_left before
  have fitsAt : ∀ n : Int, -1 ≤ n → n ≤ I64.maxValue → I64.Fits n := fun n low high =>
    ⟨by unfold I64.minValue; omega, high⟩
  have noOverflow : state.NoOverflow :=
    ⟨fitsAt _ (by omega) (by omega), fitsAt _ (by omega) (by omega),
      fitsAt _ (by omega) (by omega), fitsAt _ (by omega) fitsDoubled⟩
  have records : ({ state with
        nextVid := state.lastVid + 1
        batchSize := min (2 * state.batchSize) (extrapolate state.batchSize elapsedMs) } :
          TableState).recordProgress overflowChecks elapsedMs =
      some { state with
        nextVid := state.lastVid + 1
        batchSize := min (2 * state.batchSize) (extrapolate state.batchSize elapsedMs)
        durationMs := state.durationMs + elapsedMs } :=
    recordProgress_of_fits fitsElapsed fitsTotal
  rw [copyBatch_eq noOverflow, records, Option.map_some, last, Int.sub_add_cancel]

/-- Once the table is finished, the loop ends. -/
theorem copyTable_of_finished {state : TableState} (done : state.finished = true) :
    ∀ elapsed : List Nat, state.copyTable overflowChecks elapsed = some state
  | [] => rfl
  | _ :: _ => by rw [copyTable, if_pos done]

/-- One batch of the loop, on a table not yet finished. -/
theorem copyTable_cons {state next : TableState} {elapsedMs : Nat} {copied : Int × Int}
    (unfinished : state.finished = false)
    (copies : state.copyBatch overflowChecks elapsedMs = some (next, copied)) (rest : List Nat) :
    state.copyTable overflowChecks (elapsedMs :: rest) = next.copyTable overflowChecks rest := by
  rw [copyTable, unfinished]
  simp only [Bool.false_eq_true, if_false, copies, bind, Option.bind_some]

/-- Running the loop on two lists of batch times runs it on the first, then on the second. -/
theorem copyTable_append :
    ∀ (first second : List Nat) (state : TableState),
      state.copyTable overflowChecks (first ++ second) =
        (state.copyTable overflowChecks first).bind (copyTable overflowChecks second)
  | [], second, state => rfl
  | elapsedMs :: rest, second, state => by
      cases done : state.finished
      · cases copies : state.copyBatch overflowChecks elapsedMs with
        | none =>
            simp only [List.cons_append, copyTable, done, Bool.false_eq_true, if_false, copies,
              bind, Option.bind_none]
        | some result =>
            rw [List.cons_append, copyTable_cons done copies, copyTable_cons done copies,
              copyTable_append rest second]
      · rw [List.cons_append, copyTable_of_finished done, copyTable_of_finished done,
          Option.bind_some, copyTable_of_finished done]

/-! ## A batch of size 0 -/

/-- A batch of size 0 copies nothing: `next_vid` stays, and so does the batch size 0. -/
theorem copyBatch_of_zero {state next : TableState} {elapsedMs : Nat} {copied : Int × Int}
    (empty : state.batchSize = 0) (started : 0 ≤ state.nextVid)
    (within : state.nextVid ≤ state.targetVid) (fits : state.targetVid ≤ I64.maxValue)
    (copies : state.copyBatch overflowChecks elapsedMs = some (next, copied)) :
    next.nextVid = state.nextVid ∧ next.targetVid = state.targetVid ∧ next.batchSize = 0 := by
  have fitsAt : ∀ n : Int, -1 ≤ n → n ≤ state.targetVid → I64.Fits n := fun n low high =>
    ⟨by unfold I64.minValue; omega, by omega⟩
  have last : state.lastVid = state.nextVid - 1 := by
    unfold lastVid
    omega
  have noOverflow : state.NoOverflow :=
    ⟨fitsAt _ (by omega) (by omega), fitsAt _ (by omega) (by omega),
      fitsAt _ (by omega) (by omega), fitsAt _ (by omega) (by omega)⟩
  rw [copyBatch_eq noOverflow] at copies
  obtain ⟨recorded, records, answered⟩ := Option.map_eq_some_iff.mp copies
  obtain ⟨rfl, -⟩ := Prod.mk.inj answered
  rw [recordProgress_eq records, empty, extrapolate_zero, last]
  exact ⟨Int.sub_add_cancel _ _, rfl, rfl⟩

/-- The run lemma of a stalled table: once its batch size is 0, no run of the loop finishes
it, however long each batch takes. -/
theorem copyTable_of_zero :
    ∀ {elapsed : List Nat} {state final : TableState}, state.batchSize = 0 →
      0 ≤ state.nextVid → state.nextVid ≤ state.targetVid → state.targetVid ≤ I64.maxValue →
      state.copyTable overflowChecks elapsed = some final → final.finished = false
  | [], state, final, _, _, within, _, ran => by
      rw [copyTable, Option.some.injEq] at ran
      subst ran
      simpa [finished] using within
  | elapsedMs :: rest, state, final, empty, started, within, fits, ran => by
      have unfinished : state.finished = false := by simpa [finished] using within
      rw [copyTable, unfinished] at ran
      simp only [Bool.false_eq_true, if_false, bind, Option.bind_eq_some_iff] at ran
      obtain ⟨⟨next, copied⟩, copies, ranRest⟩ := ran
      obtain ⟨sameNext, sameTarget, stillEmpty⟩ :=
        copyBatch_of_zero empty started within fits copies
      exact copyTable_of_zero stillEmpty (sameNext ▸ started)
        (sameNext ▸ sameTarget ▸ within) (sameTarget ▸ fits) ranRest

/-! ## The loop that does not end -/

/-- Three slow batches take the batch size of a table with a list column to 0 at `next_vid = 111`,
and from there the copy never finishes. -/
theorem copyTable_stalls (overflowChecks : Bool) {targetVid : Int} (large : 111 ≤ targetVid)
    (fits : targetVid < I64.maxValue) :
    (init targetVid true).copyTable overflowChecks [3000000, 3000000, 600001] =
        some ⟨111, targetVid, 0, 6600001⟩ ∧
      ∀ (later : List Nat) (final : TableState),
        (init targetVid true).copyTable overflowChecks ([3000000, 3000000, 600001] ++ later) =
          some final → final.finished = false := by
  have fitsAt : ∀ n : Int, 0 ≤ n → n ≤ 10 ^ 8 → I64.Fits n := fun n low high =>
    ⟨by unfold I64.minValue; omega, by unfold I64.maxValue; omega⟩
  have unfinished : ∀ state : TableState, state.nextVid ≤ state.targetVid →
      state.finished = false := fun state within => by simpa [finished] using within
  -- the three batch sizes extrapolated: 100 * 300000 / 3000000, 10 * 300000 / 3000000 and
  -- 1 * 300000 / 600001, rounded
  have tenth : extrapolate 100 3000000 = 10 :=
    extrapolate_of_pos (by norm_num)
      ((F64.roundHalfAway_eq_iff (by positivity) 10).mpr (by norm_num [targetDurationMs]))
      (by norm_num) (by norm_num)
  have one : extrapolate 10 3000000 = 1 :=
    extrapolate_of_pos (by norm_num)
      ((F64.roundHalfAway_eq_iff (by positivity) 1).mpr (by norm_num [targetDurationMs]))
      (by norm_num) (by norm_num)
  have zero : extrapolate 1 600001 = 0 :=
    extrapolate_of_pos (by norm_num)
      ((F64.roundHalfAway_eq_iff (by positivity) 0).mpr (by norm_num [targetDurationMs]))
      (by norm_num) (by norm_num)
  have maxBound : (200 : Int) ≤ I64.maxValue := by norm_num [I64.maxValue]
  have first : (⟨0, targetVid, 100, 0⟩ : TableState).copyBatch overflowChecks 3000000 =
      some (⟨100, targetVid, 10, 3000000⟩, 0, 99) := by
    rw [copyBatch_of_le (by norm_num) (by norm_num) (by norm_num; omega) fits (by norm_num [maxBound])
      (fitsAt _ (by omega) (by omega)) (fitsAt _ (by norm_num) (by norm_num))]
    simp [tenth]
  have second : (⟨100, targetVid, 10, 3000000⟩ : TableState).copyBatch overflowChecks 3000000 =
      some (⟨110, targetVid, 1, 6000000⟩, 100, 109) := by
    rw [copyBatch_of_le (by norm_num) (by norm_num) (by norm_num; omega) fits
      (by norm_num; omega) (fitsAt _ (by omega) (by omega)) (fitsAt _ (by norm_num) (by norm_num))]
    simp [one]
  have third : (⟨110, targetVid, 1, 6000000⟩ : TableState).copyBatch overflowChecks 600001 =
      some (⟨111, targetVid, 0, 6600001⟩, 110, 110) := by
    rw [copyBatch_of_le (by norm_num) (by norm_num) (by norm_num; omega) fits
      (by norm_num; omega) (fitsAt _ (by omega) (by omega)) (fitsAt _ (by norm_num) (by norm_num))]
    simp [zero]
  have stalled : (init targetVid true).copyTable overflowChecks [3000000, 3000000, 600001] =
      some ⟨111, targetVid, 0, 6600001⟩ := by
    rw [show init targetVid true = ⟨0, targetVid, 100, 0⟩ from rfl,
      copyTable_cons (unfinished _ (by simp; omega)) first,
      copyTable_cons (unfinished _ (by simp; omega)) second,
      copyTable_cons (unfinished _ (by simp; omega)) third]
    rfl
  refine ⟨stalled, fun later final ran => ?_⟩
  rw [copyTable_append, stalled, Option.bind_some] at ran
  exact copyTable_of_zero rfl (by norm_num) (by simp; omega) fits.le ran

theorem copyTable_stalls_thousand :
    111 ≤ (1000 : Int) ∧ (1000 : Int) < I64.maxValue ∧
      (init 1000 true).copyTable true [3000000, 3000000, 600001] =
        some ⟨111, 1000, 0, 6600001⟩ ∧
      (init 1000 true).copyTable false [3000000, 3000000, 600001] =
        some ⟨111, 1000, 0, 6600001⟩ :=
  ⟨by decide, by unfold I64.maxValue; norm_num,
    (copyTable_stalls true (by decide) (by unfold I64.maxValue; norm_num)).1,
    (copyTable_stalls false (by decide) (by unfold I64.maxValue; norm_num)).1⟩

end TableState

end GraphNode
