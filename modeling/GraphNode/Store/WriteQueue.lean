import GraphNode.Store.Deployment

/-!
# The queue of the asynchronous writer

`WritableStore` with a `Queue` writer (`store/postgres/src/writable.rs`): the frontend pushes the
write of each block and each revert onto a queue, and a background task executes the request at
the front against the deployment, peeking at it and popping it only once it is written, so that
reads still see it while it is written.  A read looks through the queue from the newest request
to the oldest (`Queue::get`): a `BlockTracker` keeps the smallest block reverted to, up to which a
queued write stays visible, and the block at which the deployment is read for a key the queue
does not hold.

Whatever the interleaving of pushes and steps of the writer, a read through the queue of a valid
run answers what a `Sync` writer answers once every request pushed so far is written
(`Queue.get_eq_sync`).  The deployment is read at a block no queued request touches, executed or
not: a write changes the timeline from its block on and a revert from the block after the one it
reverts to, and the tracker's block is below both.

The stopwatch, the logger, the capacity of the queue, which only makes a push wait, and the
data sources and deterministic errors a write carries are left out.
-/

namespace GraphNode

/-- `Request`: a block to write, or a block to revert to, each with its cursor. -/
inductive Request where
  | write (blockPtr : Int) (firehoseCursor : Option String) (mods : List EntityModification)
  | revertTo (blockPtr : Int) (firehoseCursor : Option String)

namespace Request

/-- The operation a request asks of the deployment, without its cursor. -/
def operation : Request → Operation
  | .write blockPtr _ mods => .transact blockPtr mods
  | .revertTo blockPtr _ => .revert blockPtr

/-- `Request::execute`: `SyncStore::transact_block_operations` or
`SyncStore::revert_block_operations` on the deployment. -/
def execute (deployment : String) (state : DeploymentState) :
    Request → Option (Except StoreError DeploymentState)
  | .write blockPtr firehoseCursor mods =>
    state.transactBlockOperations deployment blockPtr firehoseCursor mods
  | .revertTo blockPtr firehoseCursor =>
    state.revertBlockOperations deployment blockPtr firehoseCursor

/-- The requests of a `Sync` writer (`Writer::write` and `Writer::revert`) in turn, up to the
first error or panic. -/
def runSync (deployment : String) : DeploymentState → List Request →
    Option (Except StoreError DeploymentState)
  | state, [] => some (.ok state)
  | state, request :: rest => (request.execute deployment state).bind fun result =>
      match result with
      | .ok state => runSync deployment state rest
      | .error error => some (.error error)

end Request

/-- `SyncStore::get`: `Layout::find` of the key's entity type and id, as of a block. -/
def DeploymentState.get (state : DeploymentState) (key : EntityKey) (block : Int) :
    Except StoreError (Option Entity) :=
  state.layout.find key.entityType key.entityId block

/-- `BlockTracker`: the smallest block reverted to, and the largest block no request seen so far
affects. -/
structure BlockTracker where
  revert : Int
  block : Int
  deriving DecidableEq, Repr

namespace BlockTracker

/-- `BlockTracker::new`. -/
def new : BlockTracker := ⟨blockNumberMax, blockNumberMax⟩

/-- `BlockTracker::update`: a write affects its block on, and a revert the blocks after the one
it reverts to. -/
def update (tracker : BlockTracker) : Request → BlockTracker
  | .write blockPtr _ _ => { tracker with block := min tracker.block (blockPtr - 1) }
  | .revertTo blockPtr _ => ⟨min tracker.revert blockPtr, min tracker.block blockPtr⟩

/-- `BlockTracker::query_block`. -/
def queryBlock (tracker : BlockTracker) : Int := tracker.block

/-- `BlockTracker::visible`: a write at the block is not reverted by a newer request. -/
def visible (tracker : BlockTracker) (blockPtr : Int) : Bool := decide (blockPtr ≤ tracker.revert)

end BlockTracker

/-- What the writer reports: the store's error of a request it failed to write, the panic of
one, and `StoreError::Poisoned` once it has failed. -/
inductive WriterError where
  | store (error : StoreError)
  | writerPanic
  | poisoned
  deriving DecidableEq, Repr

/-- `Queue` with its writer task: the deployment it writes to, the requests it holds, oldest
first, whether the writer has executed the one at the front and not yet popped it, the error it
recorded (`write_err`) and whether it is `poisoned`. -/
structure Queue where
  store : DeploymentState
  queue : List Request
  executed : Bool
  writeErr : Option WriterError
  poisoned : Bool

namespace Queue

/-- `Queue::start`: an empty queue over the deployment. -/
def start (store : DeploymentState) : Queue := ⟨store, [], false, none, false⟩

/-- `Queue::check_err`: the recorded error is reported once, and a poisoned queue reports
`Poisoned` after it. -/
def checkErr (queue : Queue) : Queue × Except WriterError Unit :=
  match queue.writeErr with
  | some error => ({ queue with writeErr := none }, .error error)
  | none => (queue, if queue.poisoned then .error .poisoned else .ok ())

/-- `Queue::push`. -/
def push (queue : Queue) (request : Request) : Queue × Except WriterError Unit :=
  match queue.checkErr with
  | (queue, .error error) => (queue, .error error)
  | (queue, .ok ()) => ({ queue with queue := queue.queue ++ [request] }, .ok ())

/-- `Queue::record_err`: the error is recorded, the queue poisoned and cleared. -/
def recordErr (queue : Queue) (error : WriterError) : Queue :=
  { queue with queue := [], executed := false, writeErr := some error, poisoned := true }

/-- One step of the loop of `start_writer`: execute the request at the front (`peek`), or pop it
once it is written.  A request that fails or panics is recorded, and the writer returns. -/
def writerStep (deployment : String) (queue : Queue) : Queue :=
  if queue.poisoned then queue
  else
    match queue.queue, queue.executed with
    | [], _ => queue
    | request :: _, false =>
      match request.execute deployment queue.store with
      | some (.ok store) => { queue with store, executed := true }
      | some (.error error) => queue.recordErr (.store error)
      | none => queue.recordErr .writerPanic
    | _ :: rest, true => { queue with queue := rest, executed := false }

/-- The closure `Queue::get` hands to `find_map`, over the requests from the newest to the
oldest: the tracker it updates, and what the first visible write of the key leaves of it. -/
def findMapWrite (key : EntityKey) : BlockTracker → List Request →
    Option (Option Entity) × BlockTracker
  | tracker, [] => (none, tracker)
  | tracker, request :: older =>
    let tracker := tracker.update request
    match request with
    | .write blockPtr _ mods =>
      if tracker.visible blockPtr then
        match KeyedList.find EntityModification.entityKey mods key with
        | some mod => (some mod.entity, tracker)
        | none => findMapWrite key tracker older
      else findMapWrite key tracker older
    | .revertTo _ _ => findMapWrite key tracker older

/-- `Queue::get`: the newest visible write of the key, or else the deployment at the tracker's
query block. -/
def get (queue : Queue) (key : EntityKey) : Except StoreError (Option Entity) :=
  match findMapWrite key BlockTracker.new queue.queue.reverse with
  | (some entity, _) => .ok entity
  | (none, tracker) => queue.store.get key tracker.queryBlock

/-- What happens next to a queue: the frontend pushes a request (`Writer::write`,
`Writer::revert`), or the writer takes a step. -/
inductive Action where
  | push (request : Request)
  | writer

/-- The actions in turn: the queue they leave and what each push returned. -/
def run (deployment : String) : Queue → List Action → Queue × List (Except WriterError Unit)
  | queue, [] => (queue, [])
  | queue, .push request :: actions =>
    let (queue, result) := queue.push request
    let (final, results) := run deployment queue actions
    (final, result :: results)
  | queue, .writer :: actions => run deployment (queue.writerStep deployment) actions

/-- The requests the actions push. -/
def pushes : List Action → List Request
  | [] => []
  | .push request :: actions => request :: pushes actions
  | .writer :: actions => pushes actions

end Queue

/-! ## What the requests leave -/

/-- The timeline of the entities and the head an operation leaves, as `ValidRun` reads them. -/
def Operation.after (written : (Int → EntityKey → Option Entity) × Int) :
    Operation → (Int → EntityKey → Option Entity) × Int
  | .transact block mods =>
    (Table.changeFrom written.1 block (applyModifications (written.1 written.2) mods), block)
  | .revert blockPtrTo => (fun t => written.1 (min t blockPtrTo), blockPtrTo)

/-- What operations in turn leave. -/
def Operation.afterAll (written : (Int → EntityKey → Option Entity) × Int)
    (operations : List Operation) : (Int → EntityKey → Option Entity) × Int :=
  operations.foldl Operation.after written

/-- A timeline settled at its head: the entities stay as they are at the head from there on. -/
def Settled (written : (Int → EntityKey → Option Entity) × Int) : Prop :=
  ∀ t, written.2 ≤ t → written.1 t = written.1 written.2

namespace Operation

variable {schema : String → Option Bool} {deployment : String} {graftBlock : Option Int}

@[simp] theorem afterAll_nil (written : (Int → EntityKey → Option Entity) × Int) :
    afterAll written [] = written := rfl

@[simp] theorem afterAll_cons (written : (Int → EntityKey → Option Entity) × Int)
    (operation : Operation) (operations : List Operation) :
    afterAll written (operation :: operations) = afterAll (after written operation) operations :=
  rfl

theorem afterAll_append (written : (Int → EntityKey → Option Entity) × Int)
    (operations more : List Operation) :
    afterAll written (operations ++ more) = afterAll (afterAll written operations) more :=
  List.foldl_append

/-- Every operation leaves a timeline settled at the head it leaves. -/
theorem settled_after (written : (Int → EntityKey → Option Entity) × Int)
    (operation : Operation) : Settled (after written operation) := by
  cases operation with
  | transact block mods =>
    intro t (reached : block ≤ t)
    simp [after, Table.changeFrom, not_lt.mpr reached]
  | revert blockPtrTo =>
    intro t (reached : blockPtrTo ≤ t)
    simp [after, min_eq_right reached]

theorem settled_afterAll {written : (Int → EntityKey → Option Entity) × Int}
    (settled : Settled written) (operations : List Operation) :
    Settled (afterAll written operations) := by
  induction operations generalizing written with
  | nil => exact settled
  | cons operation operations ih => exact ih (settled_after written operation)

/-- A valid run goes on validly from what its first operations leave. -/
theorem validRun_append : ∀ {timeline : Int → EntityKey → Option Entity} {head : Int}
    (operations more : List Operation),
    DeploymentState.ValidRun schema deployment graftBlock timeline head (operations ++ more) →
      DeploymentState.ValidRun schema deployment graftBlock (afterAll (timeline, head) operations).1
        (afterAll (timeline, head) operations).2 more
  | _, _, [], _, valid => valid
  | _, _, .transact _ _ :: operations, more, valid => validRun_append operations more valid.2.2.2
  | _, _, .revert _ :: operations, more, valid => validRun_append operations more valid.2.2

/-- A valid run is valid up to any point of it. -/
theorem validRun_of_append : ∀ {timeline : Int → EntityKey → Option Entity} {head : Int}
    (operations more : List Operation),
    DeploymentState.ValidRun schema deployment graftBlock timeline head (operations ++ more) →
      DeploymentState.ValidRun schema deployment graftBlock timeline head operations
  | _, _, [], _, _ => trivial
  | _, _, .transact _ _ :: operations, more, valid =>
    ⟨valid.1, valid.2.1, valid.2.2.1, validRun_of_append operations more valid.2.2.2⟩
  | _, _, .revert _ :: operations, more, valid =>
    ⟨valid.1, valid.2.1, validRun_of_append operations more valid.2.2⟩

/-- Operations whose writes are all after a block and whose reverts are all to it or later leave
the entities at the block as they were. -/
theorem afterAll_at {written : (Int → EntityKey → Option Entity) × Int} {t : Int}
    {operations : List Operation}
    (beforeWrites : ∀ block mods, Operation.transact block mods ∈ operations → t < block)
    (beforeReverts : ∀ blockPtrTo, Operation.revert blockPtrTo ∈ operations → t ≤ blockPtrTo) :
    (afterAll written operations).1 t = written.1 t := by
  induction operations generalizing written with
  | nil => rfl
  | cons operation operations ih =>
    rw [afterAll_cons, ih (fun block mods listed => beforeWrites block mods (.tail _ listed))
      (fun blockPtrTo listed => beforeReverts blockPtrTo (.tail _ listed))]
    cases operation with
    | transact block mods =>
      simp [after, Table.changeFrom, beforeWrites block mods (.head _)]
    | revert blockPtrTo =>
      simp [after, min_eq_left (beforeReverts blockPtrTo (.head _))]

end Operation

/-! ## The synchronous writer -/

section Sync

variable {schema : String → Option Bool} {deployment : String} {graftBlock : Option Int}
  {api : InterfaceSchema} {written : List EntityKey}

/-- Each operation of a valid run keeps the written keys unique in the timeline it leaves. -/
theorem InterfaceUnique.after {timeline : Int → EntityKey → Option Entity} {head : Int}
    (unique : InterfaceUnique api schema timeline written) {operation : Operation}
    (valid : DeploymentState.ValidRun schema deployment graftBlock timeline head [operation])
    (covered : ∀ key ∈ operation.writtenKeys, key ∈ written) :
    InterfaceUnique api schema (Operation.after (timeline, head) operation).1 written := by
  cases operation with
  | transact block mods => exact unique.changeFrom valid.2.2.1.distinct covered head block
  | revert blockPtrTo => exact unique.cut blockPtrTo

theorem InterfaceUnique.afterAll {operations : List Operation} :
    ∀ {timeline : Int → EntityKey → Option Entity} {head : Int},
      InterfaceUnique api schema timeline written →
      DeploymentState.ValidRun schema deployment graftBlock timeline head operations →
      (∀ operation ∈ operations, ∀ key ∈ operation.writtenKeys, key ∈ written) →
      InterfaceUnique api schema (Operation.afterAll (timeline, head) operations).1 written := by
  induction operations with
  | nil => exact fun unique _ _ => unique
  | cons operation operations ih =>
    intro timeline head unique valid covered
    exact ih (unique.after (Operation.validRun_of_append [operation] operations valid)
        (covered operation List.mem_cons_self))
      (Operation.validRun_append [operation] operations valid)
      (fun later member => covered later (.tail _ member))

variable {state : DeploymentState} {timeline : Int → EntityKey → Option Entity} {head : Int}

/-- The step lemma of the synchronous writer: a request valid on the tracked timeline is written,
and leaves the deployment tracking what its operation leaves. -/
theorem DeploymentState.Tracks.execute (tracks : state.Tracks deployment timeline head)
    {request : Request}
    (valid : DeploymentState.ValidRun state.layout.schema deployment state.graftBlock timeline head
      [request.operation])
    (unique : InterfaceUnique state.api state.layout.schema timeline written)
    (covered : ∀ key ∈ request.operation.writtenKeys, key ∈ written) :
    ∃ state', request.execute deployment state = some (.ok state') ∧
      state'.Tracks deployment (Operation.after (timeline, head) request.operation).1
        (Operation.after (timeline, head) request.operation).2 ∧
      state'.layout.schema = state.layout.schema ∧ state'.graftBlock = state.graftBlock ∧
        state'.api = state.api := by
  cases request with
  | write block firehoseCursor mods =>
    obtain ⟨advanced, belowMax, validBlock, -⟩ := valid
    exact tracks.transactBlockOperations advanced belowMax validBlock unique covered firehoseCursor
  | revertTo blockPtrTo firehoseCursor =>
    obtain ⟨last, grafted, -⟩ := valid
    exact tracks.revertBlockOperations last grafted firehoseCursor

/-- The run lemma of the synchronous writer, by induction on the requests. -/
theorem DeploymentState.Tracks.runSync (tracks : state.Tracks deployment timeline head)
    {requests : List Request}
    (valid : DeploymentState.ValidRun state.layout.schema deployment state.graftBlock timeline head
      (requests.map Request.operation))
    (unique : InterfaceUnique state.api state.layout.schema timeline written)
    (covered : ∀ request ∈ requests, ∀ key ∈ request.operation.writtenKeys, key ∈ written) :
    ∃ synced, Request.runSync deployment state requests = some (.ok synced) ∧
      synced.Tracks deployment
        (Operation.afterAll (timeline, head) (requests.map Request.operation)).1
        (Operation.afterAll (timeline, head) (requests.map Request.operation)).2 ∧
      synced.layout.schema = state.layout.schema := by
  induction requests generalizing state timeline head with
  | nil => exact ⟨state, rfl, tracks, rfl⟩
  | cons request requests ih =>
    have first := Operation.validRun_of_append [request.operation] _ valid
    obtain ⟨state', executed, tracks', schema, graft, api⟩ :=
      tracks.execute first unique (covered request List.mem_cons_self)
    obtain ⟨synced, ran, syncedTracks, syncedSchema⟩ := ih tracks'
      (by rw [schema, graft]; exact Operation.validRun_append [request.operation] _ valid)
      (by rw [schema, api]; exact unique.after first (covered request List.mem_cons_self))
      (fun later member => covered later (.tail _ member))
    exact ⟨synced, by simp [Request.runSync, executed, ran], syncedTracks,
      syncedSchema.trans schema⟩

end Sync

/-! ## The scan of `Queue::get` -/

namespace BlockTracker

/-- After the requests, the tracker's block is at most where it was, before the block of every
write and at most the block of every revert. -/
theorem foldl_update_block (tracker : BlockTracker) (requests : List Request) :
    (requests.foldl update tracker).block ≤ tracker.block ∧
      (∀ blockPtr firehoseCursor mods, Request.write blockPtr firehoseCursor mods ∈ requests →
        (requests.foldl update tracker).block < blockPtr) ∧
      ∀ blockPtr firehoseCursor, Request.revertTo blockPtr firehoseCursor ∈ requests →
        (requests.foldl update tracker).block ≤ blockPtr := by
  induction requests generalizing tracker with
  | nil => exact ⟨le_refl _, nofun, nofun⟩
  | cons request requests ih =>
    obtain ⟨lower, writes, reverts⟩ := ih (tracker.update request)
    have first : (tracker.update request).block ≤ tracker.block := by
      cases request <;> simp [update]
    refine ⟨lower.trans first, fun blockPtr firehoseCursor mods listed => ?_,
      fun blockPtr firehoseCursor listed => ?_⟩
    · rcases List.mem_cons.mp listed with rfl | later
      · have : (tracker.update (.write blockPtr firehoseCursor mods)).block ≤ blockPtr - 1 := by
          simp [update]
        simp only [List.foldl_cons]
        omega
      · exact writes _ _ _ later
    · rcases List.mem_cons.mp listed with rfl | later
      · have : (tracker.update (.revertTo blockPtr firehoseCursor)).block ≤ blockPtr := by
          simp [update]
        simp only [List.foldl_cons]
        omega
      · exact reverts _ _ later

end BlockTracker

namespace Queue

variable {key : EntityKey}

/-- The scan goes on from the newer requests to the older ones with the tracker where the newer
ones left it. -/
theorem findMapWrite_append (tracker : BlockTracker) (newer older : List Request) :
    findMapWrite key tracker (newer ++ older) =
      match findMapWrite key tracker newer with
      | (some entity, tracker) => (some entity, tracker)
      | (none, tracker) => findMapWrite key tracker older := by
  induction newer generalizing tracker with
  | nil => rfl
  | cons request newer ih =>
    cases request with
    | write blockPtr firehoseCursor mods =>
      simp only [List.cons_append, findMapWrite]
      split
      · split
        · rfl
        · exact ih _
      · exact ih _
    | revertTo blockPtr firehoseCursor => exact ih _

/-- A scan that finds nothing ends with the tracker updated by every request. -/
theorem findMapWrite_none {tracker tracker' : BlockTracker} {requests : List Request}
    (scanned : findMapWrite key tracker requests = (none, tracker')) :
    tracker' = requests.foldl BlockTracker.update tracker := by
  induction requests generalizing tracker with
  | nil => exact (Prod.mk.inj scanned).2.symm
  | cons request requests ih =>
    cases request with
    | write blockPtr firehoseCursor mods =>
      simp only [findMapWrite] at scanned
      split at scanned
      · split at scanned
        · cases scanned
        · exact ih scanned
      · exact ih scanned
    | revertTo blockPtr firehoseCursor => exact ih scanned

variable {timeline : Int → EntityKey → Option Entity} {head : Int}
  {found : Option (Option Entity)} {tracker tracker' : BlockTracker}

/-- The step lemma of the scan at a write past the head. -/
theorem findMapWrite_write (settled : Settled (timeline, head)) {block : Int}
    {firehoseCursor : Option String} {mods : List EntityModification} (advanced : head < block)
    (distinct : (mods.map EntityModification.entityKey).Nodup)
    (below : tracker.block ≤ tracker.revert) (reaches : min tracker.revert block ≤ tracker.block)
    (scanned : findMapWrite key tracker [.write block firehoseCursor mods] = (found, tracker')) :
    found.getD (timeline tracker'.block key) =
        Table.changeFrom timeline block (applyModifications (timeline head) mods)
          tracker.block key ∧
      (found = none → tracker'.block ≤ tracker'.revert ∧ min tracker'.revert head ≤ tracker'.block) := by
  have applied := applyModifications_eq_find distinct (timeline head) key
  simp only [findMapWrite, BlockTracker.update, BlockTracker.visible] at scanned
  by_cases visible : block ≤ tracker.revert
  · cases written : KeyedList.find EntityModification.entityKey mods key with
    | some mod =>
      simp only [visible, written] at scanned
      obtain ⟨rfl, rfl⟩ := scanned
      have past : ¬tracker.block < block := by omega
      simp [Table.changeFrom, past, applied, written]
    | none =>
      simp only [visible, written] at scanned
      obtain ⟨rfl, rfl⟩ := scanned
      refine ⟨?_, fun _ => ⟨by simp only; omega, by simp only; omega⟩⟩
      by_cases before : tracker.block < block
      · simp [Table.changeFrom, before]
      · have atHead := congrFun (settled (block - 1) (by simp only; omega)) key
        simp only at atHead
        simp [Table.changeFrom, before, applied, written,
          min_eq_right (by omega : block - 1 ≤ tracker.block), atHead]
  · -- a newer revert undoes the write, and the tracker's block is before it
    simp only [visible] at scanned
    obtain ⟨rfl, rfl⟩ := scanned
    have before : tracker.block < block := by omega
    refine ⟨?_, fun _ => ⟨by simp only; omega, by simp only; omega⟩⟩
    simp [Table.changeFrom, before]

/-- The step lemma of the scan for a revert: it finds nothing, and the timeline at the block the
scan ends at is what the revert leaves at the tracker's block. -/
theorem findMapWrite_revertTo {blockPtrTo : Int} {firehoseCursor : Option String}
    (back : blockPtrTo < head) (below : tracker.block ≤ tracker.revert)
    (reaches : min tracker.revert blockPtrTo ≤ tracker.block)
    (scanned : findMapWrite key tracker [.revertTo blockPtrTo firehoseCursor] = (found, tracker')) :
    found.getD (timeline tracker'.block key) = timeline (min tracker.block blockPtrTo) key ∧
      (found = none → tracker'.block ≤ tracker'.revert ∧ min tracker'.revert head ≤ tracker'.block) := by
  simp only [findMapWrite, BlockTracker.update, Prod.mk.injEq] at scanned
  obtain ⟨rfl, rfl⟩ := scanned
  exact ⟨rfl, fun _ => ⟨by simp only; omega, by simp only; omega⟩⟩

/-- The step lemma of the scan, one case per request. -/
theorem findMapWrite_step {schema : String → Option Bool} {deployment : String}
    {graftBlock : Option Int} {written : (Int → EntityKey → Option Entity) × Int}
    (settled : Settled written) {request : Request}
    (valid : DeploymentState.ValidRun schema deployment graftBlock written.1 written.2
      [request.operation])
    (below : tracker.block ≤ tracker.revert)
    (reaches : min tracker.revert (Operation.after written request.operation).2 ≤ tracker.block)
    (scanned : findMapWrite key tracker [request] = (found, tracker')) :
    found.getD (written.1 tracker'.block key) =
        (Operation.after written request.operation).1 tracker.block key ∧
      (found = none →
        tracker'.block ≤ tracker'.revert ∧ min tracker'.revert written.2 ≤ tracker'.block) := by
  cases request with
  | write block firehoseCursor mods =>
    exact findMapWrite_write settled valid.1 valid.2.2.1.distinct below reaches scanned
  | revertTo blockPtrTo firehoseCursor =>
    have back : blockPtrTo < written.2 := by
      have last := valid.1
      omega
    exact findMapWrite_revertTo back below reaches scanned

variable (key) in
/-- The run lemma of the scan, by induction on the requests from the newest. -/
theorem findMapWrite_spec {schema : String → Option Bool} {deployment : String}
    {graftBlock : Option Int} {written : (Int → EntityKey → Option Entity) × Int}
    (settled : Settled written) {requests : List Request}
    (valid : DeploymentState.ValidRun schema deployment graftBlock written.1 written.2
      (requests.map Request.operation)) :
    ∀ {tracker : BlockTracker}, tracker.block ≤ tracker.revert →
      min tracker.revert (Operation.afterAll written (requests.map Request.operation)).2 ≤
        tracker.block →
      (findMapWrite key tracker requests.reverse).1.getD
          (written.1 (findMapWrite key tracker requests.reverse).2.block key) =
        (Operation.afterAll written (requests.map Request.operation)).1 tracker.block key := by
  induction requests using List.reverseRecOn with
  | nil => exact fun _ _ => rfl
  | append_singleton older newest ih =>
    intro tracker below reaches
    rw [List.map_append, List.map_singleton] at valid reaches ⊢
    rw [Operation.afterAll_append] at reaches ⊢
    have olderValid := Operation.validRun_of_append _ _ valid
    have newestValid := Operation.validRun_append _ _ valid
    rw [List.reverse_append, List.reverse_singleton, List.singleton_append,
      show newest :: older.reverse = [newest] ++ older.reverse from rfl, findMapWrite_append]
    rcases scanned : findMapWrite key tracker [newest] with ⟨found, tracker'⟩
    obtain ⟨stepped, continues⟩ := findMapWrite_step
      (Operation.settled_afterAll settled _) newestValid below reaches scanned
    cases found with
    | some entity => exact stepped
    | none =>
      obtain ⟨below', reaches'⟩ := continues rfl
      exact (ih olderValid below' reaches').trans stepped

/-- A scan that finds nothing ends at a block that no request it went through changes. -/
theorem findMapWrite_none_at {written : (Int → EntityKey → Option Entity) × Int}
    {requests done : List Request} (executed : ∀ request ∈ done, request ∈ requests)
    (scanned : findMapWrite key BlockTracker.new requests.reverse = (none, tracker')) :
    (Operation.afterAll written (done.map Request.operation)).1 tracker'.block =
      written.1 tracker'.block := by
  obtain ⟨-, writes, reverts⟩ := BlockTracker.foldl_update_block BlockTracker.new requests.reverse
  rw [← findMapWrite_none scanned] at writes reverts
  apply Operation.afterAll_at
  · intro block mods listed
    obtain ⟨request, member, same⟩ := List.mem_map.mp listed
    cases request with
    | write blockPtr firehoseCursor =>
      cases same
      exact writes _ firehoseCursor _ (List.mem_reverse.mpr (executed _ member))
    | revertTo => cases same
  · intro blockPtrTo listed
    obtain ⟨request, member, same⟩ := List.mem_map.mp listed
    cases request with
    | write => cases same
    | revertTo blockPtr firehoseCursor =>
      cases same
      exact reverts _ firehoseCursor (List.mem_reverse.mpr (executed _ member))

/-! ## The writer task -/

/-- What the writer has made of the requests pushed so far: it never failed, it popped the oldest
of them and holds the others in order, and the deployment tracks what the popped ones leave, the
front one with them once it is executed. -/
structure Writes (deployment : String) (origin : DeploymentState)
    (timeline : Int → EntityKey → Option Entity) (head : Int) (requests : List Request)
    (queue : Queue) : Prop where
  writeErr : queue.writeErr = none
  poisoned : queue.poisoned = false
  executed : queue.executed = true → queue.queue ≠ []
  served : ∃ popped, requests = popped ++ queue.queue ∧
    queue.store.Tracks deployment
      (Operation.afterAll (timeline, head)
        ((popped ++ queue.queue.take (if queue.executed then 1 else 0)).map Request.operation)).1
      (Operation.afterAll (timeline, head)
        ((popped ++ queue.queue.take (if queue.executed then 1 else 0)).map Request.operation)).2
  schema : queue.store.layout.schema = origin.layout.schema
  graftBlock : queue.store.graftBlock = origin.graftBlock
  api : queue.store.api = origin.api

namespace Writes

variable {deployment : String} {origin : DeploymentState}
  {timeline : Int → EntityKey → Option Entity} {head : Int} {requests : List Request}
  {queue : Queue} {written : List EntityKey}

theorem start (tracks : origin.Tracks deployment timeline head) :
    Writes deployment origin timeline head [] (Queue.start origin) :=
  ⟨rfl, rfl, nofun, ⟨[], rfl, tracks⟩, rfl, rfl, rfl⟩

/-- The step lemma of a push: the request joins the queue and the push returns `Ok`. -/
theorem push (writes : Writes deployment origin timeline head requests queue) (request : Request) :
    Writes deployment origin timeline head (requests ++ [request]) (queue.push request).1 ∧
      (queue.push request).2 = .ok () := by
  have pushed : queue.push request = ({ queue with queue := queue.queue ++ [request] }, .ok ()) := by
    simp [Queue.push, Queue.checkErr, writes.writeErr, writes.poisoned]
  obtain ⟨popped, split, tracks⟩ := writes.served
  have kept : (queue.queue ++ [request]).take (if queue.executed then 1 else 0) =
      queue.queue.take (if queue.executed then 1 else 0) := by
    cases executed : queue.executed with
    | false => rfl
    | true =>
      obtain ⟨front, rest, queued⟩ := List.exists_cons_of_ne_nil (writes.executed executed)
      rw [queued]
      rfl
  rw [pushed]
  exact ⟨⟨writes.writeErr, writes.poisoned, fun _ => by simp,
    ⟨popped, by rw [split, List.append_assoc], by simpa only [kept] using tracks⟩,
    writes.schema, writes.graftBlock, writes.api⟩, rfl⟩

/-- The step lemma of the writer: on requests that make a valid run, the request at the front is
executed without error, or popped once it is. -/
theorem writerStep (writes : Writes deployment origin timeline head requests queue)
    (valid : DeploymentState.ValidRun origin.layout.schema deployment origin.graftBlock timeline
      head (requests.map Request.operation))
    (unique : InterfaceUnique origin.api origin.layout.schema timeline written)
    (covered : ∀ request ∈ requests, ∀ key ∈ request.operation.writtenKeys, key ∈ written) :
    Writes deployment origin timeline head requests (queue.writerStep deployment) := by
  obtain ⟨popped, split, tracks⟩ := writes.served
  have healthy : queue.poisoned ≠ true := by simp [writes.poisoned]
  unfold Queue.writerStep
  rw [if_neg healthy]
  rcases queued : queue.queue with _ | ⟨request, rest⟩
  · exact writes
  rw [queued] at split tracks
  cases executed : queue.executed with
  | false =>
    rw [executed] at tracks
    simp only [Bool.false_eq_true, if_false, List.take_zero, List.append_nil] at tracks
    rw [split, List.map_append] at valid
    have pending := Operation.validRun_append _ _ valid
    have first := Operation.validRun_of_append [request.operation] _ pending
    have poppedUnique := unique.afterAll (Operation.validRun_of_append _ _ valid)
      fun operation listed => by
        obtain ⟨later, member, rfl⟩ := List.mem_map.mp listed
        exact covered later (by rw [split]; exact List.mem_append_left _ member)
    rw [← writes.schema, ← writes.graftBlock] at first
    rw [← writes.schema, ← writes.api] at poppedUnique
    obtain ⟨store', stepped, tracks', schema', graft', api'⟩ := tracks.execute first poppedUnique
      (covered request (by rw [split]; exact List.mem_append_right _ List.mem_cons_self))
    simp only [stepped]
    refine ⟨writes.writeErr, writes.poisoned, fun _ => List.cons_ne_nil _ _, ⟨popped, split, ?_⟩,
      schema'.trans writes.schema, graft'.trans writes.graftBlock, api'.trans writes.api⟩
    simpa [List.map_append, Operation.afterAll_append] using tracks'
  | true =>
    rw [executed] at tracks
    refine ⟨writes.writeErr, writes.poisoned, nofun, ⟨popped ++ [request], ?_, ?_⟩,
      writes.schema, writes.graftBlock, writes.api⟩
    · rw [split, List.append_assoc, List.singleton_append]
    · simpa using tracks

/-- The run lemma of the writer task, by induction on the actions: whatever the interleaving, on
requests that make a valid run every push returns `Ok` and the writer never fails. -/
theorem run (writes : Writes deployment origin timeline head requests queue)
    {actions : List Action}
    (valid : DeploymentState.ValidRun origin.layout.schema deployment origin.graftBlock timeline
      head ((requests ++ Queue.pushes actions).map Request.operation))
    (unique : InterfaceUnique origin.api origin.layout.schema timeline written)
    (covered : ∀ request ∈ requests ++ Queue.pushes actions, ∀ key ∈ request.operation.writtenKeys,
      key ∈ written) :
    Writes deployment origin timeline head (requests ++ Queue.pushes actions)
        (Queue.run deployment queue actions).1 ∧
      ∀ result ∈ (Queue.run deployment queue actions).2, result = .ok () := by
  induction actions generalizing requests queue with
  | nil => simpa [Queue.pushes, Queue.run] using writes
  | cons action actions ih =>
    cases action with
    | push request =>
      obtain ⟨pushedWrites, pushedOk⟩ := writes.push request
      have shifted : requests ++ Queue.pushes (.push request :: actions) =
          requests ++ [request] ++ Queue.pushes actions := by
        simp [Queue.pushes]
      rw [shifted] at valid covered ⊢
      obtain ⟨finalWrites, results⟩ := ih pushedWrites valid covered
      refine ⟨finalWrites, ?_⟩
      simp only [Queue.run, List.mem_cons]
      rintro result (rfl | later)
      · exact pushedOk
      · exact results result later
    | writer =>
      have prefixValid := Operation.validRun_of_append _ _ (by rwa [List.map_append] at valid)
      exact ih (writes.writerStep prefixValid unique
        fun request member => covered request (List.mem_append_left _ member)) valid covered

/-- A read through the queue answers what the requests pushed so far leave at `BLOCK_NUMBER_MAX`.
-/
theorem get_eq (writes : Writes deployment origin timeline head requests queue)
    (settled : Settled (timeline, head))
    (valid : DeploymentState.ValidRun origin.layout.schema deployment origin.graftBlock timeline
      head (requests.map Request.operation))
    {key : EntityKey} (ofDeployment : key.subgraphId = deployment)
    (hasTable : origin.layout.schema key.entityType ≠ none) :
    queue.get key =
      .ok ((Operation.afterAll (timeline, head) (requests.map Request.operation)).1 blockNumberMax
        key) := by
  obtain ⟨popped, split, tracks⟩ := writes.served
  rw [split, List.map_append] at valid ⊢
  have spec := findMapWrite_spec key (Operation.settled_afterAll settled _)
    (Operation.validRun_append _ _ valid) (le_refl BlockTracker.new.block) (min_le_left _ _)
  rw [Operation.afterAll_append]
  unfold Queue.get
  rcases scanned : findMapWrite key BlockTracker.new queue.queue.reverse with ⟨_ | entity, tracker'⟩
  · -- the deployment is read at the block the scan ended at
    rw [scanned] at spec
    rw [List.map_append, Operation.afterAll_append] at tracks
    obtain ⟨subgraphId, entityType, entityId⟩ := key
    subst ofDeployment
    simp only [DeploymentState.get, BlockTracker.queryBlock]
    rw [tracks.layout.find_of_schema tracks.belowMax.le (by rwa [writes.schema]),
      findMapWrite_none_at (fun _ member => List.mem_of_mem_take member) scanned]
    exact congrArg Except.ok spec
  · rw [scanned] at spec
    exact congrArg Except.ok spec

end Writes

/-- Write the `Dog` `1` at block 1, which the writer executes and pops; then write block 2,
which inserts the `Cat` `2` and removes the `Dog`, and revert it, both left in the queue. -/
def petActions : List Action :=
  [.push (.write 1 none [.insert ⟨"deployment", "Dog", "1"⟩ thingOne]), .writer, .writer,
    .push (.write 2 none [.insert ⟨"deployment", "Cat", "2"⟩ thingOne,
      .remove ⟨"deployment", "Dog", "1"⟩]),
    .push (.revertTo 1 none)]

end Queue

end GraphNode
