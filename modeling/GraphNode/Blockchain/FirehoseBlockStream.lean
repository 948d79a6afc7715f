import GraphNode.GraphQL.QueryCache

/-!
# The Firehose block stream

`graph/src/blockchain/firehose_block_stream.rs`.  `stream_blocks` connects to Firehose with a
request that resumes from the cursor it holds, or else starts at the block after the subgraph
pointer, and yields the events the mapper makes of the responses, moving the cursor with each.
Started from a subgraph pointer without a cursor, at or after the manifest's start block, it
checks that the first block Firehose picks follows the pointer: a block that does not makes it
rewind to a final block, at the earliest the parent of the manifest's start block, and connect
again from the block after it, with the check still on.

Firehose and the mapper are the environment: a run is a list of connections, each failing or
giving the responses Firehose sends before the stream ends, and the mapper's answers are
functions.  The logger, the metrics, the filter and the backoff, which only waits, are left out,
and block numbers stay below `BLOCK_NUMBER_MAX`, so that no `+ 1` overflows.
-/

namespace GraphNode

variable {ρ : Type}

/-- A block of a `BlockStreamEvent`, as `process_firehose_response` reads it: its pointer and
`parent_ptr()`. -/
structure FirehoseBlock where
  ptr : BlockPtr
  parentPtr : Option BlockPtr
  deriving DecidableEq, Repr

/-- `BlockStreamEvent` of a Firehose stream, with its `FirehoseCursor`. -/
inductive FirehoseEvent where
  | revert (ptr : BlockPtr) (cursor : Option String)
  | processBlock (block : FirehoseBlock) (cursor : Option String)
  deriving DecidableEq, Repr

/-- A `firehose::Response`: the block and step the mapper decodes, and the cursor. -/
structure FirehoseResponse (ρ : Type) where
  block : ρ
  cursor : String
  deriving DecidableEq, Repr

/-- What the stream asks of its `FirehoseMapper`: `to_block_stream_event`, `final_block_ptr_for`
and `block_ptr_for_number`, each of which may fail. -/
structure FirehoseMapper (ρ : Type) where
  toBlockStreamEvent : FirehoseResponse ρ → Except String FirehoseEvent
  finalBlockPtrFor : FirehoseBlock → Except String BlockPtr
  blockPtrForNumber : Int → Except String BlockPtr

/-- `firehose::Request`, without the fork steps and the transforms, which every connection sends
the same. -/
structure FirehoseRequest where
  startBlockNum : Int
  startCursor : String
  deriving DecidableEq, Repr

/-- `must_check_subgraph_continuity`. -/
def mustCheckSubgraphContinuity (subgraphCurrentBlock : Option BlockPtr) (subgraphCursor : String)
    (subgraphManifestStartBlockNumber : Int) : Bool :=
  match subgraphCurrentBlock with
  | some currentBlock =>
    if subgraphCursor.isEmpty then decide (subgraphManifestStartBlockNumber ≤ currentBlock.number)
    else false
  | none => false

/-- The cases of the test `check_continuity`. -/
example :
    let someCurrentBlock : Int → Option BlockPtr := fun number => some ⟨[0xab, 0xcd], number⟩
    [mustCheckSubgraphContinuity none "" 10, mustCheckSubgraphContinuity (someCurrentBlock 9) "" 10,
      mustCheckSubgraphContinuity (someCurrentBlock 10) "" 10,
      mustCheckSubgraphContinuity (someCurrentBlock 11) "" 10,
      mustCheckSubgraphContinuity none "abc" 10,
      mustCheckSubgraphContinuity (someCurrentBlock 9) "abc" 10,
      mustCheckSubgraphContinuity (someCurrentBlock 10) "abc" 10,
      mustCheckSubgraphContinuity (someCurrentBlock 11) "abc" 10] =
      [false, false, true, true, false, false, false, false] := by decide

/-- A stream resuming from a cursor does not check continuity. -/
theorem mustCheckSubgraphContinuity_of_cursor {subgraphCurrentBlock : Option BlockPtr}
    {subgraphCursor : String} (resuming : subgraphCursor ≠ "") (startBlockNumber : Int) :
    mustCheckSubgraphContinuity subgraphCurrentBlock subgraphCursor startBlockNumber = false := by
  have notEmpty : subgraphCursor.isEmpty = false := by simpa using resuming
  cases subgraphCurrentBlock <;> simp [mustCheckSubgraphContinuity, notEmpty]

/-- What `stream_blocks` keeps between connections. -/
structure FirehoseBlockStream where
  latestCursor : String
  startBlockNum : Int
  subgraphCurrentBlock : Option BlockPtr
  checkSubgraphContinuity : Bool
  manifestStartBlockNum : Int
  deriving DecidableEq, Repr

/-- `BlockResponse`. -/
inductive BlockResponse where
  | proceed (event : FirehoseEvent) (cursor : String)
  | rewind (revertTo : BlockPtr)
  deriving DecidableEq, Repr

/-- What one attempt of `stream_blocks`'s loop gets: the endpoint's `stream_blocks` fails, or
Firehose sends these responses before the stream ends. -/
inductive Connection (ρ : Type) where
  | failed (error : String)
  | connected (responses : List (Except String (FirehoseResponse ρ)))

namespace FirehoseBlockStream

/-- `FirehoseBlockStream::new` with the start of `stream_blocks`. -/
def new (subgraphCurrentBlock : Option BlockPtr) (cursor : Option String)
    (startBlocks : List Int) : FirehoseBlockStream :=
  -- with no start block in the manifest Firehose starts at the genesis block
  let manifestStartBlockNum := startBlocks.min?.getD 0
  let latestCursor := cursor.getD ""
  -- the start block is inclusive, and the pointer's block is processed already
  { latestCursor
    startBlockNum := (subgraphCurrentBlock.map (·.number + 1)).getD manifestStartBlockNum
    subgraphCurrentBlock
    checkSubgraphContinuity :=
      mustCheckSubgraphContinuity subgraphCurrentBlock latestCursor manifestStartBlockNum
    manifestStartBlockNum }

/-- The request a connection sends. -/
def request (stream : FirehoseBlockStream) : FirehoseRequest :=
  ⟨stream.startBlockNum, stream.latestCursor⟩

variable {subgraphCurrentBlock : Option BlockPtr} {cursor : Option String} {startBlocks : List Int}

@[simp] theorem new_request :
    (new subgraphCurrentBlock cursor startBlocks).request =
      ⟨(subgraphCurrentBlock.map (·.number + 1)).getD (startBlocks.min?.getD 0), cursor.getD ""⟩ :=
  rfl

@[simp] theorem new_checkSubgraphContinuity :
    (new subgraphCurrentBlock cursor startBlocks).checkSubgraphContinuity =
      mustCheckSubgraphContinuity subgraphCurrentBlock (cursor.getD "") (startBlocks.min?.getD 0) :=
  rfl

@[simp] theorem new_subgraphCurrentBlock :
    (new subgraphCurrentBlock cursor startBlocks).subgraphCurrentBlock = subgraphCurrentBlock :=
  rfl

@[simp] theorem new_manifestStartBlockNum :
    (new subgraphCurrentBlock cursor startBlocks).manifestStartBlockNum = startBlocks.min?.getD 0 :=
  rfl

variable (mapper : FirehoseMapper ρ)

/-- The block a stream whose first block does not follow the subgraph pointer rewinds to: the
final block for it, or the parent of the manifest's start block (the genesis block at the
earliest) when that is later. -/
def rewindTarget (manifestStartBlockNum : Int) (block : FirehoseBlock) :
    Except String BlockPtr := do
  let revertTo ← (mapper.finalBlockPtrFor block).mapError
    ("Could not fetch final block to revert to: " ++ ·)
  if revertTo.number < manifestStartBlockNum then
    -- the start block was processed, so its parent is the block to revert to
    let blockNum := manifestStartBlockNum - 1
    let blockNum := if blockNum < 0 then 0 else blockNum
    (mapper.blockPtrForNumber blockNum).mapError
      ("Could not fetch manifest start block to revert to: " ++ ·)
  else pure revertTo

/-- `process_firehose_response`, with the continuity flag it turns off once a first event
passes. -/
def processFirehoseResponse (checkSubgraphContinuity : Bool) (manifestStartBlockNum : Int)
    (subgraphCurrentBlock : Option BlockPtr) (result : Except String (FirehoseResponse ρ)) :
    Except String BlockResponse × Bool :=
  match result with
  | .error status =>
    (.error ("An error occurred while streaming blocks: " ++ status), checkSubgraphContinuity)
  | .ok response =>
    match mapper.toBlockStreamEvent response with
    | .error error =>
      (.error ("Mapping block to BlockStreamEvent failed: " ++ error), checkSubgraphContinuity)
    | .ok event =>
      match checkSubgraphContinuity, event with
      | true, .processBlock block _ =>
        if block.parentPtr.isSome && block.parentPtr != subgraphCurrentBlock then
          ((rewindTarget mapper manifestStartBlockNum block).map .rewind, true)
        else (.ok (.proceed event response.cursor), false)
      | _, _ => (.ok (.proceed event response.cursor), false)

/-- The `for await` loop over the responses of one connection: a response that proceeds yields
its event and moves the cursor; a rewind yields a revert to the block rewound to, with no cursor,
and restarts the stream from the block after it; an error ends the connection. -/
def receive (stream : FirehoseBlockStream) :
    List (Except String (FirehoseResponse ρ)) → List FirehoseEvent × FirehoseBlockStream
  | [] => ([], stream)
  | result :: results =>
    match processFirehoseResponse mapper stream.checkSubgraphContinuity
        stream.manifestStartBlockNum stream.subgraphCurrentBlock result with
    | (.ok (.proceed event cursor), check) =>
      let (events, final) :=
        receive { stream with latestCursor := cursor, checkSubgraphContinuity := check } results
      (event :: events, final)
    | (.ok (.rewind revertTo), check) =>
      ([.revert revertTo none], { stream with
        latestCursor := ""
        startBlockNum := revertTo.number + 1
        subgraphCurrentBlock := some revertTo
        checkSubgraphContinuity := check })
    | (.error _, check) => ([], { stream with checkSubgraphContinuity := check })

/-- One iteration of `stream_blocks`'s loop: the request it connects with and the events it
yields. -/
def connect (stream : FirehoseBlockStream) :
    Connection ρ → (FirehoseRequest × List FirehoseEvent) × FirehoseBlockStream
  | .failed _ => ((stream.request, []), stream)
  | .connected responses =>
    let (events, final) := stream.receive mapper responses
    ((stream.request, events), final)

/-- Iterations of the loop, one for each connection. -/
def run (stream : FirehoseBlockStream) :
    List (Connection ρ) → List (FirehoseRequest × List FirehoseEvent) × FirehoseBlockStream
  | [] => ([], stream)
  | connection :: connections =>
    let (connected, next) := stream.connect mapper connection
    let (rest, final) := next.run connections
    (connected :: rest, final)

end FirehoseBlockStream

/-- The events the connections of a run yield, in order. -/
def FirehoseBlockStream.events (connected : List (FirehoseRequest × List FirehoseEvent)) :
    List FirehoseEvent :=
  connected.flatMap (·.2)

/-! ## The continuity check -/

/-- A mapper as Ethereum's: its reverts carry the response's cursor, and it finds the block at
each number it is asked for. -/
structure FirehoseMapper.Honest (mapper : FirehoseMapper ρ) : Prop where
  revertCursor : ∀ response ptr cursor,
    mapper.toBlockStreamEvent response = .ok (.revert ptr cursor) → cursor ≠ none
  blockPtrForNumber : ∀ number ptr, mapper.blockPtrForNumber number = .ok ptr → ptr.number = number

/-- The events of a stream that checks continuity against `current`, rewinding to blocks at or
after `floor`: rewinds (reverts with no cursor), each to the block checked against next, up to an
event that passes the check, a block whose parent is the block checked against or a revert of the
mapper's. -/
def ContinuityChecked (floor : Int) : Option BlockPtr → List FirehoseEvent → Prop
  | _, [] => True
  | _, .revert revertTo none :: events =>
    floor ≤ revertTo.number ∧ ContinuityChecked floor (some revertTo) events
  | _, .revert _ (some _) :: _ => True
  | current, .processBlock block _ :: _ => block.parentPtr = none ∨ block.parentPtr = current

namespace FirehoseBlockStream

variable {mapper : FirehoseMapper ρ}

/-- A rewind goes no earlier than the parent of the manifest's start block. -/
theorem rewindTarget_number (honest : mapper.Honest) {manifestStartBlockNum : Int}
    {block : FirehoseBlock} {revertTo : BlockPtr}
    (found : rewindTarget mapper manifestStartBlockNum block = .ok revertTo) :
    manifestStartBlockNum - 1 ≤ revertTo.number := by
  cases final : mapper.finalBlockPtrFor block with
  | error => simp [rewindTarget, final, bind, Except.bind, Except.mapError] at found
  | ok finalPtr =>
    by_cases before : finalPtr.number < manifestStartBlockNum
    · -- the block at the parent of the start block, or at the genesis block
      simp only [rewindTarget, final, Except.mapError, bind, Except.bind, before, if_true]
        at found
      split at found
      · cases found
      · rename_i ptr atNumber
        cases found
        have numbered := honest.blockPtrForNumber _ _ atNumber
        split at numbered <;> omega
    · simp only [rewindTarget, final, Except.mapError, bind, Except.bind, before, if_false, pure,
        Except.pure, Except.ok.injEq] at found
      rw [← found]
      omega

variable {checkSubgraphContinuity check : Bool} {manifestStartBlockNum : Int}
  {current : Option BlockPtr} {result : Except String (FirehoseResponse ρ)}

/-- What `process_firehose_response` can do: fail, rewind while checking, or proceed with the
mapper's event and turn the check off. -/
theorem processFirehoseResponse_cases {response : Except String BlockResponse}
    (processed : processFirehoseResponse mapper checkSubgraphContinuity manifestStartBlockNum
      current result = (response, check)) :
    (∃ error, response = .error error ∧ check = checkSubgraphContinuity) ∨
    (∃ block revertTo, checkSubgraphContinuity = true ∧
      rewindTarget mapper manifestStartBlockNum block = .ok revertTo ∧
      response = .ok (.rewind revertTo) ∧ check = true) ∨
    (∃ firehoseResponse event, result = .ok firehoseResponse ∧
      mapper.toBlockStreamEvent firehoseResponse = .ok event ∧
      response = .ok (.proceed event firehoseResponse.cursor) ∧ check = false ∧
      (checkSubgraphContinuity = true → ∀ block blockCursor, event = .processBlock block blockCursor →
        block.parentPtr = none ∨ block.parentPtr = current)) := by
  rcases result with status | firehoseResponse
  · simp only [processFirehoseResponse, Prod.mk.injEq] at processed
    exact .inl ⟨_, processed.1.symm, processed.2.symm⟩
  cases mapped : mapper.toBlockStreamEvent firehoseResponse with
  | error error =>
    simp only [processFirehoseResponse, mapped, Prod.mk.injEq] at processed
    exact .inl ⟨_, processed.1.symm, processed.2.symm⟩
  | ok event =>
    -- only a block checked against the pointer can rewind
    cases checkSubgraphContinuity with
    | false =>
      simp only [processFirehoseResponse, mapped, Prod.mk.injEq] at processed
      exact .inr (.inr ⟨firehoseResponse, event, rfl, mapped, processed.1.symm, processed.2.symm,
        nofun⟩)
    | true =>
      cases event with
      | revert ptr revertCursor =>
        simp only [processFirehoseResponse, mapped, Prod.mk.injEq] at processed
        exact .inr (.inr ⟨firehoseResponse, _, rfl, mapped, processed.1.symm, processed.2.symm,
          fun _ _ _ => nofun⟩)
      | processBlock block blockCursor =>
        by_cases mismatched : (block.parentPtr.isSome && block.parentPtr != current) = true
        · simp only [processFirehoseResponse, mapped, mismatched, if_true, Prod.mk.injEq]
            at processed
          cases rewound : rewindTarget mapper manifestStartBlockNum block with
          | error error =>
            rw [rewound] at processed
            exact .inl ⟨error, processed.1.symm, processed.2.symm⟩
          | ok revertTo =>
            rw [rewound] at processed
            exact .inr (.inl ⟨block, revertTo, rfl, rewound, processed.1.symm, processed.2.symm⟩)
        · simp only [processFirehoseResponse, mapped, mismatched, Bool.false_eq_true, if_false,
            Prod.mk.injEq] at processed
          refine .inr (.inr ⟨firehoseResponse, _, rfl, mapped, processed.1.symm, processed.2.symm,
            fun _ block' blockCursor' same => ?_⟩)
          cases same
          by_cases orphan : block.parentPtr = none
          · exact .inl orphan
          · exact .inr (by simpa [orphan, Option.isSome_iff_ne_none] using mismatched)

/-- A response that ends in an error leaves the check as it was. -/
theorem processFirehoseResponse_error {error : String}
    (processed : processFirehoseResponse mapper checkSubgraphContinuity manifestStartBlockNum
      current result = (.error error, check)) :
    check = checkSubgraphContinuity := by
  rcases processFirehoseResponse_cases processed with
    ⟨_, -, same⟩ | ⟨_, _, -, -, answered, -⟩ | ⟨_, _, -, -, answered, -⟩
  · exact same
  · cases answered
  · cases answered

/-- A rewind is made while checking, keeps the check on and goes no earlier than the parent of
the manifest's start block. -/
theorem processFirehoseResponse_rewind (honest : mapper.Honest) {revertTo : BlockPtr}
    (processed : processFirehoseResponse mapper checkSubgraphContinuity manifestStartBlockNum
      current result = (.ok (.rewind revertTo), check)) :
    check = true ∧ manifestStartBlockNum - 1 ≤ revertTo.number := by
  rcases processFirehoseResponse_cases processed with
    ⟨_, answered, -⟩ | ⟨block, target, -, rewound, answered, same⟩ | ⟨_, _, -, -, answered, -⟩
  · cases answered
  · cases answered
    exact ⟨same, rewindTarget_number honest rewound⟩
  · cases answered

/-- A response that proceeds turns the check off, and an event that proceeds while checking
passes the check: a block following the subgraph pointer, or a revert of the mapper's. -/
theorem processFirehoseResponse_proceed (honest : mapper.Honest) {event : FirehoseEvent}
    {cursor : String}
    (processed : processFirehoseResponse mapper checkSubgraphContinuity manifestStartBlockNum
      current result = (.ok (.proceed event cursor), check)) :
    check = false ∧ (checkSubgraphContinuity = true →
      ∀ floor events, ContinuityChecked floor current (event :: events)) := by
  rcases processFirehoseResponse_cases processed with
    ⟨_, answered, -⟩ | ⟨_, _, -, -, answered, -⟩ |
      ⟨firehoseResponse, mapped, -, mappedIs, answered, same, follows⟩
  · cases answered
  · cases answered
  · cases answered
    refine ⟨same, fun checking floor events => ?_⟩
    cases event with
    | revert ptr revertCursor =>
      -- the mapper's reverts carry a cursor, so this is not a rewind
      cases revertCursor with
      | none => exact absurd rfl (honest.revertCursor firehoseResponse ptr none mappedIs)
      | some => trivial
    | processBlock block blockCursor => exact follows checking block blockCursor rfl

@[simp] theorem events_nil : events [] = [] := rfl

@[simp] theorem events_cons (connected : FirehoseRequest × List FirehoseEvent)
    (rest : List (FirehoseRequest × List FirehoseEvent)) :
    events (connected :: rest) = connected.2 ++ events rest :=
  List.flatMap_cons

/-- A connection keeps the manifest's start block. -/
theorem receive_manifestStartBlockNum (stream : FirehoseBlockStream)
    (results : List (Except String (FirehoseResponse ρ))) :
    (stream.receive mapper results).2.manifestStartBlockNum = stream.manifestStartBlockNum := by
  induction results generalizing stream with
  | nil => rfl
  | cons result results ih =>
    simp only [receive]
    split
    · exact ih _
    · rfl
    · rfl

/-- The step lemma of the continuity check: one connection of a checking stream. -/
theorem receive_continuityChecked (honest : mapper.Honest) {stream : FirehoseBlockStream}
    (checking : stream.checkSubgraphContinuity = true)
    (results : List (Except String (FirehoseResponse ρ))) {rest : List FirehoseEvent}
    (restChecked : (stream.receive mapper results).2.checkSubgraphContinuity = true →
      ContinuityChecked (stream.manifestStartBlockNum - 1)
        (stream.receive mapper results).2.subgraphCurrentBlock rest) :
    ContinuityChecked (stream.manifestStartBlockNum - 1) stream.subgraphCurrentBlock
      ((stream.receive mapper results).1 ++ rest) := by
  cases results with
  | nil => exact restChecked checking
  | cons result results =>
    match processed : processFirehoseResponse mapper stream.checkSubgraphContinuity
        stream.manifestStartBlockNum stream.subgraphCurrentBlock result with
    | (.ok (.proceed event cursor), check) =>
      simp only [receive, processed, List.cons_append]
      exact (processFirehoseResponse_proceed honest processed).2 checking _ _
    | (.ok (.rewind revertTo), check) =>
      simp only [receive, processed] at restChecked ⊢
      obtain ⟨stillChecking, after⟩ := processFirehoseResponse_rewind honest processed
      exact ⟨after, restChecked stillChecking⟩
    | (.error error, check) =>
      simp only [receive, processed] at restChecked ⊢
      exact restChecked ((processFirehoseResponse_error processed).trans checking)

/-- The run lemma of the continuity check, by induction on the connections. -/
theorem run_continuityChecked_append (honest : mapper.Honest) {stream : FirehoseBlockStream}
    (checking : stream.checkSubgraphContinuity = true) (connections : List (Connection ρ))
    {rest : List FirehoseEvent}
    (restChecked : (stream.run mapper connections).2.checkSubgraphContinuity = true →
      ContinuityChecked (stream.manifestStartBlockNum - 1)
        (stream.run mapper connections).2.subgraphCurrentBlock rest) :
    ContinuityChecked (stream.manifestStartBlockNum - 1) stream.subgraphCurrentBlock
      (events (stream.run mapper connections).1 ++ rest) := by
  induction connections generalizing stream with
  | nil => exact restChecked checking
  | cons connection connections ih =>
    cases connection with
    | failed error => exact ih checking restChecked
    | connected responses =>
      simp only [run, connect, events_cons, List.append_assoc] at restChecked ⊢
      have kept : (stream.receive mapper responses).2.manifestStartBlockNum =
          stream.manifestStartBlockNum := receive_manifestStartBlockNum stream responses
      refine receive_continuityChecked honest checking responses fun nextChecking => ?_
      rw [← kept]
      exact ih nextChecking (kept ▸ restChecked)

/-- A stream started without a cursor rewinds no further than the parent of the manifest's start
block until an event passes the continuity check, over every run of connections. -/
theorem run_checks_subgraph_continuity (honest : mapper.Honest) {current : BlockPtr}
    {cursor : Option String} {startBlocks : List Int} (noCursor : cursor.getD "" = "")
    (started : startBlocks.min?.getD 0 ≤ current.number) (connections : List (Connection ρ)) :
    ContinuityChecked (startBlocks.min?.getD 0 - 1) (some current)
      (events ((new (some current) cursor startBlocks).run mapper connections).1) := by
  have checking : (new (some current) cursor startBlocks).checkSubgraphContinuity = true := by
    simp [mustCheckSubgraphContinuity, noCursor, started]
  have checked := run_continuityChecked_append honest checking connections
    (show _ → ContinuityChecked _ _ [] from fun _ => trivial)
  simpa using checked

end FirehoseBlockStream

/-- A mapper of responses that give a block and whether Firehose undoes it: a block undone reverts
to its parent, each event carries the response's cursor, the final block is 200 blocks back and
every number has a block, with no hash. -/
def undoMapper : FirehoseMapper (Bool × FirehoseBlock) where
  toBlockStreamEvent response :=
    match response.block with
    | (false, block) => .ok (.processBlock block (some response.cursor))
    | (true, block) =>
      match block.parentPtr with
      | some parentPtr => .ok (.revert parentPtr (some response.cursor))
      | none => .error "Genesis block should never be reverted"
  finalBlockPtrFor block :=
    .ok ⟨[], if 200 ≤ block.ptr.number then block.ptr.number - 200 else 0⟩
  blockPtrForNumber number := .ok ⟨[], number⟩

theorem undoMapper_honest : undoMapper.Honest where
  revertCursor response ptr cursor mapped := by
    obtain ⟨⟨undone, block⟩, responseCursor⟩ := response
    cases undone with
    | false => cases mapped
    | true =>
      cases parent : block.parentPtr with
      | none => simp [undoMapper, parent] at mapped
      | some parentPtr =>
        simp only [undoMapper, parent, Except.ok.injEq, FirehoseEvent.revert.injEq] at mapped
        rw [← mapped.2]
        exact Option.some_ne_none _
  blockPtrForNumber number ptr found := by
    cases found
    rfl

/-- From block 300 with no cursor and a start block at 250: Firehose first sends block 301 on
another branch, the stream rewinds to block 249, the next connection fails, and the one after it
sends blocks 250 and 251. -/
def rewoundConnections : List (Connection (Bool × FirehoseBlock)) :=
  [.connected [.ok ⟨(false, ⟨⟨[6], 301⟩, some ⟨[9], 300⟩⟩), "301"⟩],
    .failed "unavailable",
    .connected [.ok ⟨(false, ⟨⟨[7], 250⟩, some ⟨[], 249⟩⟩), "250"⟩,
      .ok ⟨(false, ⟨⟨[8], 251⟩, some ⟨[7], 250⟩⟩), "251"⟩]]

example : FirehoseBlockStream.events
      ((FirehoseBlockStream.new (some ⟨[5], 300⟩) none [250]).run undoMapper
        rewoundConnections).1 =
    [.revert ⟨[], 249⟩ none, .processBlock ⟨⟨[7], 250⟩, some ⟨[], 249⟩⟩ (some "250"),
      .processBlock ⟨⟨[8], 251⟩, some ⟨[7], 250⟩⟩ (some "251")] := by decide

theorem run_checks_subgraph_continuity_rewoundConnections :
    (none : Option String).getD "" = "" ∧ [250].min?.getD 0 ≤ (300 : Int) ∧
      ContinuityChecked ([250].min?.getD 0 - 1) (some ⟨[5], 300⟩)
        (FirehoseBlockStream.events ((FirehoseBlockStream.new (some ⟨[5], 300⟩) none [250]).run
          undoMapper rewoundConnections).1) :=
  ⟨rfl, by decide,
    FirehoseBlockStream.run_checks_subgraph_continuity undoMapper_honest rfl (by decide) _⟩

end GraphNode
