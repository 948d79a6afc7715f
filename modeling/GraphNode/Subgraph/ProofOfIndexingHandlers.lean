import GraphNode.Subgraph.ProofOfIndexing

/-!
# Redacted events

The writes of a handler that fails deterministically are dropped from the store, and
`write_deterministic_error` writes a `DeterministicError` event that counts the events of the
region the handler wrote (`event.rs`): `vec_length - handler_start` of the region's stream.  A
stream keeps counters; a `RegionLog` is what they stand for, the events the region took and where
its current handler started.  Over every run of the host's calls the streams are those of their
logs, so the subtraction never underflows and each error counts the events of its handler.
-/

namespace GraphNode

open StableHash

variable {H E : Type} [AddCommMonoid H]

/-- A call of the host on the proof of indexing of a block. -/
inductive PoICall (E : Type) where
  | write (region : String) (e : E)
  | startHandler (region : String)
  | writeDeterministicError (region : String)

namespace ProofOfIndexing

variable (event : E → SeqNo → H) (deterministicError : Nat → E)

/-- One call of the host. -/
def call (poi : ProofOfIndexing H) : PoICall E → Option (ProofOfIndexing H)
  | .write region e => poi.write event region e
  | .startHandler region => poi.startHandler region
  | .writeDeterministicError region => poi.writeDeterministicError event deterministicError region

/-- The calls in turn. -/
def run (poi : ProofOfIndexing H) (calls : List (PoICall E)) : Option (ProofOfIndexing H) :=
  calls.foldlM (call event deterministicError) poi

end ProofOfIndexing

/-- The events a region's stream took, and where its current handler started. -/
structure RegionLog (E : Type) where
  events : List E
  handlerStart : Nat
  handlerStart_le : handlerStart ≤ events.length

namespace RegionLog

/-- A region with no event yet. -/
def empty : RegionLog E := ⟨[], 0, le_rfl⟩

/-- One more event. -/
def write (log : RegionLog E) (e : E) : RegionLog E :=
  ⟨log.events ++ [e], log.handlerStart, by simpa using Nat.le_succ_of_le log.handlerStart_le⟩

/-- A handler starts after the events so far. -/
def startHandler (log : RegionLog E) : RegionLog E :=
  ⟨log.events, log.events.length, le_rfl⟩

/-- The events of the current handler. -/
def handlerEvents (log : RegionLog E) : List E :=
  log.events.drop log.handlerStart

/-- The error that redacts the events of the current handler. -/
def writeDeterministicError (deterministicError : Nat → E) (log : RegionLog E) : RegionLog E :=
  log.write (deterministicError log.handlerEvents.length)

/-- One call of the host, on the logs of the regions. -/
def call (deterministicError : Nat → E) (logs : String → Option (RegionLog E)) :
    PoICall E → String → Option (RegionLog E)
  | .write region e => Function.update logs region (some (((logs region).getD empty).write e))
  | .startHandler region =>
      Function.update logs region (some ((logs region).getD empty).startHandler)
  | .writeDeterministicError region => Function.update logs region
      (some (((logs region).getD empty).writeDeterministicError deterministicError))

/-- The logs of the calls in turn, from no region. -/
def run (deterministicError : Nat → E) (calls : List (PoICall E)) :
    String → Option (RegionLog E) :=
  calls.foldl (call deterministicError) fun _ => none

example : (run Sum.inr [.startHandler "mainnet", .write "mainnet" (.inl "A"),
    .startHandler "mainnet", .write "mainnet" (.inl "B"), .write "mainnet" (.inl "C"),
    .writeDeterministicError "mainnet"] "mainnet").map events =
      some [.inl "A", .inl "B", .inl "C", .inr 2] := by
  decide

/-- The stream a log stands for: its events written from `start`, and its handler's start. -/
def stream (event : E → SeqNo → H) (start : BlockEventStream H) (log : RegionLog E) :
    BlockEventStream H :=
  { log.events.foldl (BlockEventStream.write event) start with handlerStart := log.handlerStart }

variable {event : E → SeqNo → H} {start : BlockEventStream H}

theorem stream_empty (unstarted : start.handlerStart = 0) : empty.stream event start = start := by
  cases start
  simp_all [stream, empty]

theorem vecLength_stream (blank : start.vecLength = 0) (log : RegionLog E) :
    (log.stream event start).vecLength = log.events.length := by
  simp [stream, BlockEventStream.foldl_write, blank]

theorem stream_write (log : RegionLog E) (e : E) :
    (log.stream event start).write event e = (log.write e).stream event start := by
  simp only [stream, write, List.foldl_append, List.foldl_cons, List.foldl_nil]
  rfl

theorem stream_startHandler (blank : start.vecLength = 0) (log : RegionLog E) :
    (log.stream event start).startHandler = log.startHandler.stream event start := by
  simp [BlockEventStream.startHandler, stream, startHandler, BlockEventStream.foldl_write, blank]

/-- What `write_deterministic_error` subtracts is the number of events of the handler. -/
theorem psub_stream (blank : start.vecLength = 0) (log : RegionLog E) :
    Nat.psub' (log.stream event start).vecLength (log.stream event start).handlerStart =
      some log.handlerEvents.length := by
  rw [vecLength_stream blank, show (log.stream event start).handlerStart = log.handlerStart from rfl,
    handlerEvents, List.length_drop]
  simp [Nat.psub', log.handlerStart_le]

end RegionLog

namespace ProofOfIndexing

/-- The streams of a proof of indexing are those the logs stand for. -/
def Represents (event : E → SeqNo → H) (start : BlockEventStream H)
    (logs : String → Option (RegionLog E)) (poi : ProofOfIndexing H) : Prop :=
  ∀ region, poi.perCausalityRegion.get? region = (logs region).map (RegionLog.stream event start)

variable {event : E → SeqNo → H} {deterministicError : Nat → E} {start : BlockEventStream H}
  {logs : String → Option (RegionLog E)} {poi : ProofOfIndexing H}

/-- The stream a call edits is that of the region's log, or of an empty one. -/
theorem Represents.getD (represents : Represents event start logs poi)
    (unstarted : start.handlerStart = 0) (region : String) :
    (poi.perCausalityRegion.get? region).getD start =
      ((logs region).getD RegionLog.empty).stream event start := by
  rw [represents region]
  cases logs region with
  | none => exact (RegionLog.stream_empty unstarted).symm
  | some log => rfl

/-- A call edits the stream of its region only. -/
theorem Represents.update (represents : Represents event start logs poi) {edited : ProofOfIndexing H}
    (region : String) {log : RegionLog E}
    (found : ∀ key, edited.perCausalityRegion.get? key =
      if region = key then some (log.stream event start) else poi.perCausalityRegion.get? key) :
    Represents event start (Function.update logs region (some log)) edited := by
  intro key
  rw [found]
  by_cases same : region = key
  · subst same
    simp
  · simp [same, Function.update_of_ne (Ne.symm same), represents key]

/-- The step lemma: every call succeeds, and edits the stream of its region as its log. -/
theorem call_represents (fresh : BlockEventStream.new poi.blockNumber = some start)
    (unstarted : start.handlerStart = 0) (blank : start.vecLength = 0)
    (represents : Represents event start logs poi) (c : PoICall E) :
    ∃ next, poi.call event deterministicError c = some next ∧ next.blockNumber = poi.blockNumber ∧
      Represents event start (RegionLog.call deterministicError logs c) next := by
  cases c with
  | write region e =>
      obtain ⟨written, wrote, sameBlock, found⟩ := poi.write_get? event fresh region e
      refine ⟨written, wrote, sameBlock, represents.update region fun key => ?_⟩
      rw [found, represents.getD unstarted, RegionLog.stream_write]
  | startHandler region =>
      obtain ⟨edited, wrote, sameBlock, found⟩ :=
        withCausalityRegion_get? fresh region BlockEventStream.startHandler
      refine ⟨edited, wrote, sameBlock, represents.update region fun key => ?_⟩
      rw [found, represents.getD unstarted, RegionLog.stream_startHandler blank]
  | writeDeterministicError region =>
      obtain ⟨touched, read, sameTouched, foundTouched⟩ := readCausalityRegion_get? fresh region
        fun entry => Nat.psub' entry.vecLength entry.handlerStart
      rw [represents.getD unstarted, RegionLog.psub_stream blank, Option.map_some] at read
      obtain ⟨written, wrote, sameBlock, found⟩ := touched.write_get? event (sameTouched ▸ fresh)
        region (deterministicError ((logs region).getD RegionLog.empty).handlerEvents.length)
      refine ⟨written, by rw [call, writeDeterministicError, read, Option.bind_some]; exact wrote,
        sameBlock.trans sameTouched, represents.update region fun key => ?_⟩
      rw [found, foundTouched, if_pos rfl, Option.getD_some, represents.getD unstarted,
        RegionLog.stream_write]
      by_cases same : region = key
      · simp [same, RegionLog.writeDeterministicError]
      · simp [same, foundTouched]

/-- The run lemma: every run of calls succeeds, with the streams of the logs of the calls. -/
theorem run_represents (fresh : BlockEventStream.new poi.blockNumber = some start)
    (unstarted : start.handlerStart = 0) (blank : start.vecLength = 0)
    (represents : Represents event start logs poi) (calls : List (PoICall E)) :
    ∃ final, poi.run event deterministicError calls = some final ∧
      Represents event start (calls.foldl (RegionLog.call deterministicError) logs) final := by
  induction calls generalizing logs poi with
  | nil => exact ⟨poi, rfl, represents⟩
  | cons c calls induction =>
      obtain ⟨next, stepped, sameBlock, represents'⟩ :=
        call_represents fresh unstarted blank represents c
      obtain ⟨final, ran, representsFinal⟩ := induction (sameBlock ▸ fresh) represents'
      exact ⟨final, by
        rw [run, List.foldlM_cons, stepped, Option.bind_eq_bind, Option.bind_some]
        exact ran,
        representsFinal⟩

end ProofOfIndexing

/-- The calls of the example of `DeterministicError`: a handler that saves `A`, and one that saves
`B` and `C` and fails. -/
def redactionCalls : List (PoICall (String ⊕ Nat)) :=
  [.startHandler "mainnet", .write "mainnet" (.inl "A"), .startHandler "mainnet",
    .write "mainnet" (.inl "B"), .write "mainnet" (.inl "C"), .writeDeterministicError "mainnet"]

end GraphNode
