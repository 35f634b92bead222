/-
The replay engine (`replay/engine.py`) and the `report` command (`cli.py`).

`run` orders the recording, checks the sequence numbers, feeds the pipeline and
writes each event down in front of what the pipeline emitted for it.  `runFiles`
summarizes the log it produced at the fair price the pipeline was left with, while
`report` reads the same log back and summarizes it at the last price it finds there.
Which file an event came from, and the files themselves, are left out.
-/
import GhostAmm.Model.Pipeline
import GhostAmm.Model.Metrics

namespace GhostAmm

/-! ### The order of a recording -/

/-- The key of `exchange_time_sort`: `(event.ts_exchange, str(event.sequence))`. -/
def comesBefore (a b : Event) : Bool :=
  decide (a.tsExchange < b.tsExchange ∨
    (a.tsExchange = b.tsExchange ∧ a.sequence.str ≤ b.sequence.str))

/-- `_order_events`: the order that was used and the events in it. -/
def orderEvents (cfg : ReplayConfig) (events : List Event) (replayOrder : Option String) :
    Except Py.Error (String × List Event) :=
  let order := Py.textOr replayOrder cfg.order
  if order ≠ "arrival_order" ∧ order ≠ "exchange_time_sort" then
    .error (.valueError ("Unsupported replay order: " ++ order))
  else if order = "exchange_time_sort" then
    if !cfg.allowExchangeTimeSort && replayOrder.isNone then
      .error (.valueError ("exchange_time_sort requires replay.allow_exchange_time_sort=true " ++
        "or an explicit CLI override"))
    else .ok (order, events.insertionSort fun a b => comesBefore a b = true)
  else .ok (order, events)

/-- `_sequence_stream`: snapshots and deltas are one stream. -/
def sequenceStream (eventType : String) : String :=
  if eventType = "order_book_snapshot" ∨ eventType = "order_book_delta" then "order_book"
  else eventType

/-- The key of `last_by_stream`. -/
def streamKey (event : Event) : String × String × String :=
  (event.venue, event.symbol, sequenceStream event.body.eventType)

/-- How the message of a violation prints the key, for names without quotes. -/
def streamText (key : String × String × String) : String :=
  "('" ++ key.1 ++ "', '" ++ key.2.1 ++ "', '" ++ key.2.2 ++ "')"

/-- `last_by_stream`. -/
abbrev LastByStream := Py.Table (Prod.fst : (String × String × String) × ℤ → _)

/-- The loop of `_assert_monotonic_sequences`; an equal number passes. -/
def assertMonotonicSequences : LastByStream → List Event → Except Py.Error Unit
  | _, [] => .ok ()
  | last, event :: rest =>
      match event.sequence.toInt with
      | none => assertMonotonicSequences last rest
      | some seq =>
          let key := streamKey event
          match last.get? key with
          | some (_, previous) =>
              if seq < previous then
                .error (.valueError ("Sequence violation in replay stream " ++ streamText key ++
                  ": " ++ toString seq ++ " after " ++ toString previous))
              else assertMonotonicSequences (last.put (key, seq)) rest
          | none => assertMonotonicSequences (last.put (key, seq)) rest

/-! ### The log -/

/-- The log of a run: each event in front of what was emitted for it. -/
def logOf (steps : List (Machine.Step Pipeline Event (List Event))) : List Event :=
  steps.flatMap fun r => r.input :: r.output

/-- Everything the pipeline emitted, in order. -/
def emittedOf (steps : List (Machine.Step Pipeline Event (List Event))) : List Event :=
  steps.flatMap Machine.Step.output

/-- `_fair_at_or_after`: past the end of the points it is the last of them. -/
def fairAtOrAfter (points : List (ℚ × ℚ)) (target : ℚ) : Option ℚ :=
  ((points.find? fun p => decide (target ≤ p.1)).or points.getLast?).map Prod.snd

/-- The `(ts, fair)` of the `mark_price` events that have a price. -/
def fairPoints (events : List Event) : List (ℚ × ℚ) :=
  events.filterMap fun e => e.markFair?.map fun fair => (e.tsExchange, fair)

/-- What `enrich_fair_after` makes of one event. -/
def enrichEvent (points : List (ℚ × ℚ)) (event : Event) : Event :=
  match event.body with
  | .virtualFill payload =>
      { event with body := .virtualFill { payload with
          fairAfter1s := fairAtOrAfter points (event.tsExchange + 1000)
          fairAfter5s := fairAtOrAfter points (event.tsExchange + 5000)
          fairAfter30s := fairAtOrAfter points (event.tsExchange + 30000) } }
  | _ => event

/-- `enrich_fair_after`. -/
def enrichFairAfter (events : List Event) : List Event :=
  let points := fairPoints events
  if points.isEmpty then events else events.map (enrichEvent points)

/-! ### The engine -/

namespace ReplayEngine

/-- `run`: the pipeline it leaves and the enriched log. -/
def run (rt : Runtime) (cfg : Config) (pipeline : Pipeline) (events : List Event)
    (replayOrder : Option String) (strictSequence : Option Bool) :
    Pipeline × Except Py.Error (List Event) :=
  match orderEvents cfg.replay events replayOrder with
  | .error e => (pipeline, .error e)
  | .ok (_, ordered) =>
      let strict := strictSequence.getD cfg.replay.strictSequence
      match if strict then assertMonotonicSequences Py.Table.empty ordered else .ok () with
      | .error e => (pipeline, .error e)
      | .ok () =>
          match Machine.exec (Pipeline.process rt cfg) pipeline ordered with
          | (pipeline, .error e) => (pipeline, .error e)
          | (pipeline, .ok steps) => (pipeline, .ok (enrichFairAfter (logOf steps)))

/-- What `run_files` writes: the events of `events.jsonl` and the summary. -/
structure Report where
  events : List Event
  summary : MetricsSummary

/-- `run_files` on the events of its files, with a new engine. -/
def runFiles (rt : Runtime) (cfg : Config) (events : List Event)
    (replayOrder : Option String) (strictSequence : Option Bool) : Except Py.Error Report :=
  match run rt cfg (Pipeline.init cfg) events replayOrder strictSequence with
  | (_, .error e) => .error e
  | (pipeline, .ok output) =>
      .ok ⟨output, summarize output cfg.inventory.initialBaseQty cfg.inventory.initialQuoteQty
        pipeline.lastFair.fair⟩

end ReplayEngine

/-! ### The report command -/

/-- `_last_fair`. -/
def lastFair (events : List Event) : Option ℚ := events.reverse.findSome? Event.markFair?

/-- The summary of the `report` command for the events it reads. -/
def reportSummary (cfg : Config) (events : List Event) : MetricsSummary :=
  summarize events cfg.inventory.initialBaseQty cfg.inventory.initialQuoteQty (lastFair events)

end GhostAmm
