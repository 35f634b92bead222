/-
The dry run on the public stream (`dryrun/public_stream_engine.py`).

The engine records each event of a message, feeds it to the pipeline and goes on to the
next.  What it recorded is what a later replay is given.  The connection and the files it
writes at the end are left out: a run is the fetched metadata followed by whatever comes
in, messages and the engine's own heartbeats.
-/
import GhostAmm.Model.Normalizer
import GhostAmm.Model.Pipeline

namespace GhostAmm

open Py (Json Texts)

/-- `pair_spec_event`: `asdict` of the spec. -/
def pairSpecEventOf (rt : Runtime) (spec : BitbankPairSpec) (tsMs : ℚ) (symbol : String) : Event :=
  makeEvent rt
    (.bitbankPairSpec
      { name := spec.name, baseAsset := some spec.baseAsset, quoteAsset := some spec.quoteAsset,
        unitAmount := spec.unitAmount, limitMaxAmount := spec.limitMaxAmount,
        priceDigits := spec.priceDigits, amountDigits := spec.amountDigits,
        makerFeeRateBase := some spec.makerFeeRateBase,
        makerFeeRateQuote := some spec.makerFeeRateQuote,
        takerFeeRateBase := some spec.takerFeeRateBase,
        takerFeeRateQuote := some spec.takerFeeRateQuote, isEnabled := some spec.isEnabled,
        stopOrder := some spec.stopOrder, stopOrderAndCancel := some spec.stopOrderAndCancel,
        stopBuyOrder := some spec.stopBuyOrder, stopSellOrder := some spec.stopSellOrder })
    tsMs "bitbank" symbol

/-- `status_event`. -/
def statusEventOf (rt : Runtime) (status : BitbankStatus) (tsMs : ℚ) (symbol : String) : Event :=
  makeEvent rt
    (.bitbankStatus { pair := status.pair, status := some status.status,
                      minAmount := some (some status.minAmount) })
    tsMs "bitbank" symbol

/-- What `_prime_metadata` gets from the exchange. -/
inductive Fetched where
  /-- Neither list is configured to be fetched. -/
  | disabled
  | failed
  | lists (specs : List BitbankPairSpec) (statuses : List BitbankStatus)

/-- What comes in while the engine runs. -/
inductive StreamInput where
  | message (data : Json) (nowMs : ℚ)
  | heartbeat (nowMs : ℚ)

/-- `PublicStreamDryRunEngine`, less its configuration. -/
structure PublicStreamDryRunEngine where
  pair : String
  pipeline : Pipeline
  events : List Event := []
  sourceEvents : List Event := []

namespace PublicStreamDryRunEngine

/-- The symbol the engine's own events are filed under. -/
def symbol (texts : Texts) (self : PublicStreamDryRunEngine) : String := symbolOf texts self.pair

/-- Record an event and process it. -/
def record (rt : Runtime) (cfg : Config) (self : PublicStreamDryRunEngine) (event : Event) :
    PublicStreamDryRunEngine × Except StreamError Unit :=
  let self := { self with
    sourceEvents := self.sourceEvents ++ [event], events := self.events ++ [event] }
  match Pipeline.process rt cfg self.pipeline event with
  | (pipeline, .error e) => ({ self with pipeline := pipeline }, .error (.py e))
  | (pipeline, .ok out) =>
      ({ self with pipeline := pipeline, events := self.events ++ out }, .ok ())

/-- The loop over the events of a message. -/
def recordAll (rt : Runtime) (cfg : Config) : PublicStreamDryRunEngine → List Event →
    PublicStreamDryRunEngine × Except StreamError Unit
  | self, [] => (self, .ok ())
  | self, event :: rest =>
      match self.record rt cfg event with
      | (self, .error e) => (self, .error e)
      | (self, .ok ()) => recordAll rt cfg self rest

/-- The events of the metadata for the engine's pair. -/
def metadataEvents (rt : Runtime) (texts : Texts) (self : PublicStreamDryRunEngine)
    (fetched : Fetched) (nowMs : ℚ) : List Event :=
  match fetched with
  | .lists specs statuses =>
      ((specs.filter fun spec => decide (spec.name = self.pair)).map fun spec =>
        pairSpecEventOf rt spec nowMs (self.symbol texts)) ++
      (statuses.filter fun status => decide (status.pair = self.pair)).map fun status =>
        statusEventOf rt status (nowMs + 1) (self.symbol texts)
  | _ => []

/-- `_prime_metadata`: a failed fetch is noted and nothing else. -/
def primeMetadata (rt : Runtime) (texts : Texts) (cfg : Config) (self : PublicStreamDryRunEngine)
    (fetched : Fetched) (nowMs : ℚ) : PublicStreamDryRunEngine × Except StreamError Unit :=
  match fetched with
  | .failed =>
      ({ self with events := self.events ++
          [makeEvent rt (.other "risk_state") nowMs "bitbank" (self.symbol texts)] }, .ok ())
  | fetched => self.recordAll rt cfg (self.metadataEvents rt texts fetched nowMs)

/-- `data.get("room_name") or data.get("room") or ""`. -/
def roomNameOf (texts : Texts) (data : List (String × Json)) : String :=
  texts.strOf (((Json.get data "room_name").or (Json.get data "room")).or (.str ""))

/-- `message` and the heartbeats of `run`. -/
def handle (rt : Runtime) (texts : Texts) (cfg : Config) (self : PublicStreamDryRunEngine) :
    StreamInput → PublicStreamDryRunEngine × Except StreamError Unit
  | .message (.obj data) nowMs =>
      match normalizeBitbankMessage rt texts (roomNameOf texts data) data nowMs with
      | .error e => (self, .error e)
      | .ok events => self.recordAll rt cfg events
  | .message _ _ => (self, .ok ())
  | .heartbeat nowMs =>
      ({ self with events := self.events ++
          [makeEvent rt (.other "dry_run_heartbeat") nowMs "bitbank" (self.symbol texts)] }, .ok ())

/-- `__init__`. -/
def init (cfg : Config) (pair : String) : PublicStreamDryRunEngine where
  pair := pair
  pipeline := Pipeline.init cfg

end PublicStreamDryRunEngine

end GhostAmm
