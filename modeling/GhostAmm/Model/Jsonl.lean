/-
Events as lines of JSON (`events.py`).

Here an event is what it is on disk: nine entries of any decoded value, and the class that its type
has in `EVENT_TYPES`.  `write_jsonl` writes one line for each event; `read_jsonl` goes through the
lines of a file opened with universal newlines, skips the blank ones and decodes the others.

The text that `deterministic_event_id` digests is here as well; the digest is not.
-/
import GhostAmm.Lib.JsonText
import GhostAmm.Lib.Lines

namespace GhostAmm

open Py (Json FloatText JsonStyle DecodeError)
open Py.JsonText (dumps loads)

/-- What reading an event can raise. -/
inductive ReadError where
  | decode (error : DecodeError)
  /-- `'<type>' object has no attribute '<name>'`. -/
  | attributeError (typeName name : String)
  /-- `unhashable type: '<type>'`. -/
  | unhashable (typeName : String)
  | unexpectedKeyword (name : String)
  | missingArguments (names : List String)

/-- An event of any class, as it is on disk. -/
structure JsonEvent where
  cls : String
  eventId : Json
  tsExchange : Json
  tsLocal : Json
  venue : Json
  symbol : Json
  eventType : Json
  sequence : Json
  payload : Json
  rawPayload : Json

/-- `EVENT_TYPES`. -/
def eventTypes : List (String × String) :=
  [("order_book_snapshot", "OrderBookSnapshot"), ("order_book_delta", "OrderBookDelta"),
   ("trade", "TradeEvent"), ("forced_flow", "ForcedFlowEvent"),
   ("bitbank_ticker", "BitbankTickerEvent"), ("bitbank_status", "BitbankStatusEvent"),
   ("bitbank_pair_spec", "BitbankPairSpecEvent"),
   ("external_fair_price", "ExternalFairPriceEvent"), ("bitbank_raw", "BitbankRawEvent"),
   ("mark_price", "MarkPriceEvent"), ("virtual_order_placed", "VirtualOrderPlaced"),
   ("virtual_order_canceled", "VirtualOrderCanceled"), ("virtual_fill", "VirtualFill"),
   ("live_order_intent", "LiveOrderIntent"), ("live_order_blocked", "LiveOrderBlocked"),
   ("dry_run_heartbeat", "DryRunHeartbeat"), ("ccxt_rest_call_blocked", "CcxtRestCallBlocked"),
   ("risk_state", "RiskStateEvent")]

/-- `EVENT_TYPES.get(event_type, Event)`. -/
def classOf (eventType : Json) : Except ReadError String :=
  match eventType with
  | .str name =>
      .ok (((eventTypes.find? fun t => decide (t.1 = name)).map Prod.snd).getD "Event")
  | .arr _ | .obj _ => .error (.unhashable eventType.typeName)
  | _ => .ok "Event"

namespace JsonEvent

/-- The fields of `Event`, in the order of the class. -/
def fieldNames : List String :=
  ["event_id", "ts_exchange", "ts_local", "venue", "symbol", "event_type", "sequence", "payload",
   "raw_payload"]

/-- `to_dict`. -/
def toDict (self : JsonEvent) : List (String × Json) :=
  [("event_id", self.eventId), ("ts_exchange", self.tsExchange), ("ts_local", self.tsLocal),
   ("venue", self.venue), ("symbol", self.symbol), ("event_type", self.eventType),
   ("sequence", self.sequence), ("payload", self.payload), ("raw_payload", self.rawPayload)]

/-- `to_json`. -/
def toJson (floats : FloatText) (self : JsonEvent) : List Char :=
  dumps floats .compact (.obj self.toDict)

/-- `from_dict`: only the raw payload has a default. -/
def fromDict (data : Json) : Except ReadError JsonEvent :=
  match data with
  | .obj fields => do
      let cls ← classOf (Json.get fields "event_type" (.str ""))
      match fields.find? fun f => decide (f.1 ∉ fieldNames) with
      | some f => .error (.unexpectedKeyword f.1)
      | none =>
          let missing := fieldNames.filter fun name =>
            decide (name ≠ "raw_payload" ∧ name ∉ fields.map Prod.fst)
          if missing = [] then
            return {
              cls := cls
              eventId := Json.get fields "event_id"
              tsExchange := Json.get fields "ts_exchange"
              tsLocal := Json.get fields "ts_local"
              venue := Json.get fields "venue"
              symbol := Json.get fields "symbol"
              eventType := Json.get fields "event_type"
              sequence := Json.get fields "sequence"
              payload := Json.get fields "payload"
              rawPayload := Json.get fields "raw_payload" }
          else .error (.missingArguments missing)
  | value => .error (.attributeError value.typeName "get")

/-- What `make_event` takes the identity of an event from. -/
def idParts (self : JsonEvent) : List Json :=
  [self.eventType, self.tsExchange, self.venue, self.symbol, self.sequence, self.payload]

end JsonEvent

/-- The lines of a file opened with universal newlines, each with its newline. -/
def universalLines : List Char → List (List Char)
  | [] => []
  | '\r' :: '\n' :: rest => ['\n'] :: universalLines rest
  | c :: rest =>
      if c = '\n' ∨ c = '\r' then ['\n'] :: universalLines rest
      else
        match universalLines rest with
        | [] => [[c]]
        | line :: lines => (c :: line) :: lines

/-- The body of the loop of `read_jsonl`. -/
def readEventLine (floats : FloatText) (line : List Char) : Except ReadError JsonEvent :=
  match loads floats line with
  | .ok data => JsonEvent.fromDict data
  | .error e => .error (.decode e)

/-- `read_jsonl`, of what the file holds. -/
def readJsonl (floats : FloatText) (text : List Char) : Except ReadError (List JsonEvent) :=
  ((universalLines text).filter fun line => decide (Py.strip line ≠ [])).mapM (readEventLine floats)

/-- `write_jsonl`: what the file holds. -/
def writeJsonl (floats : FloatText) (events : List JsonEvent) : List Char :=
  events.flatMap fun event => event.toJson floats ++ ['\n']

/-- The events of several files, one after the other, as `run_files` reads them. -/
def readFiles (floats : FloatText) (texts : List (List Char)) :
    Except ReadError (List JsonEvent) := do
  let parts ← texts.mapM (readJsonl floats)
  return parts.flatten

/-- The text that `deterministic_event_id` digests. -/
def eventIdText (floats : FloatText) (parts : List Json) : List Char :=
  ((parts.map (dumps floats .default)).intersperse ['|']).flatten

end GhostAmm
