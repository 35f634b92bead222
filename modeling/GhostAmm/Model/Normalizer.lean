/-
The normalizer of bitbank's public stream (`recorder/bitbank_normalizer.py`).

A message becomes a raw event and, by the name of its room, one or several typed ones.
Everything read from it is decoded JSON, so a missing entry, a null and a value of the
wrong type each go the way they go in the source.  The levels of a book message pass
through unread; here they are cut into pairs, and a level that is none becomes a pair
that `float` refuses, which raises at the same place.
-/
import GhostAmm.Lib.Json
import GhostAmm.Model.Events

namespace GhostAmm

open Py (Json Texts)

/-- What handling a message can raise. -/
inductive StreamError where
  | py (error : Py.Error)
  | keyError (key : String)
  /-- `'<type>' object has no attribute '<name>'`. -/
  | attributeError (typeName name : String)
  deriving DecidableEq

/-- A value as `float` reads it. -/
def scalarOf (texts : Texts) : Json → Scalar
  | .bool value => .number (if value then 1 else 0)
  | .int value => .number value
  | .float value => .number value
  | .str value =>
      match texts.float value with
      | some number => .number number
      | none => .text value
  | value => .foreign value.typeName

/-- `float(value)`. -/
def floatOf (texts : Texts) (value : Json) : Except StreamError ℚ :=
  match (scalarOf texts value).float with
  | .ok number => .ok number
  | .error e => .error (.py e)

/-- `_float_or_none`. -/
def floatOrNone (texts : Texts) (value : Json) : Except StreamError (Option ℚ) :=
  match value with
  | .null => .ok none
  | value => (floatOf texts value).map some

/-- A sequence as `_to_int` reads it later on. -/
def sequenceOf : Json → Sequence
  | .bool value => .int (if value then 1 else 0)
  | .int value => .int value
  | .float value => .int (Py.trunc value)
  | .str value => .text value
  | _ => .absent

/-- The levels of one side of a book message. -/
def levelsOf (texts : Texts) (value : Json) : List (Scalar × Scalar) :=
  match value.iterate with
  | .error _ => [(.foreign value.typeName, .foreign value.typeName)]
  | .ok items => items.map fun item =>
      match item.unpack with
      | some (price, amount) => (scalarOf texts price, scalarOf texts amount)
      | none => (.foreign item.typeName, .foreign item.typeName)

/-- `text.startswith(prefix)`, with what follows the prefix. -/
def afterPrefix (start text : String) : Option String :=
  if start.toList.isPrefixOf text.toList then
    some (String.ofList (text.toList.drop start.toList.length))
  else none

/-- `_pair_from_room`. -/
def pairFromRoom (roomName : String) : String :=
  (["depth_whole_", "depth_diff_", "transactions_", "ticker_", "circuit_break_info_"].findSome?
    fun start => afterPrefix start roomName).getD roomName

/-- `pair.upper().replace("_", "/")`. -/
def symbolOf (texts : Texts) (pair : String) : String :=
  String.ofList ((texts.upper pair).toList.map fun c => if c = '_' then '/' else c)

/-- `make_event` as the normalizer calls it, with the local time of the message. -/
def makeStreamEvent (rt : Runtime) (body : Body) (tsExchange tsLocal : ℚ) (symbol : String)
    (sequence : Json) : Event :=
  { makeEvent rt body tsExchange "bitbank" symbol (sequenceOf sequence) with tsLocal := tsLocal }

/-- One entry of a transactions message. -/
def tradeEvent (rt : Runtime) (texts : Texts) (symbol : String) (tsLocal : ℚ) (trade : Json) :
    Except StreamError Event := do
  match trade with
  | .obj fields =>
      let ts ← floatOf texts ((Json.get fields "executed_at").or (.float tsLocal))
      let side := match Json.get fields "side" with
        | .str "buy" => some .buy
        | .str "sell" => some .sell
        | _ => none
      let number (key : String) : Except StreamError ℚ :=
        if fields.any fun f => decide (f.1 = key) then floatOf texts (Json.get fields key)
        else .error (.keyError key)
      let price ← number "price"
      let amount ← number "amount"
      return makeStreamEvent rt (.trade ⟨side, price, amount⟩) ts tsLocal symbol
        (Json.get fields "transaction_id")
  | trade => .error (.attributeError trade.typeName "get")

/-- `normalize_bitbank_message`, for a message that came in at `tsLocal`. -/
def normalizeBitbankMessage (rt : Runtime) (texts : Texts) (roomName : String)
    (message : List (String × Json)) (tsLocal : ℚ) : Except StreamError (List Event) := do
  let envelope := match Json.get message "message" (.obj message) with
    | .obj envelope => envelope
    | _ => message
  let data := match Json.get envelope "data" (.obj envelope) with
    | .obj data => data
    | _ => []
  let now : Json := .float tsLocal
  let pair := pairFromRoom roomName
  let symbol := symbolOf texts pair
  let timestamp := Json.get data "timestamp"
  let pid := Json.get message "pid"
  let rawTs ← floatOf texts ((timestamp.or (Json.get data "t")).or now)
  let raw := makeStreamEvent rt (.other "bitbank_raw") rawTs tsLocal symbol
    (((Json.get data "sequenceId").or (Json.get data "s")).or pid)
  if (afterPrefix "ticker_" roomName).isSome then
    let ts ← floatOf texts (timestamp.or now)
    let sell ← floatOrNone texts (Json.get data "sell")
    let buy ← floatOrNone texts (Json.get data "buy")
    let last ← floatOrNone texts (Json.get data "last")
    -- the other prices and the volume are converted too, and may raise
    let _ ← floatOrNone texts (Json.get data "open")
    let _ ← floatOrNone texts (Json.get data "high")
    let _ ← floatOrNone texts (Json.get data "low")
    let _ ← floatOrNone texts (Json.get data "vol")
    return [raw, makeStreamEvent rt (.bitbankTicker ⟨buy, sell, last⟩) ts tsLocal symbol pid]
  else if (afterPrefix "transactions_" roomName).isSome then
    match (Json.get data "transactions" (.arr [])).iterate with
    | .error e => .error (.py e)
    | .ok trades =>
        let trades ← trades.mapM (tradeEvent rt texts symbol tsLocal)
        return raw :: trades
  else if (afterPrefix "depth_whole_" roomName).isSome then
    let ts ← floatOf texts (timestamp.or now)
    let book : BookPayload := ⟨levelsOf texts (Json.get data "bids" (.arr [])),
      levelsOf texts (Json.get data "asks" (.arr []))⟩
    return [raw, makeStreamEvent rt (.orderBookSnapshot book) ts tsLocal symbol
      (Json.get data "sequenceId")]
  else if (afterPrefix "depth_diff_" roomName).isSome then
    let ts ← floatOf texts ((Json.get data "t").or now)
    let book : BookPayload :=
      ⟨levelsOf texts (Json.get data "b" (Json.get data "bids" (.arr []))),
        levelsOf texts (Json.get data "a" (Json.get data "asks" (.arr [])))⟩
    return [raw, makeStreamEvent rt (.orderBookDelta book) ts tsLocal symbol (Json.get data "s")]
  else if (afterPrefix "circuit_break_info_" roomName).isSome then
    let ts ← floatOf texts (timestamp.or now)
    return [raw, makeStreamEvent rt (.bitbankStatus { pair := pair }) ts tsLocal symbol pid]
  else return [raw]

end GhostAmm
