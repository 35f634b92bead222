/-
Events (`events.py`) and what they carry.

An event is a header and a payload.  The payload of each event type the pipeline
reads or emits is a record of its own, so the event type is the constructor of
`Body` and a payload cannot be read under a type it does not have.  A dictionary
entry that the source reads with `.get` is an `Option`, and a level of a book
payload keeps what `float` makes of it, number or exception, because `apply_event`
can raise half way through a payload.

`FairPriceState`, `ShockState` and `RiskDecision` stand here because the pipeline
puts them into payloads whole.  Texts that nothing reads (a raw payload, a trade's
id, the volume of a ticker) are left out.
-/
import GhostAmm.Lib.IntText
import GhostAmm.Lib.Python
import GhostAmm.Lib.Table

namespace GhostAmm

/-- The side of an order, or of the taker of a trade. -/
inductive Side where
  | buy
  | sell
  deriving DecidableEq, Repr

/-- The side a taker must be on to trade against an order on this side. -/
def Side.opposite : Side → Side
  | .buy => .sell
  | .sell => .buy

/-- `_pressure_direction` and the direction an order remembers. -/
inductive ShockDirection where
  | neutral
  | sellShock
  | buyShock
  deriving DecidableEq, Repr

/-- `sequence: int | str | None`. -/
inductive Sequence where
  | absent
  | int (value : ℤ)
  | text (value : String)
  deriving DecidableEq, Repr

/-- `_to_int`. -/
def Sequence.toInt : Sequence → Option ℤ
  | .absent => none
  | .int value => some value
  | .text value => Py.intOfText value

/-- `str(event.sequence)`. -/
def Sequence.str : Sequence → String
  | .absent => "None"
  | .int value => toString value
  | .text value => value

/-- An entry of a book level as `float` reads it: a number, or a value `float` refuses. -/
inductive Scalar where
  | number (value : ℚ)
  /-- A text that is no number. -/
  | text (value : String)
  /-- A value of a type `float` does not take, such as null. -/
  | foreign (typeName : String)
  deriving DecidableEq, Repr

/-- `float(entry)`. -/
def Scalar.float : Scalar → Except Py.Error ℚ
  | .number value => .ok value
  | .text value => .error (.valueError ("could not convert string to float: '" ++ value ++ "'"))
  | .foreign typeName =>
      .error (.typeError
        ("float() argument must be a string or a real number, not '" ++ typeName ++ "'"))

/-! ### Payloads of source events -/

/-- `{"bids": [[price, amount], ...], "asks": [...]}`. -/
structure BookPayload where
  bids : List (Scalar × Scalar) := []
  asks : List (Scalar × Scalar) := []
  deriving DecidableEq, Repr

/-- A trade; `side` is the taker's, `none` for any text but `buy` and `sell`. -/
structure TradePayload where
  side : Option Side
  price : ℚ
  amount : ℚ
  deriving DecidableEq, Repr

structure TickerPayload where
  buy : Option ℚ := none
  sell : Option ℚ := none
  last : Option ℚ := none
  deriving DecidableEq, Repr

/-- `none` is a missing key.  In `fairJpy`, `btcUsd` and `usdJpy` the inner `none` is a
value that is null or not a number: a key with such a value hides its fallback key. -/
structure ExternalFairPayload where
  fairJpy : Option (Option ℚ) := none
  fair : Option ℚ := none
  btcUsd : Option (Option ℚ) := none
  btcPrice : Option ℚ := none
  usdJpy : Option (Option ℚ) := none
  fxRateJpy : Option ℚ := none
  source : Option String := none
  spreadBps : Option ℚ := none
  confidence : Option ℚ := none
  tsMs : Option ℚ := none
  deriving DecidableEq, Repr

/-- A status message or a circuit-break message; only the first kind has `status`. -/
structure StatusPayload where
  pair : String
  status : Option String := none
  minAmount : Option (Option ℚ) := none
  deriving DecidableEq, Repr

structure PairSpecPayload where
  name : String
  baseAsset : Option String := none
  quoteAsset : Option String := none
  unitAmount : ℚ
  limitMaxAmount : ℚ
  priceDigits : ℤ
  amountDigits : ℤ
  makerFeeRateBase : Option ℚ := none
  makerFeeRateQuote : Option ℚ := none
  takerFeeRateBase : Option ℚ := none
  takerFeeRateQuote : Option ℚ := none
  isEnabled : Option Bool := none
  stopOrder : Option Bool := none
  stopOrderAndCancel : Option Bool := none
  stopBuyOrder : Option Bool := none
  stopSellOrder : Option Bool := none
  deriving DecidableEq, Repr

/-! ### States the pipeline reports -/

structure FairPriceState where
  fair : Option ℚ
  sourceCount : ℕ
  spreadBps : Option ℚ
  isValid : Bool
  reason : Option String := none
  sources : List String := []
  deviationBps : Option ℚ := none
  deriving DecidableEq, Repr

structure ShockState where
  activation : ℚ
  forceRatio : ℚ
  recentTakerBuyNotional : ℚ
  recentTakerSellNotional : ℚ
  depth20bps : ℚ
  lastShockTs : Option ℚ
  reason : Option String
  direction : ShockDirection := .neutral
  bidActivation : ℚ := 0
  askActivation : ℚ := 0
  lastShockEventId : Option String := none
  shockAgeMs : Option ℚ := none
  deriving DecidableEq, Repr

structure RiskDecision where
  allowQuote : Bool
  allowBuy : Bool
  allowSell : Bool
  maxOrderSize : ℚ
  reason : Option String := none
  blockedSides : List Side := []
  cooldownUntilMs : Option ℚ := none
  sideBlockReasons : Py.Table (Prod.fst : Side × String → Side) := Py.Table.empty
  deriving DecidableEq

/-! ### Payloads of emitted events -/

structure ForcedFlowPayload where
  forceRatio : ℚ
  recentTakerBuyNotional : ℚ
  recentTakerSellNotional : ℚ
  depth20bps : ℚ
  direction : ShockDirection
  inferred : Bool
  deriving DecidableEq, Repr

structure PlacedPayload where
  orderId : String
  side : Side
  price : ℚ
  size : ℚ
  postOnly : Bool
  createdAt : ℚ
  expiresAt : ℚ
  reason : String
  quoteLevel : ℕ
  activation : ℚ
  shockEventId : Option String
  shockDirection : ShockDirection
  shockAgeMs : Option ℚ
  inventorySkew : ℚ
  fairPriceAtCreation : ℚ
  deriving DecidableEq, Repr

structure CanceledPayload where
  orderId : String
  reason : String
  side : Side
  price : ℚ
  size : ℚ
  deriving DecidableEq, Repr

structure FillPayload where
  orderId : String
  side : Side
  fillPrice : ℚ
  fillSize : ℚ
  fillTs : ℚ
  fee : ℚ
  feeAsset : String
  makerFeeBps : ℚ
  queueAheadEstimate : ℚ
  fairAtFill : Option ℚ
  fairAfter1s : Option ℚ
  fairAfter5s : Option ℚ
  fairAfter30s : Option ℚ
  activation : ℚ
  shockEventId : Option String
  shockDirection : ShockDirection
  shockAgeMs : Option ℚ
  deriving DecidableEq, Repr

/-- The risk decision with what it was taken on. -/
structure RiskStatePayload where
  decision : RiskDecision
  shock : ShockState
  fair : FairPriceState
  bookSpreadBps : Option ℚ
  bookDepth20bps : ℚ
  bookStale : Bool
  bookStaleReason : Option String
  inventorySkew : Option ℚ
  deriving DecidableEq

structure LiveOrderIntentPayload where
  pair : String
  side : Side
  price : ℚ
  amount : ℚ
  orderType : String
  postOnly : Bool
  clientOrderId : Option String
  sourceEventId : String
  deriving DecidableEq, Repr

structure LiveOrderBlockedPayload where
  pair : String
  side : Side
  price : ℚ
  amount : ℚ
  orderType : String
  postOnly : Bool
  clientOrderId : Option String
  reason : Option String
  deriving DecidableEq, Repr

/-! ### Events -/

/-- The event type together with the payload it has. -/
inductive Body where
  | orderBookSnapshot (payload : BookPayload)
  | orderBookDelta (payload : BookPayload)
  | trade (payload : TradePayload)
  | bitbankTicker (payload : TickerPayload)
  | bitbankStatus (payload : StatusPayload)
  | bitbankPairSpec (payload : PairSpecPayload)
  | externalFairPrice (payload : ExternalFairPayload)
  | markPrice (payload : FairPriceState)
  | forcedFlow (payload : ForcedFlowPayload)
  | virtualOrderPlaced (payload : PlacedPayload)
  | virtualOrderCanceled (payload : CanceledPayload)
  | virtualFill (payload : FillPayload)
  | riskState (payload : RiskStatePayload)
  | liveOrderIntent (payload : LiveOrderIntentPayload)
  | liveOrderBlocked (payload : LiveOrderBlockedPayload)
  /-- `bitbank_raw`, `dry_run_heartbeat`, `ccxt_rest_call_blocked` and unknown types, and the
  `risk_state` lines that the recorder and the dry run write themselves, which refuse to quote. -/
  | other (eventType : String)
  deriving DecidableEq

structure Event where
  eventId : String
  tsExchange : ℚ
  tsLocal : ℚ
  venue : String
  symbol : String
  sequence : Sequence
  body : Body
  deriving DecidableEq

/-- `event.event_type`. -/
def Body.eventType : Body → String
  | .orderBookSnapshot _ => "order_book_snapshot"
  | .orderBookDelta _ => "order_book_delta"
  | .trade _ => "trade"
  | .bitbankTicker _ => "bitbank_ticker"
  | .bitbankStatus _ => "bitbank_status"
  | .bitbankPairSpec _ => "bitbank_pair_spec"
  | .externalFairPrice _ => "external_fair_price"
  | .markPrice _ => "mark_price"
  | .forcedFlow _ => "forced_flow"
  | .virtualOrderPlaced _ => "virtual_order_placed"
  | .virtualOrderCanceled _ => "virtual_order_canceled"
  | .virtualFill _ => "virtual_fill"
  | .riskState _ => "risk_state"
  | .liveOrderIntent _ => "live_order_intent"
  | .liveOrderBlocked _ => "live_order_blocked"
  | .other eventType => eventType

/--
What the modelled code takes from its runtime: `math.exp`, the digest
`deterministic_event_id` makes of an event's type, time, venue, symbol, sequence and
payload, and the process environment.
-/
structure Runtime where
  exp : ℚ → ℚ
  deterministicEventId : ℚ → String → String → Sequence → Body → String
  environ : String → Option String

/-- `make_event`, as every caller in the pipeline uses it. -/
def makeEvent (rt : Runtime) (body : Body) (tsExchange : ℚ) (venue symbol : String)
    (sequence : Sequence := .absent) : Event where
  eventId := rt.deterministicEventId tsExchange venue symbol sequence body
  tsExchange := tsExchange
  tsLocal := tsExchange
  venue := venue
  symbol := symbol
  sequence := sequence
  body := body

@[simp] theorem makeEvent_body (rt : Runtime) (body : Body) (ts : ℚ) (venue symbol : String)
    (seq : Sequence) : (makeEvent rt body ts venue symbol seq).body = body := rfl

@[simp] theorem makeEvent_tsExchange (rt : Runtime) (body : Body) (ts : ℚ)
    (venue symbol : String) (seq : Sequence) :
    (makeEvent rt body ts venue symbol seq).tsExchange = ts := rfl

/-! ### The parts of a log -/

/-- The payload of a `virtual_order_placed`. -/
def Event.placed? (e : Event) : Option PlacedPayload :=
  match e.body with
  | .virtualOrderPlaced p => some p
  | _ => none

/-- The payload of a `virtual_order_canceled`. -/
def Event.canceled? (e : Event) : Option CanceledPayload :=
  match e.body with
  | .virtualOrderCanceled p => some p
  | _ => none

/-- The payload of a `virtual_fill`. -/
def Event.fill? (e : Event) : Option FillPayload :=
  match e.body with
  | .virtualFill p => some p
  | _ => none

/-- The orders a log places, in order. -/
def placements (log : List Event) : List PlacedPayload := log.filterMap Event.placed?

/-- The cancels of a log, in order. -/
def cancels (log : List Event) : List CanceledPayload := log.filterMap Event.canceled?

/-- The fills of a log, in order. -/
def fills (log : List Event) : List FillPayload := log.filterMap Event.fill?

end GhostAmm
