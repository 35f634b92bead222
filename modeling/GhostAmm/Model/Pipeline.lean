/-
The pipeline (`pipeline.py`).

`process` handles one event: metadata, book, fair price, shock, fills, risk, quotes,
orders.  It can raise at three places, on a malformed book payload, in the fair
price engine and when a fill would make a balance negative, and whatever was written
before stays written: the result is a state together with the emitted events or the
exception.
-/
import GhostAmm.Lib.Machine
import GhostAmm.Model.FairPrice
import GhostAmm.Model.Shock
import GhostAmm.Model.Risk
import GhostAmm.Model.Projector
import GhostAmm.Model.FillModel
import GhostAmm.Model.LiveGates

namespace GhostAmm

/-- `GhostAmmPipeline`, less its configuration. -/
structure Pipeline where
  inventory : InventoryState
  book : OrderBook
  sources : Sources
  risk : RiskKernel
  shock : ShockActivator
  projector : OrderProjector
  fillModel : ConservativeQueueFillModel
  pairSpec : Option BitbankPairSpec
  status : Option BitbankStatus
  lastFair : FairPriceState
  lastShock : ShockState
  lastRisk : RiskDecision

/-- What `process` leaves: a state, and the emitted events or the exception. -/
abbrev Outcome := Pipeline × Except Py.Error (List Event)

namespace Pipeline

/-- `__init__`. -/
def init (cfg : Config) : Pipeline where
  inventory := ⟨cfg.inventory.initialBaseQty, cfg.inventory.initialQuoteQty⟩
  book := {}
  sources := Py.Table.empty
  risk := {}
  shock := {}
  projector := {}
  fillModel := ConservativeQueueFillModel.fromConfig cfg.fillModel
  pairSpec := none
  status := none
  lastFair := ⟨none, 0, none, false, some "not_initialized", [], none⟩
  lastShock := ⟨0, 0, 0, 0, 0, none, some "not_initialized", .neutral, 0, 0, none, none⟩
  lastRisk := .refuse "not_initialized"

/-- Where the pipeline files its own events. -/
def market (cfg : Config) : Market := ⟨cfg.execution.venue, cfg.symbol⟩

/-- `_maker_fee_bps_from_pair_spec`. -/
def makerFeeBpsFromPairSpec (spec : BitbankPairSpec) (cfg : FeeConfig) : ℚ :=
  if spec.makerFeeBpsQuote < 0 ∧ cfg.negativeMakerFeePolicy = "clamp_to_zero" then 0
  else spec.makerFeeBpsQuote

/-- `_ingest_metadata`. -/
def ingestMetadata (cfg : Config) (self : Pipeline) (event : Event) : Pipeline :=
  match event.body with
  | .bitbankPairSpec payload =>
      let spec := BitbankPairSpec.fromApi payload
      let self := { self with pairSpec := some spec }
      if cfg.fee.makerFeeSource = "bitbank_pair_spec" then
        { self with fillModel :=
            self.fillModel.setMakerFeeBps (makerFeeBpsFromPairSpec spec cfg.fee) }
      else self
  | .bitbankStatus payload =>
      match payload.status, payload.minAmount with
      | some status, some minAmount =>
          { self with status := some (BitbankStatus.fromApi payload.pair status minAmount) }
      | _, _ => self
  | _ => self

/-- The book takes a book event, the risk kernel a trade. -/
def ingestMarket (self : Pipeline) (event : Event) : Pipeline × Except Py.Error Unit :=
  match event.body with
  | .trade payload =>
      ({ self with risk := self.risk.recordTrade payload.price event.tsExchange }, .ok ())
  | _ =>
      let (book, result) := self.book.applyEvent event
      ({ self with book := book }, result)

/-- `emitted.append(make_event("mark_price", ...))`, when there is a fair price. -/
def markPriceEvents (rt : Runtime) (cfg : Config) (event : Event) (fairState : FairPriceState) :
    List Event :=
  if fairState.fair.isSome then
    [makeEvent rt (.markPrice fairState) event.tsExchange cfg.execution.venue cfg.symbol
      event.sequence]
  else []

/-- The loop over the fills: inventory, risk kernel and projector, in this order. -/
def applyFills (cfg : Config) : Pipeline → List FillPayload → Pipeline × Except Py.Error Unit
  | self, [] => (self, .ok ())
  | self, fill :: rest =>
      let (inventory, result) := self.inventory.applyFill cfg.inventory fill.side fill.fillPrice
        fill.fillSize fill.fee
      let self := { self with inventory := inventory }
      match result with
      | .error e => (self, .error e)
      | .ok () =>
          let self := { self with
            risk := self.risk.recordFill cfg.risk fill.side fill.fillTs fill.fillPrice fill.fillSize
            projector := self.projector.removeFilled fill.orderId }
          applyFills cfg self rest

/-- The `risk_state` event. -/
def riskStateEvent (rt : Runtime) (cfg : Config) (self : Pipeline) (event : Event)
    (fairState : FairPriceState) (shockState : ShockState) (decision : RiskDecision) : Event :=
  makeEvent rt
    (.riskState
      { decision := decision, shock := shockState, fair := fairState,
        bookSpreadBps := self.book.spreadBps, bookDepth20bps := self.book.depthAroundMid 20,
        bookStale := self.book.stale, bookStaleReason := self.book.staleReason,
        inventorySkew := self.inventory.skew cfg.inventory fairState.fair })
    event.tsExchange cfg.execution.venue cfg.symbol event.sequence

/-- The quotes of this step: none without a valid fair price. -/
def quotes (rt : Runtime) (cfg : Config) (self : Pipeline) (fairState : FairPriceState)
    (shockState : ShockState) : List Quote :=
  match fairState.isValid, fairState.fair with
  | true, some fair =>
      (QuoteSurface.fromConfig cfg.amm self.pairSpec).generate rt
        { fair := fair,
          inventorySkew := (self.inventory.skew cfg.inventory (some fair)).getD 0,
          bidActivation := shockState.bidActivation,
          askActivation := shockState.askActivation,
          shockEventId := shockState.lastShockEventId,
          shockDirection := shockState.direction,
          shockAgeMs := shockState.shockAgeMs }
  | _, _ => []

/-- `_live_order_observation_events`: every outcome of the gates is recorded as blocked. -/
def liveOrderObservationEvents (rt : Runtime) (cfg : Config) (self : Pipeline)
    (virtualOrder : Event) (payload : PlacedPayload) (decision : RiskDecision) : List Event :=
  let intent : OrderIntent :=
    { venue := virtualOrder.venue, pair := cfg.pair, symbol := virtualOrder.symbol,
      side := payload.side, price := payload.price, amount := payload.size,
      orderType := "limit", postOnly := payload.postOnly,
      clientOrderId := some payload.orderId }
  let intentEvent := makeEvent rt
    (.liveOrderIntent
      { pair := intent.pair, side := intent.side, price := intent.price, amount := intent.amount,
        orderType := intent.orderType, postOnly := intent.postOnly,
        clientOrderId := intent.clientOrderId, sourceEventId := virtualOrder.eventId })
    virtualOrder.tsExchange intent.venue intent.symbol
  let result := evaluateLiveOrderGates cfg intent self.pairSpec self.status (some self.book)
    decision 0 rt.environ
  let result :=
    if result.allowed then LiveGateResult.blocked "mvp_live_submission_disabled" else result
  [intentEvent, liveOrderBlockedEvent rt intent result virtualOrder.tsExchange]

/-- The loop over the projector's events: the fill model follows, and placements are observed. -/
def trackOrders (rt : Runtime) (cfg : Config) (decision : RiskDecision) :
    Pipeline → List Event → Pipeline × List Event
  | self, [] => (self, [])
  | self, out :: rest =>
      match out.body with
      | .virtualOrderPlaced payload =>
          let live := self.liveOrderObservationEvents rt cfg out payload decision
          let self := { self with
            fillModel := self.fillModel.onVirtualOrder cfg.fillModel payload self.book }
          let (self, more) := trackOrders rt cfg decision self rest
          (self, live ++ more)
      | .virtualOrderCanceled payload =>
          let self := { self with fillModel := self.fillModel.onCancel payload }
          trackOrders rt cfg decision self rest
      | _ => trackOrders rt cfg decision self rest

/-- The part of `process` after the fills: risk, quotes and orders. -/
def requote (rt : Runtime) (cfg : Config) (self : Pipeline) (event : Event)
    (fairState : FairPriceState) (shockState : ShockState) : Pipeline × List Event :=
  let (risk, decision) := self.risk.evaluate cfg
    { book := self.book, fairState := fairState, shockState := shockState,
      inventory := self.inventory, pairSpec := self.pairSpec, status := self.status,
      nowMs := event.tsExchange }
  let self := { self with risk := risk, lastRisk := decision }
  let riskState := self.riskStateEvent rt cfg event fairState shockState decision
  let (projector, projectorEvents) := self.projector.sync rt cfg.execution (market cfg)
    (self.quotes rt cfg fairState shockState) self.book decision event.tsExchange
  let self := { self with projector := projector }
  let (self, live) := trackOrders rt cfg decision self projectorEvents
  (self, riskState :: (projectorEvents ++ live))

/-- `process`. -/
def process (rt : Runtime) (cfg : Config) (self : Pipeline) (event : Event) : Outcome :=
  match (self.ingestMetadata cfg event).ingestMarket event with
  | (self, .error e) => (self, .error e)
  | (self, .ok ()) =>
      match fromMarketEvent cfg self.sources self.book event event.tsExchange with
      | (sources, .error e) => ({ self with sources := sources }, .error e)
      | (sources, .ok fairState) =>
          let (shock, shockState, shockEvent) :=
            self.shock.update rt cfg.shock event self.book fairState
          let (fillModel, fillEvents) :=
            self.fillModel.onMarketEvent rt cfg.fillModel event fairState
          let self := { self with
            sources := sources, lastFair := fairState, shock := shock, lastShock := shockState,
            fillModel := fillModel }
          match applyFills cfg self (fills fillEvents) with
          | (self, .error e) => (self, .error e)
          | (self, .ok ()) =>
              let (self, more) := self.requote rt cfg event fairState shockState
              (self, .ok (markPriceEvents rt cfg event fairState ++ shockEvent.toList ++
                fillEvents ++ more))

/-- Process a list of events, one after the other. -/
abbrev exec (rt : Runtime) (cfg : Config) (events : List Event) :
    Pipeline × Except Py.Error (List (Machine.Step Pipeline Event (List Event))) :=
  Machine.exec (process rt cfg) (init cfg) events

/-- The state after a list of events, an event that raises included. -/
def after (rt : Runtime) (cfg : Config) (events : List Event) : Pipeline :=
  events.foldl (fun self event => (process rt cfg self event).1) (init cfg)

end Pipeline

end GhostAmm
