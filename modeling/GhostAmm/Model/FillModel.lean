/-
The fill model (`replay/fill_model.py`).

An order waits behind `queue_ahead`, and a trade that reaches its price first eats
the queue and then the order.  `_consume` changes the tracked order in place, so the
model writes the changed order back under its identity, or removes it once no more
than `1e-12` of it is left.
-/
import GhostAmm.Model.Config
import GhostAmm.Model.OrderBook

namespace GhostAmm

structure TrackedOrder where
  orderId : String
  side : Side
  price : ℚ
  remainingSize : ℚ
  createdAt : ℚ
  queueAhead : ℚ
  fairAtCreation : ℚ
  activation : ℚ
  shockEventId : Option String := none
  shockDirection : ShockDirection := .neutral
  shockAgeMs : Option ℚ := none
  deriving DecidableEq

/-- `ConservativeQueueFillModel`, less the settings its section holds. -/
structure ConservativeQueueFillModel where
  makerFeeBps : ℚ
  orders : Py.Table TrackedOrder.orderId := Py.Table.empty
  counter : ℕ := 0

/-- The size at or below which a resting order is dropped. -/
def dust : ℚ := 1 / 10 ^ 12

namespace ConservativeQueueFillModel

def fromConfig (cfg : FillModelConfig) : ConservativeQueueFillModel where
  makerFeeBps := cfg.makerFeeBpsFallback

def setMakerFeeBps (self : ConservativeQueueFillModel) (makerFeeBps : ℚ) :
    ConservativeQueueFillModel :=
  { self with makerFeeBps := makerFeeBps }

/-- The order `on_virtual_order` tracks. -/
def trackedOf (cfg : FillModelConfig) (payload : PlacedPayload) (book : OrderBook) :
    TrackedOrder where
  orderId := payload.orderId
  side := payload.side
  price := payload.price
  remainingSize := payload.size
  createdAt := payload.createdAt
  queueAhead := max (book.queueAt payload.side payload.price * cfg.queueAheadMultiplier)
    (payload.size * cfg.queueAheadMultiplier)
  fairAtCreation := payload.fairPriceAtCreation
  activation := payload.activation
  shockEventId := payload.shockEventId
  shockDirection := payload.shockDirection
  shockAgeMs := payload.shockAgeMs

/-- `on_virtual_order`. -/
def onVirtualOrder (cfg : FillModelConfig) (self : ConservativeQueueFillModel)
    (payload : PlacedPayload) (book : OrderBook) : ConservativeQueueFillModel :=
  { self with orders := self.orders.put (trackedOf cfg payload book) }

/-- `on_cancel`. -/
def onCancel (self : ConservativeQueueFillModel) (payload : CanceledPayload) :
    ConservativeQueueFillModel :=
  { self with orders := self.orders.erase payload.orderId }

/-- The test of `_eligible_orders` at one order. -/
def isEligible (cfg : FillModelConfig) (trade : TradePayload) (nowMs : ℚ) (order : TrackedOrder) :
    Bool :=
  if nowMs - order.createdAt < cfg.minRestingTimeMs then false
  else
    match order.side, trade.side with
    | .buy, some .sell => decide (trade.price ≤ order.price)
    | .sell, some .buy => decide (order.price ≤ trade.price)
    | _, _ => false

/-- The key `_eligible_orders` sorts by: price, best first, then age, then the identity as text. -/
def hasPriority (taker : Option Side) (a b : TrackedOrder) : Bool :=
  let price (o : TrackedOrder) := if taker = some .sell then -o.price else o.price
  decide (price a < price b ∨ (price a = price b ∧
    (a.createdAt < b.createdAt ∨ (a.createdAt = b.createdAt ∧ a.orderId ≤ b.orderId))))

/-- `_eligible_orders`. -/
def eligibleOrders (cfg : FillModelConfig) (self : ConservativeQueueFillModel)
    (trade : TradePayload) (nowMs : ℚ) : List TrackedOrder :=
  (self.orders.rows.filter (isEligible cfg trade nowMs)).insertionSort
    fun a b => hasPriority trade.side a b = true

/-- The fill of `size` of `order` at a trade. -/
def fillEvent (rt : Runtime) (order : TrackedOrder) (size makerFeeBps queueAhead : ℚ)
    (counter : ℕ) (event : Event) (fairState : FairPriceState) : Event :=
  makeEvent rt
    (.virtualFill
      { orderId := order.orderId, side := order.side, fillPrice := order.price,
        fillSize := size, fillTs := event.tsExchange,
        fee := order.price * size * makerFeeBps / 10000, feeAsset := "quote",
        makerFeeBps := makerFeeBps, queueAheadEstimate := queueAhead,
        fairAtFill := fairState.fair, fairAfter1s := none, fairAfter5s := none,
        fairAfter30s := none, activation := order.activation,
        shockEventId := order.shockEventId, shockDirection := order.shockDirection,
        shockAgeMs := order.shockAgeMs })
    event.tsExchange event.venue event.symbol (.text ("fill-" ++ toString counter))

/-- `_consume`: the model, the fill if there is one, and the flow that is left. -/
def consume (rt : Runtime) (self : ConservativeQueueFillModel) (order : TrackedOrder)
    (tradeAmount : ℚ) (event : Event) (fairState : FairPriceState) :
    ConservativeQueueFillModel × List Event × ℚ :=
  let reduction := if 0 < order.queueAhead then min order.queueAhead tradeAmount else 0
  let queueAhead := order.queueAhead - reduction
  let remainingFlow := tradeAmount - reduction
  let queued := { self with orders := self.orders.put { order with queueAhead := queueAhead } }
  if 0 < queueAhead ∨ remainingFlow ≤ 0 then (queued, [], remainingFlow)
  else
    let fillSize := min order.remainingSize remainingFlow
    if fillSize ≤ 0 then (queued, [], remainingFlow)
    else
      let remainingSize := order.remainingSize - fillSize
      let counter := self.counter + 1
      let fill := fillEvent rt order fillSize self.makerFeeBps queueAhead counter event fairState
      let orders :=
        if remainingSize ≤ dust then self.orders.erase order.orderId
        else self.orders.put { order with queueAhead := queueAhead, remainingSize := remainingSize }
      ({ self with orders := orders, counter := counter }, [fill], remainingFlow - fillSize)

/-- The loop of `on_market_event` over the eligible orders. -/
def consumeAll (rt : Runtime) (event : Event) (fairState : FairPriceState) :
    List TrackedOrder → ConservativeQueueFillModel → ℚ →
      ConservativeQueueFillModel × List Event
  | [], self, _ => (self, [])
  | order :: rest, self, amount =>
      if amount ≤ 0 then (self, [])
      else
        let (self, fills, amount) := self.consume rt order amount event fairState
        let (self, more) := consumeAll rt event fairState rest self amount
        (self, fills ++ more)

/-- `on_market_event`. -/
def onMarketEvent (rt : Runtime) (cfg : FillModelConfig) (self : ConservativeQueueFillModel)
    (event : Event) (fairState : FairPriceState) : ConservativeQueueFillModel × List Event :=
  match event.body with
  | .trade trade =>
      consumeAll rt event fairState (self.eligibleOrders cfg trade event.tsExchange) self
        trade.amount
  | _ => (self, [])

end ConservativeQueueFillModel

end GhostAmm
