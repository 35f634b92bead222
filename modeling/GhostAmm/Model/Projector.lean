/-
The order projector (`amm/projector.py`).

The projector keeps one active order under each key, a side and a level, and a
counter that placements and cancels share.  An order's identity is the text
`v-<milliseconds>-<counter>`, so it is the counter that makes identities distinct.
-/
import GhostAmm.Model.Config
import GhostAmm.Model.OrderBook
import GhostAmm.Model.QuoteSurface

namespace GhostAmm

structure ActiveVirtualOrder where
  orderId : String
  side : Side
  price : ℚ
  size : ℚ
  level : ℕ
  createdAt : ℚ
  expiresAt : ℚ
  activation : ℚ
  inventorySkew : ℚ
  fairPriceAtCreation : ℚ
  shockEventId : Option String := none
  shockDirection : ShockDirection := .neutral
  shockAgeMs : Option ℚ := none
  deriving DecidableEq

/-- `_key`, of a quote. -/
def Quote.key (quote : Quote) : Side × ℕ := (quote.side, quote.level)

/-- The key an order is filed under: that of the quote it was placed for. -/
def ActiveVirtualOrder.key (order : ActiveVirtualOrder) : Side × ℕ := (order.side, order.level)

/-- `f"v-{int(now_ms)}-{counter:06d}"`. -/
def makeOrderId (nowMs : ℚ) (counter : ℕ) : String :=
  String.ofList ("v-".toList ++ (toString (Py.trunc nowMs)).toList ++ '-' :: Py.zeroPad 6 counter)

/-- `OrderProjector`, less the settings the execution section holds. -/
structure OrderProjector where
  active : Py.Table ActiveVirtualOrder.key := Py.Table.empty
  counter : ℕ := 0

/-- Where the pipeline's own events are filed. -/
structure Market where
  venue : String
  symbol : String

namespace OrderProjector

/-- Whether an order at this price may rest: its side is allowed and it does not cross. -/
def restsPassively (side : Side) (price : ℚ) (book : OrderBook) (risk : RiskDecision) : Bool :=
  match side with
  | .buy => risk.allowBuy && book.bestAsk.any fun ask => decide (price < ask)
  | .sell => risk.allowSell && book.bestBid.any fun bid => decide (bid < price)

/-- `_post_only_safe`. -/
def postOnlySafe (quote : Quote) (book : OrderBook) (risk : RiskDecision) : Bool :=
  restsPassively quote.side quote.price book risk

/-- `_active_post_only_safe`. -/
def activePostOnlySafe (order : ActiveVirtualOrder) (book : OrderBook) (risk : RiskDecision) :
    Bool :=
  restsPassively order.side order.price book risk

/-- `_should_keep_existing`. -/
def shouldKeepExisting (cfg : ExecutionConfig) (order : ActiveVirtualOrder) (quote : Quote)
    (nowMs : ℚ) : Bool :=
  if order.expiresAt ≤ nowMs then false
  else if order.price = quote.price ∧ order.size = quote.size then true
  else if nowMs - order.createdAt < cfg.minQuoteReplaceIntervalMs then true
  else
    let priceBps := |quote.price - order.price| / max order.price (1 / 10 ^ 12) * 10000
    let sizeRatio := |quote.size - order.size| / max order.size (1 / 10 ^ 12)
    decide (priceBps ≤ cfg.quoteReplaceThresholdBps) &&
      decide (sizeRatio ≤ cfg.sizeReplaceThresholdRatio)

/-- `_cancel_event`: it takes a number from the counter. -/
def cancelEvent (rt : Runtime) (market : Market) (self : OrderProjector)
    (order : ActiveVirtualOrder) (nowMs : ℚ) (reason : String) : OrderProjector × Event :=
  let counter := self.counter + 1
  ({ self with counter := counter },
   makeEvent rt (.virtualOrderCanceled ⟨order.orderId, reason, order.side, order.price, order.size⟩)
     nowMs market.venue market.symbol (.int counter))

/-- `cancel_all`. -/
def cancelAll (rt : Runtime) (market : Market) (self : OrderProjector) (nowMs : ℚ)
    (reason : String) : OrderProjector × List Event :=
  let (self, events) := self.active.rows.foldl
    (fun (acc : OrderProjector × List Event) order =>
      let (self, event) := acc.1.cancelEvent rt market order nowMs reason
      (self, acc.2 ++ [event]))
    (self, [])
  ({ self with active := Py.Table.empty }, events)

/-- The order a quote becomes. -/
def orderOf (cfg : ExecutionConfig) (quote : Quote) (nowMs : ℚ) (counter : ℕ) :
    ActiveVirtualOrder where
  orderId := makeOrderId nowMs counter
  side := quote.side
  price := quote.price
  size := quote.size
  level := quote.level
  createdAt := nowMs
  expiresAt := nowMs + cfg.quoteTtlMs
  activation := quote.activation
  inventorySkew := quote.inventorySkew
  fairPriceAtCreation := quote.fair
  shockEventId := quote.shockEventId
  shockDirection := quote.shockDirection
  shockAgeMs := quote.shockAgeMs

/-- The payload of the `virtual_order_placed` of an order. -/
def placedPayload (order : ActiveVirtualOrder) : PlacedPayload where
  orderId := order.orderId
  side := order.side
  price := order.price
  size := order.size
  postOnly := true
  createdAt := order.createdAt
  expiresAt := order.expiresAt
  reason := "ghost_amm_quote"
  quoteLevel := order.level
  activation := order.activation
  shockEventId := order.shockEventId
  shockDirection := order.shockDirection
  shockAgeMs := order.shockAgeMs
  inventorySkew := order.inventorySkew
  fairPriceAtCreation := order.fairPriceAtCreation

/-- Place the order a quote asks for. -/
def place (rt : Runtime) (cfg : ExecutionConfig) (market : Market) (self : OrderProjector)
    (quote : Quote) (nowMs : ℚ) : OrderProjector × Event :=
  let counter := self.counter + 1
  let order := orderOf cfg quote nowMs counter
  ({ active := self.active.put order, counter := counter },
   makeEvent rt (.virtualOrderPlaced (placedPayload order)) nowMs market.venue market.symbol
     (.int counter))

/-- The first loop of `sync`, at one active order: cancel it unless it may stay. -/
def cancelUnlessWanted (rt : Runtime) (market : Market) (desiredKeys : List (Side × ℕ))
    (book : OrderBook) (risk : RiskDecision) (nowMs : ℚ)
    (acc : OrderProjector × List Event) (order : ActiveVirtualOrder) :
    OrderProjector × List Event :=
  let (self, events) := acc
  if order.key ∉ desiredKeys ∨ order.expiresAt ≤ nowMs ∨
      activePostOnlySafe order book risk = false then
    let (self, event) := self.cancelEvent rt market order nowMs "stale_or_replaced"
    ({ self with active := self.active.erase order.key }, events ++ [event])
  else (self, events)

/-- The second loop of `sync`, at one desired quote: keep, replace or place. -/
def keepOrPlace (rt : Runtime) (cfg : ExecutionConfig) (market : Market) (nowMs : ℚ)
    (acc : OrderProjector × List Event) (quote : Quote) : OrderProjector × List Event :=
  let (self, events) := acc
  match self.active.get? quote.key with
  | some existing =>
      if shouldKeepExisting cfg existing quote nowMs then (self, events)
      else
        let (self, canceled) := self.cancelEvent rt market existing nowMs "replaced"
        let self := { self with active := self.active.erase quote.key }
        let (self, placed) := self.place rt cfg market quote nowMs
        (self, events ++ [canceled, placed])
  | none =>
      let (self, placed) := self.place rt cfg market quote nowMs
      (self, events ++ [placed])

/-- `sync`. -/
def sync (rt : Runtime) (cfg : ExecutionConfig) (market : Market) (self : OrderProjector)
    (quotes : List Quote) (book : OrderBook) (risk : RiskDecision) (nowMs : ℚ) :
    OrderProjector × List Event :=
  if !risk.allowQuote then
    self.cancelAll rt market nowMs (Py.textOr risk.reason "risk_block")
  else
    let desired := quotes.filter fun q => postOnlySafe q book risk
    let desired := Py.sliceTo desired cfg.maxActiveOrdersPerPair
    let desiredKeys := desired.map Quote.key
    let acc := self.active.rows.foldl
      (cancelUnlessWanted rt market desiredKeys book risk nowMs) (self, [])
    desired.foldl (keepOrPlace rt cfg market nowMs) acc

/-- `remove_filled`: any fill of an order, full or partial, removes it. -/
def removeFilled (self : OrderProjector) (orderId : String) : OrderProjector :=
  match self.active.rows.find? fun order => decide (order.orderId = orderId) with
  | some order => { self with active := self.active.erase order.key }
  | none => self

end OrderProjector

end GhostAmm
