/-
The metrics (`analytics/metrics.py`).

`summarize` never sees the pipeline: it replays the fills of a log on the initial
balances and marks the result at the price it is handed, or at the first price of
the log when it is handed none.  Its loop is `FillTally.add`, one step for each
fill, with one field for each accumulator of the source.
-/
import GhostAmm.Model.Events

namespace GhostAmm

structure MetricsSummary where
  totalPnl : ℚ
  baselineNoTradePnl : ℚ
  strategyAlphaPnl : ℚ
  startEquity : ℚ
  endEquity : ℚ
  baselineEndEquity : ℚ
  realizedPnl : ℚ
  unrealizedPnl : ℚ
  feesPaid : ℚ
  virtualOrders : ℕ
  virtualCancels : ℕ
  virtualReplaces : ℕ
  virtualFills : ℕ
  fillRate : ℚ
  fillPerPlacedOrder : ℚ
  averageQuoteLifetimeMs : Option ℚ
  ordersPerMinute : ℚ
  cancelsPerMinute : ℚ
  fillPerActiveSecond : ℚ
  averageSpreadCaptured : Option ℚ
  averageAdverse1s : Option ℚ
  averageAdverse5s : Option ℚ
  averageAdverse30s : Option ℚ
  averageAdverse1sBuy : Option ℚ
  averageAdverse1sSell : Option ℚ
  averageAdverse5sBuy : Option ℚ
  averageAdverse5sSell : Option ℚ
  averageAdverse30sBuy : Option ℚ
  averageAdverse30sSell : Option ℚ
  worstAdverseBuy : Option ℚ
  worstAdverseSell : Option ℚ
  shockEventFillCount : ℕ
  shockFillCountByEvent : Py.Table (Prod.fst : String × ℕ → String)
  shockDirectionByEvent : Py.Table (Prod.fst : String × ShockDirection → String)
  shockTotalSpreadCaptureByEvent : Py.Table (Prod.fst : String × ℚ → String)
  shockAverageAdverse5sByEvent : List (String × Option ℚ)
  pnlByShockEvent : ℚ
  pnlOutsideShockEvents : ℚ
  maxInventorySkew : Option ℚ
  maxDrawdown : ℚ
  worstFill : Option ℚ
  bestFill : Option ℚ
  riskBlockedQuoteCount : ℕ

/-- The price of a `mark_price` that has one. -/
def Event.markFair? (e : Event) : Option ℚ :=
  match e.body with
  | .markPrice payload => payload.fair
  | _ => none

/-- `_first_fair`. -/
def firstFair (events : List Event) : Option ℚ := events.findSome? Event.markFair?

/-- `_avg`. -/
def avg (values : List ℚ) : Option ℚ :=
  if values.isEmpty then none else some (values.sum / values.length)

/-- `_max_drawdown`. -/
def maxDrawdown (values : List ℚ) : ℚ :=
  (values.foldl
    (fun (acc : Option ℚ × ℚ) value =>
      let peak := match acc.1 with
        | none => value
        | some peak => max peak value
      (some peak, max acc.2 (peak - value)))
    (none, 0)).2

/-- `_min_nested`. -/
def minNested (groups : List (List ℚ)) : Option ℚ := groups.flatten.min?

/-! ### The loop over the fills -/

/-- The adverse moves after one horizon, of all fills and of each side's. -/
structure AdverseTally where
  all : List ℚ := []
  buy : List ℚ := []
  sell : List ℚ := []

/-- How far the price moved against a fill by `fairAfter`. -/
def adverseMove (fill : FillPayload) (fairAfter : ℚ) : ℚ :=
  match fill.side with
  | .buy => fairAfter - fill.fillPrice
  | .sell => fill.fillPrice - fairAfter

/-- One turn of the loop over the horizons; a fill without a later price is skipped. -/
def AdverseTally.add (self : AdverseTally) (fill : FillPayload) (fairAfter : Option ℚ) :
    AdverseTally :=
  match fairAfter with
  | none => self
  | some fairAfter =>
      let adverse := adverseMove fill fairAfter
      match fill.side with
      | .buy => { self with all := self.all ++ [adverse], buy := self.buy ++ [adverse] }
      | .sell => { self with all := self.all ++ [adverse], sell := self.sell ++ [adverse] }

/-- The accumulators of the loop. -/
structure FillTally where
  cash : ℚ
  base : ℚ
  realized : ℚ := 0
  adverse1s : AdverseTally := {}
  adverse5s : AdverseTally := {}
  adverse30s : AdverseTally := {}
  spreadCapture : List ℚ := []
  fillValues : List ℚ := []
  shockFillCounts : Py.Table (Prod.fst : String × ℕ → String) := Py.Table.empty
  shockDirectionByEvent : Py.Table (Prod.fst : String × ShockDirection → String) := Py.Table.empty
  shockSpreadCapture : Py.Table (Prod.fst : String × ℚ → String) := Py.Table.empty
  shockAdverse5s : Py.Table (Prod.fst : String × List ℚ → String) := Py.Table.empty

/-- `str(shock_event_id) if shock_event_id else None`. -/
def shockId (fill : FillPayload) : Option String := fill.shockEventId.filter (· ≠ "")

/-- What a fill gains on the fair price, unless that is missing or zero. -/
def spreadValue (fill : FillPayload) : Option ℚ :=
  (Py.truthy fill.fairAtFill).map fun fair =>
    match fill.side with
    | .buy => fair - fill.fillPrice
    | .sell => fill.fillPrice - fair

namespace FillTally

/-- The entries of the shock dictionaries a fill changes. -/
def addShock (self : FillTally) (fill : FillPayload) (id : String) : FillTally :=
  let count := ((self.shockFillCounts.get? id).map Prod.snd).getD 0
  let self := { self with
    shockFillCounts := self.shockFillCounts.put (id, count + 1)
    shockDirectionByEvent := self.shockDirectionByEvent.setDefault (id, fill.shockDirection) }
  let self := match spreadValue fill with
    | some value =>
        let total := ((self.shockSpreadCapture.get? id).map Prod.snd).getD 0
        { self with shockSpreadCapture :=
            self.shockSpreadCapture.put (id, total + value * fill.fillSize) }
    | none => self
  match fill.fairAfter5s with
  | some fairAfter =>
      let moves := ((self.shockAdverse5s.get? id).map Prod.snd).getD []
      { self with shockAdverse5s :=
          self.shockAdverse5s.put (id, moves ++ [adverseMove fill fairAfter]) }
  | none => self

/-- What a fill does to the base and to the cash. -/
def settle (self : FillTally) (fill : FillPayload) : FillTally :=
  let notional := fill.fillPrice * fill.fillSize
  match fill.side with
  | .buy => { self with
      base := self.base + fill.fillSize, cash := self.cash - (notional + fill.fee),
      realized := self.realized - fill.fee }
  | .sell => { self with
      base := self.base - fill.fillSize, cash := self.cash + (notional - fill.fee),
      realized := self.realized - fill.fee }

/-- One turn of the loop over the fills. -/
def add (lastFair : Option ℚ) (self : FillTally) (fill : FillPayload) : FillTally :=
  let self := match shockId fill with
    | some id => self.addShock fill id
    | none => self
  let self := { self with spreadCapture := self.spreadCapture ++ (spreadValue fill).toList }
  let self := self.settle fill
  let self := { self with
    adverse1s := self.adverse1s.add fill fill.fairAfter1s
    adverse5s := self.adverse5s.add fill fill.fairAfter5s
    adverse30s := self.adverse30s.add fill fill.fairAfter30s }
  let value := (Py.truthy lastFair).getD fill.fillPrice * self.base + self.cash
  { self with fillValues := self.fillValues ++ [value] }

/-- The loop over the fills. -/
def ofFills (initialBase initialQuote : ℚ) (lastFair : Option ℚ) (fills : List FillPayload) :
    FillTally :=
  fills.foldl (add lastFair) { cash := initialQuote, base := initialBase }

end FillTally

/-! ### Quote churn -/

structure QuoteChurn where
  averageQuoteLifetimeMs : Option ℚ := none
  ordersPerMinute : ℚ := 0
  cancelsPerMinute : ℚ := 0
  fillPerActiveSecond : ℚ := 0

/-- The accumulators of `_quote_churn`. -/
structure ChurnTally where
  placed : Py.Table (Prod.fst : String × ℚ → String) := Py.Table.empty
  closedAt : Py.Table (Prod.fst : String × ℚ → String) := Py.Table.empty
  fills : ℕ := 0
  cancels : ℕ := 0
  orders : ℕ := 0

def ChurnTally.add (self : ChurnTally) (event : Event) : ChurnTally :=
  match event.body with
  | .virtualOrderPlaced payload =>
      { self with placed := self.placed.put (payload.orderId, payload.createdAt),
                  orders := self.orders + 1 }
  | .virtualOrderCanceled payload =>
      { self with closedAt := self.closedAt.setDefault (payload.orderId, event.tsExchange),
                  cancels := self.cancels + 1 }
  | .virtualFill payload =>
      { self with closedAt := self.closedAt.setDefault (payload.orderId, event.tsExchange),
                  fills := self.fills + 1 }
  | _ => self

/-- `_quote_churn`. -/
def quoteChurn (events : List Event) : QuoteChurn :=
  match (events.map Event.tsExchange).min?, (events.map Event.tsExchange).max? with
  | some firstTs, some lastTs =>
      let durationMin := max ((lastTs - firstTs) / 60000) (1 / 10 ^ 12)
      let tally := events.foldl ChurnTally.add {}
      let lifetimes := tally.placed.rows.map fun row =>
        max 0 (((tally.closedAt.get? row.1).map Prod.snd).getD lastTs - row.2)
      let activeSeconds := lifetimes.sum / 1000
      { averageQuoteLifetimeMs := avg lifetimes
        ordersPerMinute := tally.orders / durationMin
        cancelsPerMinute := tally.cancels / durationMin
        fillPerActiveSecond := if 0 < activeSeconds then tally.fills / activeSeconds else 0 }
  | _, _ => {}

/-! ### The summary -/

/-- `start_fair`: the first price of the log, else the one handed over, else zero. -/
def startFair (events : List Event) (lastFair : Option ℚ) : ℚ :=
  ((Py.truthy (firstFair events)).or (Py.truthy lastFair)).getD 0

/-- `end_fair`: the price the final inventory is marked at. -/
def endFair (events : List Event) (lastFair : Option ℚ) : ℚ :=
  (Py.truthy lastFair).getD (startFair events lastFair)

/-- `event.event_type == "risk_state" and not event.payload.get("allow_quote")`. -/
def isBlockedQuote (event : Event) : Bool :=
  match event.body with
  | .riskState payload => !payload.decision.allowQuote
  | body => decide (body.eventType = "risk_state")

/-- `summarize`. -/
def summarize (events : List Event) (initialBase initialQuote : ℚ) (lastFair : Option ℚ) :
    MetricsSummary :=
  let fills := GhostAmm.fills events
  let virtualOrders := (placements events).length
  let tally := FillTally.ofFills initialBase initialQuote lastFair fills
  let startFair := GhostAmm.startFair events lastFair
  let endFair := GhostAmm.endFair events lastFair
  let startEquity := initialBase * startFair + initialQuote
  let endEquity := tally.base * endFair + tally.cash
  let baselineEndEquity := initialBase * endFair + initialQuote
  let totalPnl := endEquity - startEquity
  let churn := quoteChurn events
  let anyShock := events.any fun event => event.body.eventType == "forced_flow"
  { totalPnl := totalPnl
    baselineNoTradePnl := baselineEndEquity - startEquity
    strategyAlphaPnl := endEquity - baselineEndEquity
    startEquity := startEquity
    endEquity := endEquity
    baselineEndEquity := baselineEndEquity
    realizedPnl := tally.realized
    unrealizedPnl := totalPnl - tally.realized
    feesPaid := (fills.map FillPayload.fee).sum
    virtualOrders := virtualOrders
    virtualCancels := (cancels events).length
    virtualReplaces := (cancels events).countP fun payload => payload.reason = "replaced"
    virtualFills := fills.length
    fillRate := if virtualOrders = 0 then 0 else fills.length / virtualOrders
    fillPerPlacedOrder := if virtualOrders = 0 then 0 else fills.length / virtualOrders
    averageQuoteLifetimeMs := churn.averageQuoteLifetimeMs
    ordersPerMinute := churn.ordersPerMinute
    cancelsPerMinute := churn.cancelsPerMinute
    fillPerActiveSecond := churn.fillPerActiveSecond
    averageSpreadCaptured := avg tally.spreadCapture
    averageAdverse1s := avg tally.adverse1s.all
    averageAdverse5s := avg tally.adverse5s.all
    averageAdverse30s := avg tally.adverse30s.all
    averageAdverse1sBuy := avg tally.adverse1s.buy
    averageAdverse1sSell := avg tally.adverse1s.sell
    averageAdverse5sBuy := avg tally.adverse5s.buy
    averageAdverse5sSell := avg tally.adverse5s.sell
    averageAdverse30sBuy := avg tally.adverse30s.buy
    averageAdverse30sSell := avg tally.adverse30s.sell
    worstAdverseBuy := minNested [tally.adverse1s.buy, tally.adverse5s.buy, tally.adverse30s.buy]
    worstAdverseSell :=
      minNested [tally.adverse1s.sell, tally.adverse5s.sell, tally.adverse30s.sell]
    shockEventFillCount := (tally.shockFillCounts.rows.map Prod.snd).sum
    shockFillCountByEvent := tally.shockFillCounts
    shockDirectionByEvent := tally.shockDirectionByEvent
    shockTotalSpreadCaptureByEvent := tally.shockSpreadCapture
    shockAverageAdverse5sByEvent :=
      tally.shockAdverse5s.rows.map fun row => (row.1, avg row.2)
    pnlByShockEvent := if anyShock then totalPnl else 0
    pnlOutsideShockEvents := if anyShock then 0 else totalPnl
    maxInventorySkew := ((placements events).map fun payload => |payload.inventorySkew|).max?
    maxDrawdown := GhostAmm.maxDrawdown tally.fillValues
    worstFill := tally.spreadCapture.min?
    bestFill := tally.spreadCapture.max?
    riskBlockedQuoteCount := events.countP isBlockedQuote }

end GhostAmm
