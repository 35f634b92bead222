/-
The functions of a call, with their divisions.

A quotient by zero is zero in Lean and raises in Python.  The functions of the other modules
divide as Lean does wherever something in the source keeps the divisor away from zero.  Here
each quotient by a computed number is taken by `Py.div`, which raises, and a function that calls
one that can raise passes the exception on, with the state that has been written by then.  What
divides by a constant only, or not at all, is used as it is.
-/
import GhostAmm.Lib.Division
import GhostAmm.Model.Pipeline

namespace GhostAmm.Checked

/-! ### The order book -/

/-- `spread_bps`. -/
def spreadBps (book : OrderBook) : Except Py.Error (Option ℚ) :=
  match book.bestBid, book.bestAsk with
  | some bid, some ask =>
      let mid := (bid + ask) / 2
      if mid ≤ 0 then .ok none
      else do
        let ratio ← Py.div (ask - bid) mid
        return some (ratio * 10000)
  | _, _ => .ok none

/-! ### The fair price -/

/-- `_source_from_ticker`. -/
def sourceFromTicker (payload : TickerPayload) (ts : ℚ) :
    Except Py.Error (Option FairPriceSource) :=
  let fromLast : Option FairPriceSource :=
    match payload.last with
    | some last =>
        if 0 < last then some ⟨"bitbank_ticker_last", last, ts, none, 1 / 2⟩ else none
    | none => none
  match payload.buy, payload.sell with
  | some bid, some ask =>
      if 0 < bid ∧ 0 < ask ∧ bid < ask then do
        let mid := (bid + ask) / 2
        let ratio ← Py.div (ask - bid) mid
        return some ⟨"bitbank_ticker_mid", mid, ts, some (ratio * 10000), 1⟩
      else .ok fromLast
  | _, _ => .ok fromLast

/-- `_source_from_orderbook`. -/
def sourceFromOrderbook (cfg : MarketConfig) (book : OrderBook) (nowMs : ℚ) :
    Except Py.Error (Option FairPriceSource) :=
  if book.stale then .ok none
  else
    match book.bestBid, book.bestAsk with
    | some bid, some ask =>
        if ask ≤ bid then .ok none
        else if book.lastTs.any fun ts => decide (cfg.staleAfterMs < nowMs - ts) then .ok none
        else do
          let ratio ← Py.div (ask - bid) ((ask + bid) / 2)
          let spread := ratio * 10000
          if cfg.maxSpreadBps < spread then return none
          else
            return some ⟨"bitbank_orderbook_mid", (bid + ask) / 2,
              (Py.truthy book.lastTs).getD nowMs, some spread, 1⟩
    | _, _ => .ok none

/-- `_deviation_bps`. -/
def deviationBps (value reference : ℚ) : Except Py.Error ℚ :=
  if reference ≤ 0 then .ok 0
  else do
    let ratio ← Py.div |value - reference| reference
    return ratio * 10000

/-- `_max_deviation`. -/
def maxDeviation (sources : List FairPriceSource) (fair : ℚ) : Except Py.Error (Option ℚ) := do
  let deviations ← sources.mapM fun s => deviationBps s.fair fair
  return deviations.max?

/-- `_median_optional`. -/
def medianOptional (values : List (Option ℚ)) : Except Py.Error (Option ℚ) :=
  let filtered := values.filterMap id
  if filtered.isEmpty then .ok none
  else do
    let median ← Py.median filtered
    return some median

/-- `from_sources`. -/
def fromSources (cfg : FairConfig) (sources : List FairPriceSource) (nowMs : ℚ) :
    Except Py.Error FairPriceState :=
  let fresh := sources.filter (FairPriceSource.isFresh cfg nowMs)
  if fresh.isEmpty then .ok ⟨none, 0, none, false, some "no_fresh_fair_sources", [], none⟩
  else do
    let reference ← Py.median (fresh.map FairPriceSource.fair)
    let filtered ← fresh.filterM fun s => do
      let deviation ← deviationBps s.fair reference
      return decide (deviation ≤ cfg.maxSourceDeviationBps)
    let names := filtered.map FairPriceSource.name
    if (filtered.length : ℤ) < cfg.minSourceCount then
      let spread ← medianOptional (filtered.map FairPriceSource.spreadBps)
      let deviation ← maxDeviation filtered reference
      return ⟨none, filtered.length, spread, false, some "insufficient_fair_sources", names,
        deviation⟩
    else
      let fairs := filtered.map FairPriceSource.fair
      let average := if cfg.useMedian then Py.median fairs else Py.mean fairs
      let fair ← average
      let spread ← medianOptional (filtered.map FairPriceSource.spreadBps)
      let deviation ← maxDeviation filtered fair
      return ⟨some fair, filtered.length, spread, true, none, names, deviation⟩

/-- The source a ticker or an external fair price brings. -/
def sourceOfEvent (event : Event) : Except Py.Error (Option FairPriceSource) :=
  match event.body with
  | .bitbankTicker payload => sourceFromTicker payload event.tsExchange
  | .externalFairPrice payload => .ok (sourceFromExternalFair payload event.tsExchange)
  | _ => .ok none

/-- `from_market_event`. -/
def fromMarketEvent (cfg : Config) (sources : Sources) (book : OrderBook) (event : Event)
    (nowMs : ℚ) : Sources × Except Py.Error FairPriceState :=
  match sourceOfEvent event with
  | .error e => (sources, .error e)
  | .ok source =>
      let sources := match source with
        | some source => sources.put source
        | none => sources
      match sourceFromOrderbook cfg.market book nowMs with
      | .error e => (sources, .error e)
      | .ok bookSource =>
          let sources := match bookSource with
            | some source => sources.put source
            | none => sources.erase "bitbank_orderbook_mid"
          (sources, fromSources cfg.fair sources.rows nowMs)

/-! ### The shock -/

/-- The activation, its direction and the reason, before the fair price is looked at. -/
def activation (rt : Runtime) (cfg : ShockConfig) (lastDirection : ShockDirection)
    (forceRatio : ℚ) (age : Option ℚ) : Except Py.Error (ℚ × ShockDirection × String) :=
  match age with
  | none => .ok (0, .neutral, "no_recent_shock")
  | some age =>
      if age < cfg.minimumWaitAfterShockMs then .ok (0, lastDirection, "waiting_after_shock")
      else do
        let raw ← Py.div 1 (1 + rt.exp (-cfg.temperature * (forceRatio - cfg.threshold)))
        let ageRatio ← Py.div (-age) (max cfg.activationDecayMs 1)
        return (max 0 (min 1 (raw * rt.exp ageRatio)), lastDirection, "aftershock_rebuild")

/-- `update`. -/
def update (rt : Runtime) (cfg : ShockConfig) (self : ShockActivator) (event : Event)
    (book : OrderBook) (fairState : FairPriceState) :
    ShockActivator × Except Py.Error (ShockState × Option Event) :=
  let now := event.tsExchange
  let trades := self.windowTrades cfg event
  let buy := ShockActivator.notionalOf trades .buy
  let sell := ShockActivator.notionalOf trades .sell
  let depth := book.depthAroundMid cfg.depthBps
  let pressure := max buy sell
  match Py.div pressure (max depth 1) with
  | .error e => ({ self with trades := trades }, .error e)
  | .ok forceRatio =>
      let observed := pressureDirection buy sell
      let shockEvent : Option Event :=
        if cfg.threshold ≤ forceRatio ∧ self.mayAnnounce cfg now = true then
          some (makeEvent rt (.forcedFlow ⟨forceRatio, buy, sell, depth, observed, true⟩)
            now event.venue event.symbol event.sequence)
        else none
      let self : ShockActivator := match shockEvent with
        | some shock =>
            { trades := trades, lastShockTs := some now, lastShockEventId := some shock.eventId,
              lastShockDirection := observed }
        | none => { self with trades := trades }
      let age := self.lastShockTs.map fun ts => now - ts
      match activation rt cfg self.lastShockDirection forceRatio age with
      | .error e => (self, .error e)
      | .ok active =>
          let (activation, direction, reason) : ℚ × ShockDirection × String :=
            if fairState.isValid then active
            else (0, .neutral, Py.textOr fairState.reason "invalid_fair")
          let sides := sideActivations activation direction cfg.oppositeSideActivationRatio
          (self, .ok
            ({ activation := activation, forceRatio := forceRatio, recentTakerBuyNotional := buy,
               recentTakerSellNotional := sell, depth20bps := depth,
               lastShockTs := self.lastShockTs, reason := some reason, direction := direction,
               bidActivation := sides.1, askActivation := sides.2,
               lastShockEventId := self.lastShockEventId, shockAgeMs := age },
             shockEvent))

/-! ### The inventory -/

/-- `snapshot`. -/
def snapshot (cfg : InventoryConfig) (self : InventoryState) (fair : Option ℚ) :
    Except Py.Error InventoryState.Snapshot :=
  match fair with
  | none => .ok ⟨self.baseQty, self.quoteQty, none, none, none⟩
  | some fair =>
      if fair ≤ 0 then .ok ⟨self.baseQty, self.quoteQty, none, none, none⟩
      else
        let equity := self.baseQty * fair + self.quoteQty
        if equity ≤ 0 then .ok ⟨self.baseQty, self.quoteQty, some equity, none, none⟩
        else do
          let baseRatio ← Py.div (self.baseQty * fair) equity
          return ⟨self.baseQty, self.quoteQty, some equity, some baseRatio,
            some (baseRatio - cfg.targetBaseRatio)⟩

/-- `skew`. -/
def skew (cfg : InventoryConfig) (self : InventoryState) (fair : Option ℚ) :
    Except Py.Error (Option ℚ) := do
  let snapshot ← snapshot cfg self fair
  return snapshot.skew

/-! ### The risk kernel -/

/-- `_last_trade_deviation_too_large`. -/
def lastTradeDeviationTooLarge (cfg : RiskConfig) (self : RiskKernel) (nowMs fair : ℚ) :
    Except Py.Error Bool :=
  if cfg.maxLastTradeFairDeviationBps ≤ 0 then .ok false
  else
    match self.lastTrade with
    | none => .ok false
    | some (tradeTs, tradePrice) =>
        if cfg.lastTradeFairDeviationMaxAgeMs < nowMs - tradeTs then .ok false
        else do
          let ratio ← Py.div |tradePrice - fair| fair
          return decide (cfg.maxLastTradeFairDeviationBps < ratio * 10000)

/-- One horizon of `_fair_drift_blocked_sides`. -/
def driftCheck (self : RiskKernel) (nowMs fair : ℚ) (blocked : List Side)
    (check : ℚ × ℚ × ℚ) : Except Py.Error (List Side) :=
  let (horizonMs, maxDropBps, maxRiseBps) := check
  match self.fairAtOrBefore (nowMs - horizonMs) with
  | none => .ok blocked
  | some prior =>
      if prior ≤ 0 then .ok blocked
      else do
        let ratio ← Py.div (fair - prior) prior
        let changeBps := ratio * 10000
        let blocked :=
          if 0 < maxDropBps ∧ changeBps ≤ -maxDropBps ∧ Side.buy ∉ blocked then blocked ++ [.buy]
          else blocked
        return if 0 < maxRiseBps ∧ maxRiseBps ≤ changeBps ∧ Side.sell ∉ blocked then
          blocked ++ [.sell] else blocked

/-- `_fair_drift_blocked_sides`. -/
def fairDriftBlockedSides (cfg : RiskConfig) (self : RiskKernel) (nowMs fair : ℚ) :
    Except Py.Error (List Side) :=
  [(1000, cfg.maxFairDropBps1sForBid, cfg.maxFairRiseBps1sForAsk),
   (5000, cfg.maxFairDropBps5sForBid, cfg.maxFairRiseBps5sForAsk)].foldlM
    (driftCheck self nowMs fair) []

/-- The early returns of `evaluate`. -/
def globalRefusal (cfg : Config) (self : RiskKernel) (input : RiskInput) (fair : ℚ) :
    Except Py.Error (Option RiskDecision) := do
  match ← spreadBps input.book with
  | none => return some (.refuse "missing_spread")
  | some spread =>
      if cfg.market.maxSpreadBps < spread then return some (.refuse "spread_too_wide")
      else if input.book.depthAroundMid 20 < cfg.market.minDepth20bpsJpy then
        return some (.refuse "book_too_thin")
      else if input.shockState.activation < cfg.shock.minActivationToQuote then
        return some (.refuse "activation_too_low")
      else
        let snapshot ← snapshot cfg.inventory input.inventory input.fairState.fair
        match snapshot.skew with
        | none => return some (.refuse "invalid_inventory_equity")
        | some skew =>
            if cfg.inventory.maxAbsSkew < |skew| then
              return some (.refuse "inventory_too_skewed")
            else if cfg.risk.blockOnUnfetchedPairSpec && input.pairSpec.isNone then
              return some (.refuse "pair_spec_unfetched")
            else if cfg.risk.blockOnBitbankStatusNotNormal &&
                input.status.any (!BitbankStatus.isNormal ·) then
              return some (.refuse "bitbank_status_not_normal")
            else if cfg.risk.blockOnPairStopFlags && input.pairSpec.any RiskKernel.pairStopped then
              return some (.refuse "pair_stop_flag")
            else if input.book.stale && cfg.risk.blockOnSequenceOrderingViolation then
              return some (.refuse (Py.textOr input.book.staleReason "book_stale"))
            else
              let tooLarge ← lastTradeDeviationTooLarge cfg.risk self input.nowMs fair
              if tooLarge then
                let reason := "last_trade_fair_deviation_too_large"
                return some { RiskDecision.refuse reason with
                  blockedSides := [.buy, .sell],
                  sideBlockReasons := (Py.Table.empty.put (.buy, reason)).put (.sell, reason) }
              else return none

/-- The rest of `evaluate`: only its drift check has a quotient. -/
def sideChecks (cfg : Config) (self : RiskKernel) (input : RiskInput) (fair : ℚ) :
    Except Py.Error (RiskKernel × RiskDecision) := do
  let _ ← fairDriftBlockedSides cfg.risk self input.nowMs fair
  return self.sideChecks cfg input fair

/-- `evaluate`; where it raises it has written nothing. -/
def evaluate (cfg : Config) (self : RiskKernel) (input : RiskInput) :
    Except Py.Error (RiskKernel × RiskDecision) :=
  match input.fairState.isValid, input.fairState.fair with
  | true, some fair => do
      match ← globalRefusal cfg self input fair with
      | some decision => return (self, decision)
      | none => sideChecks cfg self input fair
  | _, _ => .ok (self, .refuse (Py.textOr input.fairState.reason "invalid_fair_price"))

/-! ### The quotes -/

/-- `_floor_to_step`. -/
def floorToStep (value step : ℚ) : Except Py.Error ℚ :=
  if step ≤ 0 then .ok value
  else do
    let ratio ← Py.div (value + step * (1 / 10 ^ 9)) step
    return roundToDecimals ⌊ratio⌋ step

/-- `_ceil_to_step`. -/
def ceilToStep (value step : ℚ) : Except Py.Error ℚ :=
  if step ≤ 0 then .ok value
  else do
    let ratio ← Py.div (value - step * (1 / 10 ^ 9)) step
    return roundToDecimals ⌈ratio⌉ step

/-- `_floor_quote_size`. -/
def floorQuoteSize (value minOrderSize maxOrderSize lotSize : ℚ) :
    Except Py.Error (Option ℚ) :=
  if value < minOrderSize then .ok none
  else do
    let size ← floorToStep (min value maxOrderSize) lotSize
    return if minOrderSize ≤ size then some size else none

/-- The quotes of one level. -/
def generateLevel (rt : Runtime) (self : QuoteSurface) (request : QuoteSurface.Request)
    (level : ℕ) : Except Py.Error (List Quote) := do
  let half := self.halfSpreadBps / 10000
  let step := self.stepBps / 10000
  let skew := self.skewStrengthBps * request.inventorySkew / 10000
  let bidSizeBase := self.baseOrderSize * request.bidActivation *
    rt.exp (-self.sizeSkewStrength * request.inventorySkew)
  let askSizeBase := self.baseOrderSize * request.askActivation *
    rt.exp (self.sizeSkewStrength * request.inventorySkew)
  let distance := half + level * step
  let bidPrice ← floorToStep (request.fair * rt.exp (-(distance + skew))) self.tickSize
  let askPrice ← ceilToStep (request.fair * rt.exp (distance - skew)) self.tickSize
  let bidSize ← floorQuoteSize bidSizeBase self.minOrderSize self.maxOrderSize self.lotSize
  let askSize ← floorQuoteSize askSizeBase self.minOrderSize self.maxOrderSize self.lotSize
  let quote (side : Side) (price size activation : ℚ) : Quote :=
    { side := side, price := price, size := size, level := level, activation := activation,
      inventorySkew := request.inventorySkew, fair := request.fair,
      shockEventId := request.shockEventId, shockDirection := request.shockDirection,
      shockAgeMs := request.shockAgeMs }
  let bids := match bidSize with
    | some size => [quote .buy bidPrice size request.bidActivation]
    | none => []
  let asks := match askSize with
    | some size => [quote .sell askPrice size request.askActivation]
    | none => []
  return bids ++ asks

/-- `generate`. -/
def generate (rt : Runtime) (self : QuoteSurface) (request : QuoteSurface.Request) :
    Except Py.Error (List Quote) :=
  if request.fair ≤ 0 ∨ (request.bidActivation ≤ 0 ∧ request.askActivation ≤ 0) then .ok []
  else do
    let levels ← (List.range self.levels.toNat).mapM (generateLevel rt self request)
    return levels.flatten

/-! ### The projector -/

/-- `_should_keep_existing`. -/
def shouldKeepExisting (cfg : ExecutionConfig) (order : ActiveVirtualOrder) (quote : Quote)
    (nowMs : ℚ) : Except Py.Error Bool :=
  if order.expiresAt ≤ nowMs then .ok false
  else if order.price = quote.price ∧ order.size = quote.size then .ok true
  else if nowMs - order.createdAt < cfg.minQuoteReplaceIntervalMs then .ok true
  else do
    let priceRatio ← Py.div |quote.price - order.price| (max order.price (1 / 10 ^ 12))
    let priceBps := priceRatio * 10000
    let sizeRatio ← Py.div |quote.size - order.size| (max order.size (1 / 10 ^ 12))
    return decide (priceBps ≤ cfg.quoteReplaceThresholdBps) &&
      decide (sizeRatio ≤ cfg.sizeReplaceThresholdRatio)

/-- The second loop of `sync`, at one desired quote. -/
def keepOrPlace (rt : Runtime) (cfg : ExecutionConfig) (market : Market) (nowMs : ℚ)
    (acc : OrderProjector × List Event) (quote : Quote) :
    Except Py.Error (OrderProjector × List Event) :=
  let (self, events) := acc
  match self.active.get? quote.key with
  | some existing => do
      let keep ← shouldKeepExisting cfg existing quote nowMs
      if keep then return (self, events)
      else
        let (self, canceled) := self.cancelEvent rt market existing nowMs "replaced"
        let self := { self with active := self.active.erase quote.key }
        let (self, placed) := self.place rt cfg market quote nowMs
        return (self, events ++ [canceled, placed])
  | none =>
      let (self, placed) := self.place rt cfg market quote nowMs
      .ok (self, events ++ [placed])

/-- The second loop of `sync`. -/
def placeDesired (rt : Runtime) (cfg : ExecutionConfig) (market : Market) (nowMs : ℚ) :
    OrderProjector × List Event → List Quote → OrderProjector × Except Py.Error (List Event)
  | (self, events), [] => (self, .ok events)
  | acc, quote :: rest =>
      match keepOrPlace rt cfg market nowMs acc quote with
      | .error e => (acc.1, .error e)
      | .ok acc => placeDesired rt cfg market nowMs acc rest

/-- `sync`. -/
def sync (rt : Runtime) (cfg : ExecutionConfig) (market : Market) (self : OrderProjector)
    (quotes : List Quote) (book : OrderBook) (risk : RiskDecision) (nowMs : ℚ) :
    OrderProjector × Except Py.Error (List Event) :=
  if !risk.allowQuote then
    let (self, events) := self.cancelAll rt market nowMs (Py.textOr risk.reason "risk_block")
    (self, .ok events)
  else
    let desired := quotes.filter fun q => OrderProjector.postOnlySafe q book risk
    let desired := Py.sliceTo desired cfg.maxActiveOrdersPerPair
    let desiredKeys := desired.map Quote.key
    let acc := self.active.rows.foldl
      (OrderProjector.cancelUnlessWanted rt market desiredKeys book risk nowMs) (self, [])
    placeDesired rt cfg market nowMs acc desired

/-! ### The pipeline -/

/-- The `risk_state` event. -/
def riskStateEvent (rt : Runtime) (cfg : Config) (self : Pipeline) (event : Event)
    (fairState : FairPriceState) (shockState : ShockState) (decision : RiskDecision) :
    Except Py.Error Event := do
  let spread ← spreadBps self.book
  let skew ← skew cfg.inventory self.inventory fairState.fair
  return makeEvent rt
    (.riskState
      { decision := decision, shock := shockState, fair := fairState,
        bookSpreadBps := spread, bookDepth20bps := self.book.depthAroundMid 20,
        bookStale := self.book.stale, bookStaleReason := self.book.staleReason,
        inventorySkew := skew })
    event.tsExchange cfg.execution.venue cfg.symbol event.sequence

/-- The quotes of this step. -/
def quotes (rt : Runtime) (cfg : Config) (self : Pipeline) (fairState : FairPriceState)
    (shockState : ShockState) : Except Py.Error (List Quote) :=
  match fairState.isValid, fairState.fair with
  | true, some fair => do
      let skew ← skew cfg.inventory self.inventory (some fair)
      generate rt (QuoteSurface.fromConfig cfg.amm self.pairSpec)
        { fair := fair,
          inventorySkew := skew.getD 0,
          bidActivation := shockState.bidActivation,
          askActivation := shockState.askActivation,
          shockEventId := shockState.lastShockEventId,
          shockDirection := shockState.direction,
          shockAgeMs := shockState.shockAgeMs }
  | _, _ => .ok []

/-- The part of `process` after the fills. -/
def requote (rt : Runtime) (cfg : Config) (self : Pipeline) (event : Event)
    (fairState : FairPriceState) (shockState : ShockState) : Outcome :=
  match evaluate cfg self.risk
    { book := self.book, fairState := fairState, shockState := shockState,
      inventory := self.inventory, pairSpec := self.pairSpec, status := self.status,
      nowMs := event.tsExchange } with
  | .error e => (self, .error e)
  | .ok (risk, decision) =>
      let self := { self with risk := risk, lastRisk := decision }
      match riskStateEvent rt cfg self event fairState shockState decision with
      | .error e => (self, .error e)
      | .ok riskState =>
          match quotes rt cfg self fairState shockState with
          | .error e => (self, .error e)
          | .ok quotes =>
              match sync rt cfg.execution (Pipeline.market cfg) self.projector quotes self.book
                decision event.tsExchange with
              | (projector, .error e) => ({ self with projector := projector }, .error e)
              | (projector, .ok projectorEvents) =>
                  let self := { self with projector := projector }
                  let (self, live) := self.trackOrders rt cfg decision projectorEvents
                  (self, .ok (riskState :: (projectorEvents ++ live)))

/-- `process`. -/
def process (rt : Runtime) (cfg : Config) (self : Pipeline) (event : Event) : Outcome :=
  match (self.ingestMetadata cfg event).ingestMarket event with
  | (self, .error e) => (self, .error e)
  | (self, .ok ()) =>
      match fromMarketEvent cfg self.sources self.book event event.tsExchange with
      | (sources, .error e) => ({ self with sources := sources }, .error e)
      | (sources, .ok fairState) =>
          match update rt cfg.shock self.shock event self.book fairState with
          | (shock, .error e) =>
              ({ self with sources := sources, lastFair := fairState, shock := shock }, .error e)
          | (shock, .ok (shockState, shockEvent)) =>
              let (fillModel, fillEvents) :=
                self.fillModel.onMarketEvent rt cfg.fillModel event fairState
              let self := { self with
                sources := sources, lastFair := fairState, shock := shock,
                lastShock := shockState, fillModel := fillModel }
              match Pipeline.applyFills cfg self (fills fillEvents) with
              | (self, .error e) => (self, .error e)
              | (self, .ok ()) =>
                  match requote rt cfg self event fairState shockState with
                  | (self, .error e) => (self, .error e)
                  | (self, .ok more) =>
                      (self, .ok (Pipeline.markPriceEvents rt cfg event fairState ++
                        shockEvent.toList ++ fillEvents ++ more))

/-- The state after a list of events, an event that raises included. -/
def after (rt : Runtime) (cfg : Config) (events : List Event) : Pipeline :=
  events.foldl (fun self event => (process rt cfg self event).1) (Pipeline.init cfg)

end GhostAmm.Checked
