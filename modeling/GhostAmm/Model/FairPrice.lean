/-
The fair price engine (`market/fair_price.py`).

The engine keeps the last accepted source under each source name.  Two of its
divisions are by quantities nothing keeps away from zero: the mid of a book with a
negative bid, and the number of sources left when `min_source_count` admits none.
Both raise in the source, so both raise here.
-/
import GhostAmm.Model.Config
import GhostAmm.Model.OrderBook

namespace GhostAmm

structure FairPriceSource where
  name : String
  fair : ℚ
  tsMs : ℚ
  spreadBps : Option ℚ := none
  confidence : ℚ := 1
  deriving DecidableEq

/-- `self.sources`: the last accepted source under each name. -/
abbrev Sources := Py.Table FairPriceSource.name

/-- `_source_from_ticker`. -/
def sourceFromTicker (payload : TickerPayload) (ts : ℚ) : Option FairPriceSource :=
  let fromLast : Option FairPriceSource :=
    match payload.last with
    | some last =>
        if 0 < last then some ⟨"bitbank_ticker_last", last, ts, none, 1 / 2⟩ else none
    | none => none
  match payload.buy, payload.sell with
  | some bid, some ask =>
      if 0 < bid ∧ 0 < ask ∧ bid < ask then
        let mid := (bid + ask) / 2
        some ⟨"bitbank_ticker_mid", mid, ts, some ((ask - bid) / mid * 10000), 1⟩
      else fromLast
  | _, _ => fromLast

/-- `_positive_payload_float`. -/
def positivePayloadFloat (value : Option ℚ) : Option ℚ := value.filter fun v => decide (0 < v)

/-- `_external_fair_jpy`. -/
def externalFairJpy (payload : ExternalFairPayload) : Option ℚ :=
  match positivePayloadFloat (payload.fairJpy.getD payload.fair) with
  | some direct => some direct
  | none =>
      match positivePayloadFloat (payload.btcUsd.getD payload.btcPrice),
        positivePayloadFloat (payload.usdJpy.getD payload.fxRateJpy) with
      | some btcUsd, some usdJpy =>
          let fair := btcUsd * usdJpy
          if 0 < fair then some fair else none
      | _, _ => none

/-- `_source_from_external_fair`. -/
def sourceFromExternalFair (payload : ExternalFairPayload) (ts : ℚ) : Option FairPriceSource :=
  match externalFairJpy payload with
  | none => none
  | some fair =>
      some { name := Py.textOr payload.source "external_btc_usd_jpy",
             fair := fair,
             tsMs := payload.tsMs.getD ts,
             spreadBps := payload.spreadBps,
             confidence := payload.confidence.getD (8 / 10) }

/-- `_source_from_orderbook`. -/
def sourceFromOrderbook (cfg : MarketConfig) (book : OrderBook) (nowMs : ℚ) :
    Except Py.Error (Option FairPriceSource) :=
  if book.stale then .ok none
  else
    match book.bestBid, book.bestAsk with
    | some bid, some ask =>
        if ask ≤ bid then .ok none
        else if book.lastTs.any fun ts => decide (cfg.staleAfterMs < nowMs - ts) then .ok none
        else if (ask + bid) / 2 = 0 then .error .zeroDivisionError
        else
          let spread := (ask - bid) / ((ask + bid) / 2) * 10000
          if cfg.maxSpreadBps < spread then .ok none
          else
            .ok (some ⟨"bitbank_orderbook_mid", (bid + ask) / 2,
              (Py.truthy book.lastTs).getD nowMs, some spread, 1⟩)
    | _, _ => .ok none

/-- `_deviation_bps`. -/
def deviationBps (value reference : ℚ) : ℚ :=
  if reference ≤ 0 then 0 else |value - reference| / reference * 10000

/-- `_max_deviation`. -/
def maxDeviation (sources : List FairPriceSource) (fair : ℚ) : Option ℚ :=
  (sources.map fun s => deviationBps s.fair fair).max?

/-- `_median_optional`. -/
def medianOptional (values : List (Option ℚ)) : Option ℚ :=
  match Py.median (values.filterMap id) with
  | .ok m => some m
  | .error _ => none

/-- `source` is young enough to count at `nowMs`. -/
def FairPriceSource.isFresh (cfg : FairConfig) (nowMs : ℚ) (source : FairPriceSource) : Bool :=
  decide (nowMs - source.tsMs ≤ cfg.maxSourceAgeMs)

/-- `from_sources`. -/
def fromSources (cfg : FairConfig) (sources : List FairPriceSource) (nowMs : ℚ) :
    Except Py.Error FairPriceState :=
  let fresh := sources.filter (FairPriceSource.isFresh cfg nowMs)
  if fresh.isEmpty then .ok ⟨none, 0, none, false, some "no_fresh_fair_sources", [], none⟩
  else
    match Py.median (fresh.map FairPriceSource.fair) with
    | .error e => .error e
    | .ok reference =>
        let filtered := fresh.filter fun s =>
          decide (deviationBps s.fair reference ≤ cfg.maxSourceDeviationBps)
        let spread := medianOptional (filtered.map FairPriceSource.spreadBps)
        let names := filtered.map FairPriceSource.name
        if (filtered.length : ℤ) < cfg.minSourceCount then
          .ok ⟨none, filtered.length, spread, false, some "insufficient_fair_sources", names,
            maxDeviation filtered reference⟩
        else
          let fairs := filtered.map FairPriceSource.fair
          match if cfg.useMedian then Py.median fairs else Py.mean fairs with
          | .error e => .error e
          | .ok fair =>
              .ok ⟨some fair, filtered.length, spread, true, none, names,
                maxDeviation filtered fair⟩

/-- The source a ticker or an external fair price brings, if the engine accepts it. -/
def sourceOfEvent (event : Event) : Option FairPriceSource :=
  match event.body with
  | .bitbankTicker payload => sourceFromTicker payload event.tsExchange
  | .externalFairPrice payload => sourceFromExternalFair payload event.tsExchange
  | _ => none

/-- The sources once the event's own source is filed. -/
def Sources.ingest (sources : Sources) (event : Event) : Sources :=
  match sourceOfEvent event with
  | some source => sources.put source
  | none => sources

/-- `from_market_event`, with the sources it leaves. -/
def fromMarketEvent (cfg : Config) (sources : Sources) (book : OrderBook) (event : Event)
    (nowMs : ℚ) : Sources × Except Py.Error FairPriceState :=
  let sources := Sources.ingest sources event
  match sourceFromOrderbook cfg.market book nowMs with
  | .error e => (sources, .error e)
  | .ok bookSource =>
      let sources := match bookSource with
        | some source => sources.put source
        | none => sources.erase "bitbank_orderbook_mid"
      (sources, fromSources cfg.fair sources.rows nowMs)

end GhostAmm
