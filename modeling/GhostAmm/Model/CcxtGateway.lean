/-
The composite external price (`exchange/ccxt_gateway.py`).

A ticker of the exchange library is a dictionary; what `_positive_float` makes of its
entries is all that is read of it, so a missing key, null and a value `float` refuses are
one `none`.  `time.time() * 1000` is an argument, which is read only where neither ticker
carries a timestamp.
-/
import GhostAmm.Model.FairPrice

namespace GhostAmm

structure CcxtTicker where
  bid : Option ℚ := none
  ask : Option ℚ := none
  last : Option ℚ := none
  close : Option ℚ := none
  timestamp : Option ℚ := none
  deriving DecidableEq, Repr

/-- `CcxtGatewayError`. -/
structure CcxtGatewayError where
  message : String
  deriving DecidableEq, Repr

/-- `_positive_float`. -/
def positiveFloat (value : Option ℚ) : Option ℚ := value.filter fun v => decide (0 < v)

/-- `_ticker_mid_or_last`: a price, and its spread if it is a mid. -/
def tickerMidOrLast (ticker : CcxtTicker) (label : String) :
    Except CcxtGatewayError (ℚ × Option ℚ) :=
  let fromLast : Except CcxtGatewayError (ℚ × Option ℚ) :=
    match positiveFloat ticker.last with
    | some last => .ok (last, none)
    | none =>
        match positiveFloat ticker.close with
        | some close => .ok (close, none)
        | none => .error ⟨"ticker_missing_positive_price:" ++ label⟩
  match positiveFloat ticker.bid, positiveFloat ticker.ask with
  | some bid, some ask =>
      if bid < ask then
        let mid := (bid + ask) / 2
        .ok (mid, some ((ask - bid) / mid * 10000))
      else fromLast
  | _, _ => fromLast

/-- `_ticker_timestamp_ms`. -/
def tickerTimestampMs (clockMs : ℚ) (tickers : List CcxtTicker) : ℚ :=
  ((tickers.filterMap fun ticker => positiveFloat ticker.timestamp).max?).getD clockMs

/-- `external_fair_event_from_tickers`. -/
def externalFairEventFromTickers (rt : Runtime) (clockMs : ℚ)
    (btcTicker usdJpyTicker : CcxtTicker) (exchangeId : String)
    (btcUsdSymbol : String := "BTC/USD") (usdJpySymbol : String := "USD/JPY")
    (symbol : String := "BTC/JPY") (tsMs : Option ℚ := none) : Except CcxtGatewayError Event := do
  let (btcUsd, btcSpreadBps) ← tickerMidOrLast btcTicker btcUsdSymbol
  let (usdJpy, fxSpreadBps) ← tickerMidOrLast usdJpyTicker usdJpySymbol
  let eventTs := tsMs.getD (tickerTimestampMs clockMs [btcTicker, usdJpyTicker])
  let spreadParts := [btcSpreadBps, fxSpreadBps].filterMap id
  let spreadBps := if spreadParts.isEmpty then none else some spreadParts.sum
  return makeEvent rt
    (.externalFairPrice
      { source := some "external_btc_usd_jpy", btcUsd := some (some btcUsd),
        usdJpy := some (some usdJpy), fairJpy := some (some (btcUsd * usdJpy)),
        spreadBps := spreadBps, confidence := some (8 / 10) })
    eventTs ("ccxt:" ++ exchangeId) symbol

end GhostAmm
