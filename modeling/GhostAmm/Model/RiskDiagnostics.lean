/-
The risk diagnostics (`analytics/risk_diagnostics.py`).

`analyze_risk_blocks` goes through the `risk_state` events of a log as they are on disk: it counts
the ones that allow quoting, counts the others by their reason, and takes percentiles of eight
numbers that a payload may or may not have.  How a number that is no text is printed is part of
what `Texts` stands for.  The two files it writes are left out.
-/
import GhostAmm.Lib.Groups
import GhostAmm.Model.Events
import GhostAmm.Model.Jsonl

namespace GhostAmm

open Py (Json Texts)

/-! ### The payload on disk -/

/-- A side as payloads write it. -/
def sideText : Side → String
  | .buy => "buy"
  | .sell => "sell"

/-- A direction as payloads write it. -/
def directionText : ShockDirection → String
  | .neutral => "neutral"
  | .buyShock => "buy_shock"
  | .sellShock => "sell_shock"

/-- A number or `None`. -/
def jsonNumber? (value : Option ℚ) : Json := (value.map Json.float).getD .null

/-- A text or `None`. -/
def jsonText? (value : Option String) : Json := (value.map Json.str).getD .null

/-- `asdict(risk_decision)`. -/
def RiskDecision.toDict (decision : RiskDecision) : List (String × Json) :=
  [("allow_quote", .bool decision.allowQuote), ("allow_buy", .bool decision.allowBuy),
   ("allow_sell", .bool decision.allowSell), ("max_order_size", .float decision.maxOrderSize),
   ("reason", jsonText? decision.reason),
   ("blocked_sides", .arr (decision.blockedSides.map fun side => .str (sideText side))),
   ("cooldown_until_ms", jsonNumber? decision.cooldownUntilMs),
   ("side_block_reasons", .obj (decision.sideBlockReasons.rows.map fun row =>
     (sideText row.1, .str row.2)))]

/-- The payload of a `risk_state` event, as `process` puts it together. -/
def RiskStatePayload.toDict (payload : RiskStatePayload) : List (String × Json) :=
  payload.decision.toDict ++
  [("activation", .float payload.shock.activation),
   ("direction", .str (directionText payload.shock.direction)),
   ("bid_activation", .float payload.shock.bidActivation),
   ("ask_activation", .float payload.shock.askActivation),
   ("shock_event_id", jsonText? payload.shock.lastShockEventId),
   ("shock_age_ms", jsonNumber? payload.shock.shockAgeMs),
   ("force_ratio", .float payload.shock.forceRatio),
   ("recent_taker_buy_notional", .float payload.shock.recentTakerBuyNotional),
   ("recent_taker_sell_notional", .float payload.shock.recentTakerSellNotional),
   ("depth_20bps", .float payload.shock.depth20bps),
   ("shock_reason", jsonText? payload.shock.reason),
   ("fair", jsonNumber? payload.fair.fair),
   ("fair_is_valid", .bool payload.fair.isValid),
   ("fair_reason", jsonText? payload.fair.reason),
   ("fair_sources", .arr (payload.fair.sources.map Json.str)),
   ("fair_source_count", .int payload.fair.sourceCount),
   ("fair_deviation_bps", jsonNumber? payload.fair.deviationBps),
   ("spread_bps", jsonNumber? payload.fair.spreadBps),
   ("book_spread_bps", jsonNumber? payload.bookSpreadBps),
   ("book_depth_20bps", .float payload.bookDepth20bps),
   ("book_stale", .bool payload.bookStale),
   ("book_stale_reason", jsonText? payload.bookStaleReason),
   ("inventory_skew", jsonNumber? payload.inventorySkew)]

/-! ### Percentiles -/

/-- `_pick`: the entry at the rank nearest to the quantile. -/
def pick (ordered : List ℚ) (q : ℚ) : ℚ :=
  let last : ℤ := ordered.length - 1
  let idx := min (max (Py.roundHalfEven (last * q)) 0) last
  ordered.getD idx.toNat 0

structure Percentiles where
  count : ℚ := 0
  p0 : Option ℚ := none
  p10 : Option ℚ := none
  p25 : Option ℚ := none
  p50 : Option ℚ := none
  p75 : Option ℚ := none
  p90 : Option ℚ := none
  p95 : Option ℚ := none
  p99 : Option ℚ := none
  max : Option ℚ := none
  deriving DecidableEq

/-- `_percentiles`. -/
def percentiles (values : List ℚ) : Percentiles :=
  if values.isEmpty then {}
  else
    let ordered := values.insertionSort (· ≤ ·)
    { count := ordered.length
      p0 := ordered.head?
      p10 := some (pick ordered (10 / 100))
      p25 := some (pick ordered (25 / 100))
      p50 := some (pick ordered (50 / 100))
      p75 := some (pick ordered (75 / 100))
      p90 := some (pick ordered (90 / 100))
      p95 := some (pick ordered (95 / 100))
      p99 := some (pick ordered (99 / 100))
      max := ordered.getLast? }

/-! ### The loop -/

/-- The keys of `series`. -/
def seriesKeys : List String :=
  ["activation", "bid_activation", "ask_activation", "force_ratio", "depth_20bps", "spread_bps",
   "book_spread_bps", "inventory_skew"]

/-- `float(value)`, where it does not raise; `None` is not asked. -/
def seriesValue (texts : Texts) : Json → Option ℚ
  | .bool value => some (if value then 1 else 0)
  | .int value => some value
  | .float value => some value
  | .str value => texts.float value
  | _ => none

theorem seriesValue_number {texts : Texts} (value : Option ℚ) :
    seriesValue texts (jsonNumber? value) = value := by
  cases value <;> rfl

/-- `str(payload.get("reason") or "unknown")`. -/
def blockReason (texts : Texts) (payload : List (String × Json)) : String :=
  texts.strOf ((Json.get payload "reason").or (.str "unknown"))

/-- The accumulators of `analyze_risk_blocks`. -/
structure RiskTally where
  allowQuote : ℕ := 0
  reasonCounts : Py.Table (Prod.fst : String × ℕ → String) := Py.Table.empty
  series : List (String × List ℚ) := seriesKeys.map fun key => (key, [])

/-- One turn of the loop. -/
def RiskTally.add (texts : Texts) (self : RiskTally) (payload : List (String × Json)) :
    RiskTally :=
  let self :=
    if (Json.get payload "allow_quote").truthy then { self with allowQuote := self.allowQuote + 1 }
    else
      let reason := blockReason texts payload
      let count := ((self.reasonCounts.get? reason).map Prod.snd).getD 0
      { self with reasonCounts := self.reasonCounts.put (reason, count + 1) }
  { self with series := self.series.map fun entry =>
      (entry.1, entry.2 ++ (seriesValue texts (Json.get payload entry.1)).toList) }

/-! ### Recommendations -/

/-- A number or `None` in an f-string. -/
def shown (texts : Texts) (value : Option ℚ) : String := texts.strOf (jsonNumber? value)

/-- `f"{share:.1%}"`, of a share that is not negative. -/
def percentText (share : ℚ) : String :=
  let tenths := Py.roundHalfEven (share * 1000)
  toString (tenths / 10) ++ "." ++ toString (tenths % 10) ++ "%"

/-- `percentiles.get(key)`. -/
def percentilesOf (all : List (String × Percentiles)) (key : String) : Percentiles :=
  ((all.find? fun entry => decide (entry.1 = key)).map Prod.snd).getD {}

/-- `_recommend`, given the most common reasons. -/
def recommend (texts : Texts) (mostCommon : List (String × ℕ)) (all : List (String × Percentiles)) :
    List String :=
  let total := (mostCommon.map Prod.snd).sum
  if total = 0 then
    ["Risk kernel allowed at least one quote; inspect order/fill behavior next."]
  else match mostCommon with
  | [] => []
  | (topReason, topCount) :: _ =>
      let share : ℚ := topCount / total
      let about : List String :=
        if topReason = "activation_too_low" then
          let activation := percentilesOf all "activation"
          let force := percentilesOf all "force_ratio"
          ["Dominant block is activation_too_low. Calibrate shock.threshold and " ++
            "shock.min_activation_to_quote before changing AMM sizing."] ++
          (if activation.p99.isSome && activation.max.isSome then
            ["Try min_activation_to_quote below observed high-end activation: p95=" ++
              shown texts activation.p95 ++ ", p99=" ++ shown texts activation.p99 ++ ", max=" ++
              shown texts activation.max ++ "."]
          else []) ++
          (if force.p95.isSome then
            ["Use force_ratio percentiles for threshold sweep candidates: p75=" ++
              shown texts force.p75 ++ ", p90=" ++ shown texts force.p90 ++ ", p95=" ++
              shown texts force.p95 ++ ", p99=" ++ shown texts force.p99 ++ "."]
          else [])
        else if topReason = "book_too_thin" then
          let depth := percentilesOf all "depth_20bps"
          ["Dominant block is book_too_thin. Set market.min_depth_20bps_jpy from observed depth " ++
            "percentiles rather than a fixed guess.",
           "Depth candidates: p10=" ++ shown texts depth.p10 ++ ", p25=" ++ shown texts depth.p25 ++
            ", p50=" ++ shown texts depth.p50 ++ ", p75=" ++ shown texts depth.p75 ++ "."]
        else if topReason = "spread_too_wide" then
          -- the percentiles of a key are never an empty dictionary, so the first ones are taken
          let spread := percentilesOf all "book_spread_bps"
          ["Dominant block is spread_too_wide. Compare market.max_spread_bps to observed spread " ++
            "percentiles.",
           "Spread candidates: p90=" ++ shown texts spread.p90 ++ ", p95=" ++
            shown texts spread.p95 ++ ", p99=" ++ shown texts spread.p99 ++ "."]
        else
          ["Dominant block is " ++ topReason ++ " (" ++ percentText share ++
            " of blocked events). Inspect that gate before parameter sweeping."]
      about ++
      (if 95 / 100 < share then
        ["One gate dominates more than 95% of blocks; tune that gate first and avoid broad " ++
          "multi-parameter optimization."]
      else []) ++
      ["After selecting 2-4 candidate configs, rerun on split periods and compare stability " ++
        "instead of picking the single best in-sample result."]

/-! ### The diagnostics -/

structure RiskDiagnostics where
  totalRiskEvents : ℕ
  allowQuoteEvents : ℕ
  blockedEvents : ℕ
  reasonCounts : List (String × ℕ)
  percentiles : List (String × Percentiles)
  recommendations : List String

/-- `event.event_type == "risk_state"`. -/
def JsonEvent.isRiskState (event : JsonEvent) : Bool :=
  match event.eventType with
  | .str name => decide (name = "risk_state")
  | _ => false

/-- What `payload.get` is called on. -/
def JsonEvent.payloadDict (event : JsonEvent) : Except ReadError (List (String × Json)) :=
  match event.payload with
  | .obj fields => .ok fields
  | value => .error (.attributeError value.typeName "get")

/-- `analyze_risk_blocks`. -/
def analyzeRiskBlocks (texts : Texts) (events : List JsonEvent) :
    Except ReadError RiskDiagnostics := do
  let payloads ← (events.filter JsonEvent.isRiskState).mapM JsonEvent.payloadDict
  let tally := payloads.foldl (RiskTally.add texts) {}
  let all := tally.series.map fun entry => (entry.1, GhostAmm.percentiles entry.2)
  let mostCommon := Groups.mostCommon tally.reasonCounts
  return {
    totalRiskEvents := payloads.length
    allowQuoteEvents := tally.allowQuote
    blockedEvents := payloads.length - tally.allowQuote
    reasonCounts := mostCommon
    percentiles := all
    recommendations := recommend texts mostCommon all }

end GhostAmm
