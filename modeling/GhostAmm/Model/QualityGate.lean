/-
The quality gate (`analytics/quality_gate.py`), and the documents it reads: the `summary.json` of
`write_report` (`analytics/report.py`) and the inspection of a recording.

A file is what it decodes to, a JSON value or the events of a recording.  That `sort_keys` puts
the keys of a document in order is left out, since nothing reads their order, and so are
`fills.csv` and the renderings in Markdown, which nothing reads.
-/
import GhostAmm.Lib.Files
import GhostAmm.Model.Inspection
import GhostAmm.Model.Metrics
import GhostAmm.Model.RiskDiagnostics

namespace GhostAmm

open Py (Json Texts)
open Files (Path Store)

/-- A file. -/
inductive Document where
  | json (value : Json)
  | events (events : List Event)

inductive GateError where
  | fileNotFoundError (path : Path)
  | jsonDecodeError (path : Path)
  | raised (error : Py.Error)

/-- A path as a text. -/
def pathText (path : Path) : String := String.ofList path

/-! ### The documents -/

/-- `asdict(summary)`. -/
def MetricsSummary.toDict (summary : MetricsSummary) : List (String × Json) :=
  [("total_pnl", .float summary.totalPnl),
   ("baseline_no_trade_pnl", .float summary.baselineNoTradePnl),
   ("strategy_alpha_pnl", .float summary.strategyAlphaPnl),
   ("start_equity", .float summary.startEquity),
   ("end_equity", .float summary.endEquity),
   ("baseline_end_equity", .float summary.baselineEndEquity),
   ("realized_pnl", .float summary.realizedPnl),
   ("unrealized_pnl", .float summary.unrealizedPnl),
   ("fees_paid", .float summary.feesPaid),
   ("virtual_orders", .int summary.virtualOrders),
   ("virtual_cancels", .int summary.virtualCancels),
   ("virtual_replaces", .int summary.virtualReplaces),
   ("virtual_fills", .int summary.virtualFills),
   ("fill_rate", .float summary.fillRate),
   ("fill_per_placed_order", .float summary.fillPerPlacedOrder),
   ("average_quote_lifetime_ms", jsonNumber? summary.averageQuoteLifetimeMs),
   ("orders_per_minute", .float summary.ordersPerMinute),
   ("cancels_per_minute", .float summary.cancelsPerMinute),
   ("fill_per_active_second", .float summary.fillPerActiveSecond),
   ("average_spread_captured", jsonNumber? summary.averageSpreadCaptured),
   ("average_adverse_1s", jsonNumber? summary.averageAdverse1s),
   ("average_adverse_5s", jsonNumber? summary.averageAdverse5s),
   ("average_adverse_30s", jsonNumber? summary.averageAdverse30s),
   ("average_adverse_1s_buy", jsonNumber? summary.averageAdverse1sBuy),
   ("average_adverse_1s_sell", jsonNumber? summary.averageAdverse1sSell),
   ("average_adverse_5s_buy", jsonNumber? summary.averageAdverse5sBuy),
   ("average_adverse_5s_sell", jsonNumber? summary.averageAdverse5sSell),
   ("average_adverse_30s_buy", jsonNumber? summary.averageAdverse30sBuy),
   ("average_adverse_30s_sell", jsonNumber? summary.averageAdverse30sSell),
   ("worst_adverse_buy", jsonNumber? summary.worstAdverseBuy),
   ("worst_adverse_sell", jsonNumber? summary.worstAdverseSell),
   ("shock_event_fill_count", .int summary.shockEventFillCount),
   ("shock_fill_count_by_event", .obj (summary.shockFillCountByEvent.rows.map fun row =>
     (row.1, .int row.2))),
   ("shock_direction_by_event", .obj (summary.shockDirectionByEvent.rows.map fun row =>
     (row.1, .str (directionText row.2)))),
   ("shock_total_spread_capture_by_event",
     .obj (summary.shockTotalSpreadCaptureByEvent.rows.map fun row => (row.1, .float row.2))),
   ("shock_average_adverse_5s_by_event",
     .obj (summary.shockAverageAdverse5sByEvent.map fun row => (row.1, jsonNumber? row.2))),
   ("pnl_by_shock_event", .float summary.pnlByShockEvent),
   ("pnl_outside_shock_events", .float summary.pnlOutsideShockEvents),
   ("max_inventory_skew", jsonNumber? summary.maxInventorySkew),
   ("max_drawdown", .float summary.maxDrawdown),
   ("worst_fill", jsonNumber? summary.worstFill),
   ("best_fill", jsonNumber? summary.bestFill),
   ("risk_blocked_quote_count", .int summary.riskBlockedQuoteCount)]

/-- `asdict(inspection)`. -/
def RecordingInspection.toDict (inspection : RecordingInspection) : List (String × Json) :=
  let counts (entries : List (String × ℕ)) : Json :=
    .obj (entries.map fun entry => (entry.1, .int entry.2))
  [("files", .int inspection.files),
   ("events", .int inspection.events),
   ("event_counts", counts inspection.eventCounts),
   ("rooms", counts inspection.rooms),
   ("has_pair_spec", .bool inspection.hasPairSpec),
   ("has_status", .bool inspection.hasStatus),
   ("has_ticker", .bool inspection.hasTicker),
   ("has_trades", .bool inspection.hasTrades),
   ("has_depth_snapshot", .bool inspection.hasDepthSnapshot),
   ("has_depth_delta", .bool inspection.hasDepthDelta),
   ("sequence_violations", .int inspection.sequenceViolations),
   ("depth_delta_sequence_monotonic", .bool inspection.depthDeltaSequenceMonotonic),
   ("depth_snapshot_first_ts", jsonNumber? inspection.depthSnapshotFirstTs),
   ("depth_snapshot_last_ts", jsonNumber? inspection.depthSnapshotLastTs),
   ("ticker_count", .int inspection.tickerCount),
   ("transaction_count", .int inspection.transactionCount),
   ("reconnect_count", .int inspection.reconnectCount),
   ("heartbeat_events", .int inspection.heartbeatEvents),
   ("connection_events", .int inspection.connectionEvents),
   ("first_event_ts", jsonNumber? inspection.firstEventTs),
   ("last_event_ts", jsonNumber? inspection.lastEventTs),
   ("duration_ms", jsonNumber? inspection.durationMs),
   ("duration_hours", jsonNumber? inspection.durationHours),
   ("max_event_gap_ms", jsonNumber? inspection.maxEventGapMs),
   ("max_local_exchange_drift_ms", jsonNumber? inspection.maxLocalExchangeDriftMs),
   ("metadata_fetch_failed", .bool inspection.metadataFetchFailed),
   ("ok_for_replay", .bool inspection.okForReplay),
   ("reason", jsonText? inspection.reason)]

/-- `summary_data` of `write_report`, with the metadata of `run_files`. -/
def summaryData (summary : MetricsSummary) (replayOrder : String) (strictSequence : Bool) :
    List (String × Json) :=
  summary.toDict ++ [("replay_order", .str replayOrder), ("strict_sequence", .bool strictSequence)]

/-! ### The gate -/

structure QualityGateThresholds where
  minReportCount : ℤ := 2
  minRecordingHours : ℚ := 24
  minFills : ℤ := 30
  minFillRate : ℚ := 1 / 1000
  minStrategyAlphaPnl : ℚ := 0
  maxOrdersPerMinute : ℚ := 10
  maxCancelsPerMinute : ℚ := 10

/-- `asdict(thresholds)`. -/
def QualityGateThresholds.toDict (thresholds : QualityGateThresholds) : List (String × Json) :=
  [("min_report_count", .int thresholds.minReportCount),
   ("min_recording_hours", .float thresholds.minRecordingHours),
   ("min_fills", .int thresholds.minFills),
   ("min_fill_rate", .float thresholds.minFillRate),
   ("min_strategy_alpha_pnl", .float thresholds.minStrategyAlphaPnl),
   ("max_orders_per_minute", .float thresholds.maxOrdersPerMinute),
   ("max_cancels_per_minute", .float thresholds.maxCancelsPerMinute)]

/-- An entry of `reports`. -/
structure SummaryReport where
  path : Path
  strategyAlphaPnl : ℚ
  virtualFills : ℤ
  virtualOrders : ℤ
  fillRate : ℚ
  ordersPerMinute : ℚ
  cancelsPerMinute : ℚ
  fillPerActiveSecond : ℚ

def SummaryReport.toDict (report : SummaryReport) : List (String × Json) :=
  [("path", .str (pathText report.path)),
   ("strategy_alpha_pnl", .float report.strategyAlphaPnl),
   ("virtual_fills", .int report.virtualFills),
   ("virtual_orders", .int report.virtualOrders),
   ("fill_rate", .float report.fillRate),
   ("orders_per_minute", .float report.ordersPerMinute),
   ("cancels_per_minute", .float report.cancelsPerMinute),
   ("fill_per_active_second", .float report.fillPerActiveSecond)]

structure QualityGateResult where
  ok : Bool
  failures : List String
  thresholds : QualityGateThresholds
  reports : List SummaryReport
  recordingInspection : Option (List (String × Json))

/-- `to_dict`. -/
def QualityGateResult.toDict (result : QualityGateResult) : List (String × Json) :=
  [("ok", .bool result.ok),
   ("failures", .arr (result.failures.map Json.str)),
   ("thresholds", .obj result.thresholds.toDict),
   ("reports", .arr (result.reports.map fun report => .obj report.toDict)),
   ("recording_inspection", (result.recordingInspection.map Json.obj).getD .null)]

/-- `_read_json`. -/
def readJson (store : Store Document) (path : Path) : Except GateError (List (String × Json)) :=
  match store.read? path with
  | none => .error (.fileNotFoundError path)
  | some (.events _) => .error (.jsonDecodeError path)
  | some (.json (.obj fields)) => .ok fields
  | some (.json _) =>
      .error (.raised (.valueError ("JSON object required: " ++ pathText path)))

/-- `_to_float`. -/
def toFloat? (texts : Texts) (value : Json) : Option ℚ := seriesValue texts value

/-- `_required_float`. -/
def requiredFloat (texts : Texts) (data : List (String × Json)) (key : String) :
    Except GateError ℚ :=
  match toFloat? texts (Json.get data key) with
  | none => .error (.raised (.valueError ("Missing numeric summary field: " ++ key)))
  | some value => .ok value

/-- `_summary_report`. -/
def summaryReport (texts : Texts) (store : Store Document) (path : Path) :
    Except GateError SummaryReport := do
  let data ← readJson store path
  let strategyAlphaPnl ← requiredFloat texts data "strategy_alpha_pnl"
  let virtualFills ← requiredFloat texts data "virtual_fills"
  let virtualOrders ← requiredFloat texts data "virtual_orders"
  let fillRate ← requiredFloat texts data "fill_rate"
  let ordersPerMinute ← requiredFloat texts data "orders_per_minute"
  let cancelsPerMinute ← requiredFloat texts data "cancels_per_minute"
  let fillPerActiveSecond ← requiredFloat texts data "fill_per_active_second"
  return ⟨path, strategyAlphaPnl, Py.trunc virtualFills, Py.trunc virtualOrders, fillRate,
    ordersPerMinute, cancelsPerMinute, fillPerActiveSecond⟩

section Failures

variable (texts : Texts) (thresholds : QualityGateThresholds)

/-- A float in an f-string. -/
def floatText (value : ℚ) : String := texts.strOf (.float value)

/-- What the recording fails on. -/
def recordingFailures (inspection : List (String × Json)) : List String :=
  (if (Json.get inspection "ok_for_replay").truthy then []
    else ["recording_inspection_not_ok:" ++ texts.strOf (Json.get inspection "reason")]) ++
  match toFloat? texts (Json.get inspection "duration_hours") with
  | none => ["recording_duration_missing"]
  | some durationHours =>
      if durationHours < thresholds.minRecordingHours then
        ["recording_duration_below_min:" ++ floatText texts durationHours ++ "<" ++
          floatText texts thresholds.minRecordingHours]
      else []

/-- What a report fails on. -/
def reportFailures (report : SummaryReport) : List String :=
  let label := pathText report.path
  (if report.virtualFills < thresholds.minFills then
    [label ++ ":fills_below_min:" ++ toString report.virtualFills ++ "<" ++
      toString thresholds.minFills] else []) ++
  (if report.fillRate < thresholds.minFillRate then
    [label ++ ":fill_rate_below_min:" ++ floatText texts report.fillRate ++ "<" ++
      floatText texts thresholds.minFillRate] else []) ++
  (if report.strategyAlphaPnl ≤ thresholds.minStrategyAlphaPnl then
    [label ++ ":strategy_alpha_not_positive:" ++ floatText texts report.strategyAlphaPnl ++ "<=" ++
      floatText texts thresholds.minStrategyAlphaPnl] else []) ++
  (if thresholds.maxOrdersPerMinute < report.ordersPerMinute then
    [label ++ ":orders_per_minute_above_max:" ++ floatText texts report.ordersPerMinute ++ ">" ++
      floatText texts thresholds.maxOrdersPerMinute] else []) ++
  (if thresholds.maxCancelsPerMinute < report.cancelsPerMinute then
    [label ++ ":cancels_per_minute_above_max:" ++ floatText texts report.cancelsPerMinute ++ ">" ++
      floatText texts thresholds.maxCancelsPerMinute] else [])

/-- `evaluate_quality_gate`. -/
def evaluateQualityGate (store : Store Document) (summaryPaths : List Path)
    (recordingInspectionPath : Option Path) : Except GateError QualityGateResult := do
  let reports ← summaryPaths.mapM (summaryReport texts store)
  let countFailures :=
    if (reports.length : ℤ) < thresholds.minReportCount then
      ["report_count_below_min:" ++ toString reports.length ++ "<" ++
        toString thresholds.minReportCount]
    else []
  let inspection ← recordingInspectionPath.mapM (readJson store)
  let inspectionFailures := match inspection with
    | none => ["recording_inspection_required"]
    | some inspection => recordingFailures texts thresholds inspection
  let failures := countFailures ++ inspectionFailures ++
    reports.flatMap (reportFailures texts thresholds)
  return { ok := failures.isEmpty, failures := failures, thresholds := thresholds,
           reports := reports, recordingInspection := inspection }

end Failures

end GhostAmm
