/-
The live gates (`execution/live_gates.py`).
-/
import GhostAmm.Model.Config
import GhostAmm.Model.OrderBook
import GhostAmm.Model.Rules

namespace GhostAmm

structure OrderIntent where
  venue : String
  pair : String
  symbol : String
  side : Side
  price : ℚ
  amount : ℚ
  orderType : String := "limit"
  postOnly : Bool := true
  clientOrderId : Option String := none
  deriving DecidableEq

structure LiveGateResult where
  allowed : Bool
  reason : Option String
  deriving DecidableEq

/-- A refusal. -/
def LiveGateResult.blocked (reason : String) : LiveGateResult := ⟨false, some reason⟩

/-- Whether the order would cross the book; an empty opposite side crosses nothing. -/
def wouldCross (intent : OrderIntent) (book : OrderBook) : Bool :=
  match intent.side with
  | .buy => book.bestAsk.any fun ask => decide (ask ≤ intent.price)
  | .sell => book.bestBid.any fun bid => decide (intent.price ≤ bid)

/-- `not env.get(name)`: a missing variable, or an empty one. -/
def envMissing (env : String → Option String) (name : String) : Bool :=
  (env name).all fun value => decide (value = "")

/-- `Mapping[str, str]`. -/
abbrev Environ := Py.Table (Prod.fst : String × String → String)

/-- `env or os.environ`: a mapping that is not passed, or has no entries, gives way to the
environment of the process. -/
def envOr (environ : String → Option String) (env : Option Environ) : String → Option String :=
  match env with
  | some mapping =>
      if mapping.rows = [] then environ else fun name => (mapping.get? name).map Prod.snd
  | none => environ

/--
`evaluate_live_order_gates`.  `env` is the mapping after `env or os.environ`.
-/
def evaluateLiveOrderGates (cfg : Config) (intent : OrderIntent)
    (pairSpec : Option BitbankPairSpec) (status : Option BitbankStatus)
    (book : Option OrderBook) (risk : RiskDecision) (clockDriftMs : ℚ)
    (env : String → Option String) : LiveGateResult :=
  if cfg.execution.mode ≠ "live" then .blocked "execution_mode_not_live"
  else if cfg.execution.venue ≠ "bitbank" ∨ intent.venue ≠ "bitbank" then
    .blocked "venue_not_bitbank"
  else if !cfg.execution.enableLiveOrders then .blocked "enable_live_orders_false"
  else if env cfg.execution.liveEnvVarName ≠ some cfg.execution.liveEnvVarValue then
    .blocked "live_env_var_missing"
  else if envMissing env "BITBANK_API_KEY" || envMissing env "BITBANK_API_SECRET" then
    .blocked "api_key_or_secret_missing"
  else
    match pairSpec with
    | none => .blocked "pair_metadata_unfetched"
    | some spec =>
        if !status.any BitbankStatus.isNormal then .blocked "bitbank_status_not_normal"
        else if !cfg.execution.postOnlyOnly then .blocked "post_only_only_false"
        else if cfg.execution.unmanagedOpenOrdersPresent then
          .blocked "unmanaged_open_orders_present"
        else if !cfg.execution.confirmApiKeyNoWithdrawalPermission then
          .blocked "api_key_withdrawal_permission_unconfirmed"
        else if !cfg.execution.positiveQualityGatePassed then
          .blocked "positive_quality_gate_not_passed"
        else if intent.pair ≠ "btc_jpy" ∨ spec.name ≠ "btc_jpy" then
          .blocked "mvp_pair_must_be_btc_jpy"
        else if !spec.isEnabled then .blocked "pair_disabled"
        else if spec.stopOrder || spec.stopOrderAndCancel then .blocked "pair_order_stopped"
        else if intent.side = .buy ∧ spec.stopBuyOrder = true then .blocked "buy_stopped"
        else if intent.side = .sell ∧ spec.stopSellOrder = true then .blocked "sell_stopped"
        else if cfg.bitbank.clockDriftLimitMs < |clockDriftMs| then .blocked "clock_drift_too_high"
        else if risk.allowQuote = false ∨ (intent.side = .buy ∧ risk.allowBuy = false) ∨
            (intent.side = .sell ∧ risk.allowSell = false) then
          .blocked "risk_kernel_blocked"
        else if intent.orderType ≠ "limit" ∨ intent.postOnly = false then
          .blocked "order_must_be_post_only_limit"
        else if book.any (wouldCross intent) then .blocked "post_only_order_would_cross"
        else
          match spec.validateOrder intent.side intent.price intent.amount with
          | some reason => .blocked reason
          | none => ⟨true, none⟩

/-- `live_order_blocked_event`. -/
def liveOrderBlockedEvent (rt : Runtime) (intent : OrderIntent) (result : LiveGateResult)
    (tsMs : ℚ) : Event :=
  makeEvent rt
    (.liveOrderBlocked
      { pair := intent.pair, side := intent.side, price := intent.price, amount := intent.amount,
        orderType := intent.orderType, postOnly := intent.postOnly,
        clientOrderId := intent.clientOrderId, reason := result.reason })
    tsMs intent.venue intent.symbol

end GhostAmm
