/-
The configuration (`config.py`) as the components read it.

One record a section, one field a leaf that the modelled code reads, under the
leaf's name and with the value `DEFAULT_CONFIG` gives it.  A leaf is held at the
type the reading code converts it to (`float`, `int`, `bool`, `str`), and a leaf
that is read as `float(value or 0)` has zero for null.  Leaves nothing reads (the
bitbank URLs, the `ccxt` section, the drawdown and daily-loss limits) are left out.
-/
import GhostAmm.Lib.Python

namespace GhostAmm

structure ReplayConfig where
  order : String := "arrival_order"
  strictSequence : Bool := true
  allowExchangeTimeSort : Bool := false

structure BitbankConfig where
  clockDriftLimitMs : ℚ := 1000

structure ExecutionConfig where
  mode : String := "replay"
  venue : String := "bitbank"
  enableLiveOrders : Bool := false
  postOnlyOnly : Bool := true
  unmanagedOpenOrdersPresent : Bool := false
  confirmApiKeyNoWithdrawalPermission : Bool := false
  positiveQualityGatePassed : Bool := false
  liveEnvVarName : String := "GHOST_AMM_ENABLE_LIVE"
  liveEnvVarValue : String := "I_ACCEPT_RISK"
  maxActiveOrdersPerPair : ℤ := 20
  quoteTtlMs : ℚ := 3000
  minQuoteReplaceIntervalMs : ℚ := 0
  quoteReplaceThresholdBps : ℚ := 0
  sizeReplaceThresholdRatio : ℚ := 0

structure MarketConfig where
  staleAfterMs : ℚ := 3000
  maxSpreadBps : ℚ := 50
  minDepth20bpsJpy : ℚ := 5000000

structure FairConfig where
  minSourceCount : ℤ := 1
  maxSourceAgeMs : ℚ := 3000
  maxSourceDeviationBps : ℚ := 80
  useMedian : Bool := true

structure InventoryConfig where
  initialBaseQty : ℚ := 1 / 100
  initialQuoteQty : ℚ := 150000
  targetBaseRatio : ℚ := 1 / 2
  maxAbsSkew : ℚ := 35 / 100
  negativeBalancesAllowed : Bool := false

structure AmmConfig where
  levels : ℤ := 6
  baseOrderSize : ℚ := 1 / 1000
  halfSpreadBps : ℚ := 8
  stepBps : ℚ := 10
  skewStrengthBps : ℚ := 80
  sizeSkewStrength : ℚ := 3
  minOrderSizeFallback : ℚ := 1 / 10000
  maxOrderSize : ℚ := 2 / 1000
  tickSizeFallbackJpy : ℚ := 1
  lotSizeFallbackBtc : ℚ := 1 / 10000

structure ShockConfig where
  forcedFlowWindowMs : ℚ := 5000
  depthBps : ℚ := 20
  threshold : ℚ := 1
  temperature : ℚ := 3 / 2
  minimumWaitAfterShockMs : ℚ := 2000
  activationDecayMs : ℚ := 30000
  minActivationToQuote : ℚ := 15 / 100
  oppositeSideActivationRatio : ℚ := 0

structure FillModelConfig where
  queueAheadMultiplier : ℚ := 3 / 2
  makerFeeBpsFallback : ℚ := 0
  minRestingTimeMs : ℚ := 500

structure FeeConfig where
  makerFeeSource : String := "bitbank_pair_spec"
  negativeMakerFeePolicy : String := "clamp_to_zero"

structure RiskConfig where
  maxSameSideFillsPerWindow : ℤ := 3
  fillBurstWindowMs : ℚ := 10000
  fillBurstCooldownMs : ℚ := 60000
  maxBaseQty : ℚ := 0
  maxQuoteUsageJpy : ℚ := 0
  maxInventoryNotionalJpy : ℚ := 0
  maxOneSideInventoryChangeJpyPerMinute : ℚ := 0
  maxFairDropBps1sForBid : ℚ := 0
  maxFairRiseBps1sForAsk : ℚ := 0
  maxFairDropBps5sForBid : ℚ := 0
  maxFairRiseBps5sForAsk : ℚ := 0
  maxLastTradeFairDeviationBps : ℚ := 0
  lastTradeFairDeviationMaxAgeMs : ℚ := 3000
  blockOnSequenceOrderingViolation : Bool := true
  blockOnBitbankStatusNotNormal : Bool := true
  blockOnPairStopFlags : Bool := true
  blockOnUnfetchedPairSpec : Bool := true

structure Config where
  symbol : String := "BTC/JPY"
  pair : String := "btc_jpy"
  replay : ReplayConfig := {}
  bitbank : BitbankConfig := {}
  execution : ExecutionConfig := {}
  market : MarketConfig := {}
  fair : FairConfig := {}
  inventory : InventoryConfig := {}
  amm : AmmConfig := {}
  shock : ShockConfig := {}
  fillModel : FillModelConfig := {}
  fee : FeeConfig := {}
  risk : RiskConfig := {}

end GhostAmm
