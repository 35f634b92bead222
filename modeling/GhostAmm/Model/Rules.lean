/-
The exchange's rules for a pair (`exchange/bitbank_rules.py`).

`floorToStep` is the rounding the validator uses; the quote surface has a second
copy of it beside a `ceil`, so both round through `roundToDecimals`, which is the
last line the three functions share.
-/
import GhostAmm.Model.Events

namespace GhostAmm

/-- `decimals = max(0, int(round(-math.log10(step)))) if step < 1 else 0`. -/
def decimalsOf (step : ℚ) : ℕ := if step < 1 then (Py.negLog10 step).toNat else 0

/-- `round(steps * step, decimals)`. -/
def roundToDecimals (steps : ℤ) (step : ℚ) : ℚ := Py.round (steps * step) (decimalsOf step)

/-- `floor_to_step`. -/
def floorToStep (value step : ℚ) : ℚ :=
  if step ≤ 0 then value
  else roundToDecimals ⌊(value + step * (1 / 10 ^ 9)) / step⌋ step

structure BitbankPairSpec where
  name : String
  baseAsset : String
  quoteAsset : String
  unitAmount : ℚ
  limitMaxAmount : ℚ
  priceDigits : ℤ
  amountDigits : ℤ
  makerFeeRateBase : ℚ := 0
  makerFeeRateQuote : ℚ := 0
  takerFeeRateBase : ℚ := 0
  takerFeeRateQuote : ℚ := 0
  isEnabled : Bool := true
  stopOrder : Bool := false
  stopOrderAndCancel : Bool := false
  stopBuyOrder : Bool := false
  stopSellOrder : Bool := false
  deriving DecidableEq

namespace BitbankPairSpec

/-- `from_api`: a flag that is missing is off, `is_enabled` included. -/
def fromApi (data : PairSpecPayload) : BitbankPairSpec where
  name := data.name
  baseAsset := data.baseAsset.getD ""
  quoteAsset := data.quoteAsset.getD ""
  unitAmount := data.unitAmount
  limitMaxAmount := data.limitMaxAmount
  priceDigits := data.priceDigits
  amountDigits := data.amountDigits
  makerFeeRateBase := data.makerFeeRateBase.getD 0
  makerFeeRateQuote := data.makerFeeRateQuote.getD 0
  takerFeeRateBase := data.takerFeeRateBase.getD 0
  takerFeeRateQuote := data.takerFeeRateQuote.getD 0
  isEnabled := data.isEnabled.getD false
  stopOrder := data.stopOrder.getD false
  stopOrderAndCancel := data.stopOrderAndCancel.getD false
  stopBuyOrder := data.stopBuyOrder.getD false
  stopSellOrder := data.stopSellOrder.getD false

def tickSize (spec : BitbankPairSpec) : ℚ := 10 ^ (-spec.priceDigits)

def lotSize (spec : BitbankPairSpec) : ℚ := 10 ^ (-spec.amountDigits)

def makerFeeBpsQuote (spec : BitbankPairSpec) : ℚ := spec.makerFeeRateQuote * 10000

def roundPrice (spec : BitbankPairSpec) (price : ℚ) : ℚ := floorToStep price spec.tickSize

def roundAmount (spec : BitbankPairSpec) (amount : ℚ) : ℚ := floorToStep amount spec.lotSize

/-- `validate_order`: `none` when the order is valid, else the reason it is not. -/
def validateOrder (spec : BitbankPairSpec) (side : Side) (price amount : ℚ) : Option String :=
  if spec.name ≠ "btc_jpy" then some "mvp_pair_must_be_btc_jpy"
  else if !spec.isEnabled then some "pair_disabled"
  else if spec.stopOrder || spec.stopOrderAndCancel then some "pair_order_stopped"
  else if side = .buy ∧ spec.stopBuyOrder = true then some "buy_stopped"
  else if side = .sell ∧ spec.stopSellOrder = true then some "sell_stopped"
  else if amount < spec.unitAmount then some "amount_below_unit_amount"
  else if spec.limitMaxAmount < amount then some "amount_above_limit_max_amount"
  else if spec.roundAmount amount ≠ amount then some "amount_precision_invalid"
  else if spec.roundPrice price ≠ price then some "price_precision_invalid"
  else none

end BitbankPairSpec

structure BitbankStatus where
  pair : String
  status : String
  minAmount : ℚ
  deriving DecidableEq

namespace BitbankStatus

/-- `from_api`, on a payload that has a status and a minimum amount. -/
def fromApi (pair status : String) (minAmount : Option ℚ) : BitbankStatus :=
  ⟨pair, status, minAmount.getD 0⟩

def isNormal (status : BitbankStatus) : Bool := status.status == "NORMAL"

end BitbankStatus

end GhostAmm
