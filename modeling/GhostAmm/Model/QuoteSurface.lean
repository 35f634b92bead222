/-
The quote surface (`amm/quote_surface.py`).
-/
import GhostAmm.Model.Config
import GhostAmm.Model.Rules

namespace GhostAmm

structure Quote where
  side : Side
  price : ℚ
  size : ℚ
  level : ℕ
  activation : ℚ
  inventorySkew : ℚ
  fair : ℚ
  shockEventId : Option String := none
  shockDirection : ShockDirection := .neutral
  shockAgeMs : Option ℚ := none
  deriving DecidableEq

structure QuoteSurface where
  levels : ℤ
  baseOrderSize : ℚ
  halfSpreadBps : ℚ
  stepBps : ℚ
  skewStrengthBps : ℚ
  sizeSkewStrength : ℚ
  minOrderSize : ℚ
  maxOrderSize : ℚ
  tickSize : ℚ
  lotSize : ℚ

/-- `_floor_to_step`, the same function as the validator's. -/
def quoteFloorToStep (value step : ℚ) : ℚ := floorToStep value step

/-- `_ceil_to_step`. -/
def ceilToStep (value step : ℚ) : ℚ :=
  if step ≤ 0 then value
  else roundToDecimals ⌈(value - step * (1 / 10 ^ 9)) / step⌉ step

/-- `_floor_quote_size`. -/
def floorQuoteSize (value minOrderSize maxOrderSize lotSize : ℚ) : Option ℚ :=
  if value < minOrderSize then none
  else
    let size := quoteFloorToStep (min value maxOrderSize) lotSize
    if minOrderSize ≤ size then some size else none

namespace QuoteSurface

def fromConfig (cfg : AmmConfig) (pairSpec : Option BitbankPairSpec) : QuoteSurface where
  levels := cfg.levels
  baseOrderSize := cfg.baseOrderSize
  halfSpreadBps := cfg.halfSpreadBps
  stepBps := cfg.stepBps
  skewStrengthBps := cfg.skewStrengthBps
  sizeSkewStrength := cfg.sizeSkewStrength
  minOrderSize := (pairSpec.map BitbankPairSpec.unitAmount).getD cfg.minOrderSizeFallback
  maxOrderSize := cfg.maxOrderSize
  tickSize := (pairSpec.map BitbankPairSpec.tickSize).getD cfg.tickSizeFallbackJpy
  lotSize := (pairSpec.map BitbankPairSpec.lotSize).getD cfg.lotSizeFallbackBtc

/-- What `generate` is given besides the surface. -/
structure Request where
  fair : ℚ
  inventorySkew : ℚ
  bidActivation : ℚ
  askActivation : ℚ
  shockEventId : Option String
  shockDirection : ShockDirection
  shockAgeMs : Option ℚ

/-- The quotes of one level. -/
def generateLevel (rt : Runtime) (self : QuoteSurface) (request : Request) (level : ℕ) :
    List Quote :=
  let half := self.halfSpreadBps / 10000
  let step := self.stepBps / 10000
  let skew := self.skewStrengthBps * request.inventorySkew / 10000
  let bidSizeBase := self.baseOrderSize * request.bidActivation *
    rt.exp (-self.sizeSkewStrength * request.inventorySkew)
  let askSizeBase := self.baseOrderSize * request.askActivation *
    rt.exp (self.sizeSkewStrength * request.inventorySkew)
  let distance := half + level * step
  let bidPrice := quoteFloorToStep (request.fair * rt.exp (-(distance + skew))) self.tickSize
  let askPrice := ceilToStep (request.fair * rt.exp (distance - skew)) self.tickSize
  let quote (side : Side) (price size activation : ℚ) : Quote :=
    { side := side, price := price, size := size, level := level, activation := activation,
      inventorySkew := request.inventorySkew, fair := request.fair,
      shockEventId := request.shockEventId, shockDirection := request.shockDirection,
      shockAgeMs := request.shockAgeMs }
  let bids :=
    match floorQuoteSize bidSizeBase self.minOrderSize self.maxOrderSize self.lotSize with
    | some size => [quote .buy bidPrice size request.bidActivation]
    | none => []
  let asks :=
    match floorQuoteSize askSizeBase self.minOrderSize self.maxOrderSize self.lotSize with
    | some size => [quote .sell askPrice size request.askActivation]
    | none => []
  bids ++ asks

/-- `generate`; the pipeline always passes both side activations. -/
def generate (rt : Runtime) (self : QuoteSurface) (request : Request) : List Quote :=
  if request.fair ≤ 0 ∨ (request.bidActivation ≤ 0 ∧ request.askActivation ≤ 0) then []
  else (List.range self.levels.toNat).flatMap (self.generateLevel rt request)

end QuoteSurface

end GhostAmm
