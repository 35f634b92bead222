/-
The risk kernel (`risk/kernel.py`).

`evaluate` is a chain of early returns, each refusing both sides, followed by the
checks that close one side.  Nothing is written before the chain is through, so the
chain is a function of its own, `globalRefusal`, and the side checks are another.
-/
import GhostAmm.Model.Config
import GhostAmm.Model.OrderBook
import GhostAmm.Model.Rules
import GhostAmm.Model.Inventory

namespace GhostAmm

/-- A reason for each blocked side, in the order the sides were blocked. -/
abbrev SideReasons := Py.Table (Prod.fst : Side × String → Side)

/-- `RiskKernel`, less the configuration it holds. -/
structure RiskKernel where
  fairHistory : List (ℚ × ℚ) := []
  fillHistory : List (ℚ × Side) := []
  inventoryChangeHistory : List (ℚ × Side × ℚ) := []
  fillBurstCooldownUntil : Py.Table (Prod.fst : Side × ℚ → Side) := Py.Table.empty
  lastTrade : Option (ℚ × ℚ) := none

/-- A decision that refuses both sides. -/
def RiskDecision.refuse (reason : String) : RiskDecision where
  allowQuote := false
  allowBuy := false
  allowSell := false
  maxOrderSize := 0
  reason := some reason

namespace RiskKernel

/-- `record_fill`. -/
def recordFill (cfg : RiskConfig) (self : RiskKernel) (side : Side) (tsMs price amount : ℚ) :
    RiskKernel :=
  let self : RiskKernel :=
    { self with inventoryChangeHistory :=
        self.inventoryChangeHistory ++ [(tsMs, side, max 0 (price * amount))] }
  if cfg.maxSameSideFillsPerWindow ≤ 0 then self
  else
    -- the new fill, then `_expire_fill_history`
    let history := (self.fillHistory ++ [(tsMs, side)]).dropWhile fun f =>
      decide (cfg.fillBurstWindowMs < tsMs - f.1)
    let sameSide := history.countP fun f => decide (f.2 = side)
    let self := { self with fillHistory := history }
    if cfg.maxSameSideFillsPerWindow ≤ sameSide then
      { self with fillBurstCooldownUntil :=
          self.fillBurstCooldownUntil.put (side, tsMs + cfg.fillBurstCooldownMs) }
    else self

/-- `record_fill` without a price or an amount: the inventory changes do not hear of the fill. -/
def recordUnpricedFill (cfg : RiskConfig) (self : RiskKernel) (side : Side) (tsMs : ℚ) :
    RiskKernel :=
  { self.recordFill cfg side tsMs 0 0 with inventoryChangeHistory := self.inventoryChangeHistory }

/-- `record_trade`. -/
def recordTrade (self : RiskKernel) (price tsMs : ℚ) : RiskKernel :=
  if 0 < price then { self with lastTrade := some (tsMs, price) } else self

/-- `_last_trade_deviation_too_large`. -/
def lastTradeDeviationTooLarge (cfg : RiskConfig) (self : RiskKernel) (nowMs fair : ℚ) : Bool :=
  if cfg.maxLastTradeFairDeviationBps ≤ 0 then false
  else
    match self.lastTrade with
    | none => false
    | some (tradeTs, tradePrice) =>
        if cfg.lastTradeFairDeviationMaxAgeMs < nowMs - tradeTs then false
        else decide (cfg.maxLastTradeFairDeviationBps < |tradePrice - fair| / fair * 10000)

/-- `_fair_at_or_before`: the scan stops at the first entry after the target. -/
def fairAtOrBefore (self : RiskKernel) (targetMs : ℚ) : Option ℚ :=
  ((self.fairHistory.takeWhile fun f => decide (f.1 ≤ targetMs)).getLast?).map Prod.snd

/-- One horizon of `_fair_drift_blocked_sides`. -/
def driftCheck (self : RiskKernel) (nowMs fair : ℚ) (blocked : List Side)
    (check : ℚ × ℚ × ℚ) : List Side :=
  let (horizonMs, maxDropBps, maxRiseBps) := check
  match self.fairAtOrBefore (nowMs - horizonMs) with
  | none => blocked
  | some prior =>
      if prior ≤ 0 then blocked
      else
        let changeBps := (fair - prior) / prior * 10000
        let blocked :=
          if 0 < maxDropBps ∧ changeBps ≤ -maxDropBps ∧ Side.buy ∉ blocked then blocked ++ [.buy]
          else blocked
        if 0 < maxRiseBps ∧ maxRiseBps ≤ changeBps ∧ Side.sell ∉ blocked then blocked ++ [.sell]
        else blocked

/-- `_fair_drift_blocked_sides`. -/
def fairDriftBlockedSides (cfg : RiskConfig) (self : RiskKernel) (nowMs fair : ℚ) : List Side :=
  [(1000, cfg.maxFairDropBps1sForBid, cfg.maxFairRiseBps1sForAsk),
   (5000, cfg.maxFairDropBps5sForBid, cfg.maxFairRiseBps5sForAsk)].foldl
    (self.driftCheck nowMs fair) []

/-- `_record_fair`. -/
def recordFair (self : RiskKernel) (nowMs fair : ℚ) : RiskKernel :=
  let history := self.fairHistory ++ [(nowMs, fair)]
  { self with fairHistory := history.dropWhile fun f => decide (5000 < nowMs - f.1) }

/-- `_fill_burst_blocked_sides`: a cooldown that has run out is removed. -/
def fillBurstBlockedSides (self : RiskKernel) (nowMs : ℚ) : RiskKernel × List Side :=
  [Side.buy, Side.sell].foldl
    (fun (acc : RiskKernel × List Side) side =>
      match acc.1.fillBurstCooldownUntil.get? side with
      | none => acc
      | some (_, until_) =>
          if nowMs < until_ then (acc.1, acc.2 ++ [side])
          else ({ acc.1 with fillBurstCooldownUntil := acc.1.fillBurstCooldownUntil.erase side },
            acc.2))
    (self, [])

/-- The notional recorded on one side. -/
def recentNotional (history : List (ℚ × Side × ℚ)) (side : Side) : ℚ :=
  ((history.filter fun f => decide (f.2.1 = side)).map fun f => f.2.2).sum

/-- `_inventory_blocked_sides`: a later check overwrites the reason of an earlier one. -/
def inventoryBlockedSides (cfg : Config) (self : RiskKernel) (inventory : InventoryState)
    (fair maxSize nowMs : ℚ) : RiskKernel × SideReasons :=
  let buyNotional := maxSize * fair
  let block (when_ : Bool) (side : Side) (reason : String) (blocked : SideReasons) : SideReasons :=
    if when_ then blocked.put (side, reason) else blocked
  let allowed := cfg.inventory.negativeBalancesAllowed
  let blocked : SideReasons := Py.Table.empty
  let blocked := block (!allowed && decide (inventory.quoteQty < buyNotional)) .buy
    "quote_balance_insufficient" blocked
  let blocked := block (!allowed && decide (inventory.baseQty < maxSize)) .sell
    "base_balance_insufficient" blocked
  let maxBase := cfg.risk.maxBaseQty
  let blocked := block (decide (0 < maxBase) && decide (maxBase < inventory.baseQty + maxSize)) .buy
    "max_base_qty" blocked
  let maxQuoteUsage := cfg.risk.maxQuoteUsageJpy
  let quoteUsed := max 0 (cfg.inventory.initialQuoteQty - inventory.quoteQty)
  let blocked := block (decide (0 < maxQuoteUsage) &&
    decide (maxQuoteUsage < quoteUsed + buyNotional)) .buy "max_quote_usage_jpy" blocked
  let maxNotional := cfg.risk.maxInventoryNotionalJpy
  let blocked := block (decide (0 < maxNotional) &&
    decide (maxNotional < (inventory.baseQty + maxSize) * fair)) .buy
    "max_inventory_notional_jpy" blocked
  let maxOneSide := cfg.risk.maxOneSideInventoryChangeJpyPerMinute
  if 0 < maxOneSide then
    -- `_expire_inventory_change_history`
    let history := self.inventoryChangeHistory.dropWhile fun f => decide (60000 < nowMs - f.1)
    let exceeds (side : Side) : Bool :=
      decide (maxOneSide < recentNotional history side + buyNotional)
    let blocked := block (exceeds .buy) .buy "one_side_inventory_change_limit" blocked
    let blocked := block (exceeds .sell) .sell "one_side_inventory_change_limit" blocked
    ({ self with inventoryChangeHistory := history }, blocked)
  else (self, blocked)

end RiskKernel

/-- What `evaluate` is given besides the kernel. -/
structure RiskInput where
  book : OrderBook
  fairState : FairPriceState
  shockState : ShockState
  inventory : InventoryState
  pairSpec : Option BitbankPairSpec
  status : Option BitbankStatus
  nowMs : ℚ

namespace RiskKernel

/-- `not pair_spec.is_enabled or pair_spec.stop_order or pair_spec.stop_order_and_cancel`. -/
def pairStopped (spec : BitbankPairSpec) : Bool :=
  !spec.isEnabled || spec.stopOrder || spec.stopOrderAndCancel

/-- The early returns of `evaluate`, in order; `none` when the side checks are reached. -/
def globalRefusal (cfg : Config) (self : RiskKernel) (input : RiskInput) (fair : ℚ) :
    Option RiskDecision :=
  match input.book.spreadBps with
  | none => some (.refuse "missing_spread")
  | some spread =>
      if cfg.market.maxSpreadBps < spread then some (.refuse "spread_too_wide")
      else if input.book.depthAroundMid 20 < cfg.market.minDepth20bpsJpy then
        some (.refuse "book_too_thin")
      else if input.shockState.activation < cfg.shock.minActivationToQuote then
        some (.refuse "activation_too_low")
      else
        match (input.inventory.snapshot cfg.inventory input.fairState.fair).skew with
        | none => some (.refuse "invalid_inventory_equity")
        | some skew =>
            if cfg.inventory.maxAbsSkew < |skew| then some (.refuse "inventory_too_skewed")
            else if cfg.risk.blockOnUnfetchedPairSpec && input.pairSpec.isNone then
              some (.refuse "pair_spec_unfetched")
            else if cfg.risk.blockOnBitbankStatusNotNormal &&
                input.status.any (!BitbankStatus.isNormal ·) then
              some (.refuse "bitbank_status_not_normal")
            else if cfg.risk.blockOnPairStopFlags && input.pairSpec.any pairStopped then
              some (.refuse "pair_stop_flag")
            else if input.book.stale && cfg.risk.blockOnSequenceOrderingViolation then
              some (.refuse (Py.textOr input.book.staleReason "book_stale"))
            else if self.lastTradeDeviationTooLarge cfg.risk input.nowMs fair then
              let reason := "last_trade_fair_deviation_too_large"
              some { RiskDecision.refuse reason with
                blockedSides := [.buy, .sell],
                sideBlockReasons := (Py.Table.empty.put (.buy, reason)).put (.sell, reason) }
            else none

/-- The rest of `evaluate`: what closes one side. -/
def sideChecks (cfg : Config) (self : RiskKernel) (input : RiskInput) (fair : ℚ) :
    RiskKernel × RiskDecision :=
  let maxSize := cfg.amm.maxOrderSize
  let allowBuy := !(input.pairSpec.any BitbankPairSpec.stopBuyOrder)
  let allowSell := !(input.pairSpec.any BitbankPairSpec.stopSellOrder)
  let driftBlocks := self.fairDriftBlockedSides cfg.risk input.nowMs fair
  let self := self.recordFair input.nowMs fair
  let (self, burstBlocked) := self.fillBurstBlockedSides input.nowMs
  let reasons : SideReasons :=
    Py.Table.ofList (burstBlocked.map fun side => (side, "fill_burst_cooldown"))
  let reasons := driftBlocks.foldl
    (fun r side => r.setDefault (side, "fair_drift_too_large")) reasons
  let (self, inventoryBlocks) :=
    self.inventoryBlockedSides cfg input.inventory fair maxSize input.nowMs
  let reasons := inventoryBlocks.rows.foldl (fun r row => r.setDefault row) reasons
  let allowBuy := allowBuy && (reasons.get? .buy).isNone
  let allowSell := allowSell && (reasons.get? .sell).isNone
  let blockedSides := [Side.buy, Side.sell].filter fun side => (reasons.get? side).isSome
  (self,
   { allowQuote := allowBuy || allowSell, allowBuy := allowBuy, allowSell := allowSell,
     maxOrderSize := maxSize,
     reason := blockedSides.head?.bind fun side => (reasons.get? side).map Prod.snd,
     blockedSides := blockedSides,
     cooldownUntilMs := (burstBlocked.filterMap fun side =>
       (self.fillBurstCooldownUntil.get? side).map Prod.snd).max?,
     sideBlockReasons := reasons })

/-- `evaluate`. -/
def evaluate (cfg : Config) (self : RiskKernel) (input : RiskInput) : RiskKernel × RiskDecision :=
  match input.fairState.isValid, input.fairState.fair with
  | true, some fair =>
      match self.globalRefusal cfg input fair with
      | some decision => (self, decision)
      | none => self.sideChecks cfg input fair
  | _, _ => (self, .refuse (Py.textOr input.fairState.reason "invalid_fair_price"))

end RiskKernel

end GhostAmm
