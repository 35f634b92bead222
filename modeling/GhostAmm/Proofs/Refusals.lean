/-
Why a side is closed.

The early returns of `evaluate` name their reason, and of the side checks the cooldowns, the
drift and the inventory each write one down for the side they close.  The stop flags of the
pair do not: a side that is closed by its flag alone is not among the blocked sides.  When the
other side is closed for a reason that can be named, that one stands for the decision as a
whole.  So what stays unexplained is a decision in which a flag closed a side and nothing else
closed any (`evaluate_explained_iff`).
-/
import GhostAmm.Proofs.Cooldown
import GhostAmm.Proofs.Gates

namespace GhostAmm

/-- Whether a decision lets a side be quoted. -/
def RiskDecision.allows (decision : RiskDecision) : Side → Bool
  | .buy => decision.allowBuy
  | .sell => decision.allowSell

/-- A decision that says why it refuses, or why it closes a side. -/
structure RiskDecision.Explained (decision : RiskDecision) : Prop where
  refusal : decision.allowQuote = false → decision.reason ≠ none
  closedSide : decision.allowQuote = true → ∀ side, decision.allows side = false →
    side ∈ decision.blockedSides ∧ decision.sideBlockReasons.Has side

/-- The stop flag of a side. -/
def RiskInput.stopFlag (input : RiskInput) : Side → Bool
  | .buy => input.pairSpec.any BitbankPairSpec.stopBuyOrder
  | .sell => input.pairSpec.any BitbankPairSpec.stopSellOrder

namespace RiskKernel

variable {cfg : Config} {self : RiskKernel} {input : RiskInput} {fair : ℚ} {side : Side}

/-! ### The gates in front of the side checks -/

/-- What `evaluate` has seen when it comes to the side checks. -/
structure Passes (cfg : Config) (kernel : RiskKernel) (input : RiskInput) (fair : ℚ) : Prop
    extends Admitted cfg input where
  given : input.fairState.fair = some fair
  skew : ∃ skew, input.inventory.skew cfg.inventory (some fair) = some skew ∧
    |skew| ≤ cfg.inventory.maxAbsSkew
  lastTrade : kernel.lastTradeDeviationTooLarge cfg.risk input.nowMs fair = false

theorem passes_iff : self.Passes cfg input fair ↔ input.fairState.isValid = true ∧
    input.fairState.fair = some fair ∧ self.globalRefusal cfg input fair = none := by
  rw [globalRefusal_eq_none_iff]
  constructor
  · intro h
    refine ⟨h.valid, h.given, h.spread, h.depth, h.activation, ?_, h.pairSpec, h.status, h.flags,
      h.book, h.lastTrade⟩
    rw [h.given]
    exact h.skew
  · intro h
    obtain ⟨hvalid, hfair, hspread, hdepth, hactivation, hskew, hspec, hstatus, hflags, hbook,
      htrade⟩ := h
    rw [hfair] at hskew
    exact ⟨⟨hvalid, hspread, hdepth, hactivation, hspec, hstatus, hflags, hbook⟩, hfair, hskew,
      htrade⟩

/-! ### What closes a side -/

/-- The limits of the inventory that close a side. -/
def InventoryCloses (cfg : Config) (self : RiskKernel) (inventory : InventoryState)
    (fair nowMs : ℚ) (side : Side) : Prop :=
  let maxSize := cfg.amm.maxOrderSize
  let notional := maxSize * fair
  let recent := self.inventoryChangeHistory.dropWhile fun f => decide (60000 < nowMs - f.1)
  let oneSide := cfg.risk.maxOneSideInventoryChangeJpyPerMinute
  (0 < oneSide ∧ oneSide < recentNotional recent side + notional) ∨
  match side with
  | .buy =>
      (0 < cfg.risk.maxInventoryNotionalJpy ∧
        cfg.risk.maxInventoryNotionalJpy < (inventory.baseQty + maxSize) * fair) ∨
      (0 < cfg.risk.maxQuoteUsageJpy ∧ cfg.risk.maxQuoteUsageJpy <
        max 0 (cfg.inventory.initialQuoteQty - inventory.quoteQty) + notional) ∨
      (0 < cfg.risk.maxBaseQty ∧ cfg.risk.maxBaseQty < inventory.baseQty + maxSize) ∨
      (cfg.inventory.negativeBalancesAllowed = false ∧ inventory.quoteQty < notional)
  | .sell => cfg.inventory.negativeBalancesAllowed = false ∧ inventory.baseQty < maxSize

/-- A check of the inventory that may close a side. -/
theorem has_block {blocked : SideReasons} {b : Bool} {closed : Side} {reason : String} :
    (if b then blocked.put (closed, reason) else blocked).Has side ↔
      (b = true ∧ closed = side) ∨ blocked.Has side := by
  cases b with
  | false => simp
  | true =>
      rw [if_pos rfl, Py.Table.has_put]
      simp

private theorem not_has_empty : ¬ (Py.Table.empty : SideReasons).Has side := by
  intro h
  obtain ⟨v, hv, -⟩ := h
  simp at hv

theorem has_inventoryBlockedSides (inventory : InventoryState) (nowMs : ℚ) :
    (self.inventoryBlockedSides cfg inventory fair cfg.amm.maxOrderSize nowMs).2.Has side ↔
      self.InventoryCloses cfg inventory fair nowMs side := by
  unfold inventoryBlockedSides
  extract_lets notional block allowed none quote base maxBase baseLimit maxUsage used quoteLimit
    maxNotional notionalLimit oneSide history exceeds buy sell
  have hnone : ¬ none.Has side := not_has_empty
  have hquote : quote.Has side ↔ _ ∨ none.Has side := has_block
  have hbase : base.Has side ↔ _ ∨ quote.Has side := has_block
  have hbaseLimit : baseLimit.Has side ↔ _ ∨ base.Has side := has_block
  have hquoteLimit : quoteLimit.Has side ↔ _ ∨ baseLimit.Has side := has_block
  have hnotional : notionalLimit.Has side ↔ _ ∨ quoteLimit.Has side := has_block
  have hbuy : buy.Has side ↔ _ ∨ notionalLimit.Has side := has_block
  have hsell : sell.Has side ↔ _ ∨ buy.Has side := has_block
  have hcloses : self.InventoryCloses cfg inventory fair nowMs side ↔
      (0 < oneSide ∧ oneSide < recentNotional history side + notional) ∨
      (side = .buy ∧
        ((0 < maxNotional ∧ maxNotional < (inventory.baseQty + cfg.amm.maxOrderSize) * fair) ∨
        (0 < maxUsage ∧ maxUsage < used + notional) ∨
        (0 < maxBase ∧ maxBase < inventory.baseQty + cfg.amm.maxOrderSize) ∨
        (allowed = false ∧ inventory.quoteQty < notional))) ∨
      (side = .sell ∧ allowed = false ∧ inventory.baseQty < cfg.amm.maxOrderSize) := by
    cases side
    · simp only [true_and, reduceCtorEq, false_and, or_false]
      rfl
    · simp only [true_and, reduceCtorEq, false_and, false_or]
      rfl
  have hexceeds : exceeds side = true ↔ oneSide < recentNotional history side + notional :=
    decide_eq_true_iff
  rw [hcloses]
  clear hcloses
  clear_value sell buy exceeds history oneSide notionalLimit maxNotional quoteLimit used maxUsage
    baseLimit maxBase base quote none allowed block notional
  split
  · rename_i hlimit
    show sell.Has side ↔ _
    rw [hsell, hbuy, hnotional, hquoteLimit, hbaseLimit, hbase, hquote, and_iff_right hlimit,
      ← hexceeds]
    cases side
    · simp [hnone]
    · simp [hnone]
  · rename_i hlimit
    show notionalLimit.Has side ↔ _
    rw [hnotional, hquoteLimit, hbaseLimit, hbase, hquote]
    cases side
    · simp [hnone, hlimit]
    · simp [hnone, hlimit]

/-- The side checks that close a side: the cooldown, the drift and the inventory. -/
def Closes (cfg : Config) (self : RiskKernel) (input : RiskInput) (fair : ℚ) (side : Side) :
    Prop :=
  self.Cooling side input.nowMs ∨
  side ∈ self.fairDriftBlockedSides cfg.risk input.nowMs fair ∨
  self.InventoryCloses cfg input.inventory fair input.nowMs side

private theorem fillBurst_inventory (nowMs : ℚ) :
    (self.fillBurstBlockedSides nowMs).1.inventoryChangeHistory = self.inventoryChangeHistory := by
  unfold fillBurstBlockedSides
  simp only [List.foldl_cons, List.foldl_nil]
  repeat' split
  all_goals rfl

/-- The reasons a decision gives are those of the side checks. -/
theorem has_sideBlockReasons :
    (self.sideChecks cfg input fair).2.sideBlockReasons.Has side ↔
      self.Closes cfg input fair side := by
  let recorded := self.recordFair input.nowMs fair
  obtain ⟨hcooling, -, -⟩ := fillBurstBlockedSides_spec recorded input.nowMs
  have hinventory : ∀ nowMs, (recorded.fillBurstBlockedSides input.nowMs).1.InventoryCloses cfg
      input.inventory fair nowMs side ↔
        self.InventoryCloses cfg input.inventory fair nowMs side := by
    intro nowMs
    unfold InventoryCloses
    rw [fillBurst_inventory]
    exact Iff.rfl
  rw [sideChecks_reasons, Py.Table.has_foldl fun _ _ => Py.Table.has_setDefault,
    Py.Table.has_foldl fun _ _ => Py.Table.has_setDefault, Py.Table.has_ofList]
  have hrows : (∃ v ∈ ((recorded.fillBurstBlockedSides input.nowMs).1.inventoryBlockedSides cfg
      input.inventory fair cfg.amm.maxOrderSize input.nowMs).2.rows, v.1 = side) ↔
      self.InventoryCloses cfg input.inventory fair input.nowMs side :=
    (has_inventoryBlockedSides _ _).trans (hinventory _)
  rw [hrows]
  unfold Closes
  simp only [List.mem_map, exists_exists_and_eq_and, exists_eq_right]
  rw [hcooling]
  exact or_rotate.trans or_left_comm

/-! ### What a decision tells -/

theorem sideReason_isSome :
    (((self.sideChecks cfg input fair).2.sideBlockReasons.get? side).isSome = true) ↔
      self.Closes cfg input fair side :=
  Py.Table.isSome_get?_iff.trans has_sideBlockReasons

/-- Something is quoted when some side is allowed. -/
theorem sideChecks_allowQuote : (self.sideChecks cfg input fair).2.allowQuote = true ↔
    ∃ side, (self.sideChecks cfg input fair).2.allows side = true := by
  have hquote : (self.sideChecks cfg input fair).2.allowQuote
      = ((self.sideChecks cfg input fair).2.allows .buy
        || (self.sideChecks cfg input fair).2.allows .sell) := rfl
  rw [hquote, Bool.or_eq_true]
  constructor
  · intro h
    rcases h with hbuy | hsell
    · exact ⟨.buy, hbuy⟩
    · exact ⟨.sell, hsell⟩
  · intro h
    obtain ⟨side, hside⟩ := h
    cases side with
    | buy => exact Or.inl hside
    | sell => exact Or.inr hside

/-- A side is closed by its flag or by one of the side checks. -/
theorem sideChecks_closed : (self.sideChecks cfg input fair).2.allows side = false ↔
    input.stopFlag side = true ∨ self.Closes cfg input fair side := by
  have hallows : (self.sideChecks cfg input fair).2.allows side = (!input.stopFlag side &&
      ((self.sideChecks cfg input fair).2.sideBlockReasons.get? side).isNone) := by
    cases side <;> rfl
  rw [hallows, ← sideReason_isSome]
  cases input.stopFlag side <;>
    cases (self.sideChecks cfg input fair).2.sideBlockReasons.get? side <;> simp

/-- The blocked sides are those that a side check closes. -/
theorem sideChecks_blocked : side ∈ (self.sideChecks cfg input fair).2.blockedSides ↔
    self.Closes cfg input fair side := by
  have hblocked : (self.sideChecks cfg input fair).2.blockedSides = [Side.buy, Side.sell].filter
      fun side => ((self.sideChecks cfg input fair).2.sideBlockReasons.get? side).isSome := rfl
  rw [hblocked, List.mem_filter, sideReason_isSome]
  refine and_iff_right ?_
  cases side <;> simp

/-- The reason of the decision is that of its first blocked side. -/
theorem sideChecks_reason : (self.sideChecks cfg input fair).2.reason ≠ none ↔
    ∃ side, self.Closes cfg input fair side := by
  have hreason : (self.sideChecks cfg input fair).2.reason
      = (self.sideChecks cfg input fair).2.blockedSides.head?.bind fun side =>
        ((self.sideChecks cfg input fair).2.sideBlockReasons.get? side).map Prod.snd := rfl
  rw [hreason]
  cases hsides : (self.sideChecks cfg input fair).2.blockedSides with
  | nil =>
      refine iff_of_false (by simp) fun h => ?_
      obtain ⟨side, hcloses⟩ := h
      have hlisted := sideChecks_blocked.mpr hcloses
      rw [hsides] at hlisted
      simp at hlisted
  | cons side rest =>
      have hcloses : self.Closes cfg input fair side := by
        apply sideChecks_blocked.mp
        rw [hsides]
        exact List.mem_cons_self
      obtain ⟨row, hrow⟩ := Option.isSome_iff_exists.mp (sideReason_isSome.mpr hcloses)
      exact iff_of_true (by simp [hrow]) ⟨side, hcloses⟩

/-- A side that a check closes explains itself, and a decision that refuses. -/
theorem sideChecks_explained_of_closes
    (h : ∀ side, (self.sideChecks cfg input fair).2.allows side = false →
      ∃ closed, self.Closes cfg input fair closed) :
    (self.sideChecks cfg input fair).2.Explained := by
  refine ⟨fun hrefused => ?_, fun hallow side hside => ?_⟩
  · refine sideChecks_reason.mpr (h .buy ?_)
    by_contra hbuy
    rw [sideChecks_allowQuote.mpr ⟨.buy, Bool.of_not_eq_false hbuy⟩] at hrefused
    simp at hrefused
  · -- the side that is allowed has no reason, so the reason there is belongs to this one
    obtain ⟨closed, hcloses⟩ := h side hside
    obtain ⟨other, hother⟩ := sideChecks_allowQuote.mp hallow
    have hclosed : closed ≠ other := by
      intro hsame
      rw [← hsame, sideChecks_closed.mpr (Or.inr hcloses)] at hother
      simp at hother
    have hne : side ≠ other := by
      intro hsame
      rw [← hsame, hside] at hother
      simp at hother
    have hsame : closed = side := by
      revert hclosed hne
      cases closed <;> cases side <;> cases other <;> simp
    rw [hsame] at hcloses
    exact ⟨sideChecks_blocked.mpr hcloses, has_sideBlockReasons.mpr hcloses⟩

/-- A decision of the side checks is explained unless a flag closes a side and nothing else
does. -/
theorem sideChecks_explained_iff : (self.sideChecks cfg input fair).2.Explained ↔
    ((∃ side, input.stopFlag side = true) → ∃ side, self.Closes cfg input fair side) := by
  constructor
  · intro h hflag
    obtain ⟨side, hstop⟩ := hflag
    have hside : (self.sideChecks cfg input fair).2.allows side = false :=
      sideChecks_closed.mpr (Or.inl hstop)
    cases hallow : (self.sideChecks cfg input fair).2.allowQuote with
    | false => exact sideChecks_reason.mp (h.refusal hallow)
    | true => exact ⟨side, sideChecks_blocked.mp (h.closedSide hallow side hside).1⟩
  · intro h
    refine sideChecks_explained_of_closes fun side hside => ?_
    rcases sideChecks_closed.mp hside with hstop | hcloses
    · exact h ⟨side, hstop⟩
    · exact ⟨side, hcloses⟩

/-! ### Early returns -/

theorem Refuses.explained {decision : RiskDecision} (h : Refuses decision) :
    decision.Explained where
  refusal := fun _ => h.reason
  closedSide := fun hquote => by
    rw [h.quote] at hquote
    simp at hquote

/--
**Every refusal is explained, except those of a stop flag alone.**  A decision says why it
refuses, and names the side it closes with a reason, exactly unless the side checks are
reached, the pair is stopped on some side and no cooldown, drift or limit closes a side.
-/
theorem evaluate_explained_iff (cfg : Config) (self : RiskKernel) (input : RiskInput) :
    (self.evaluate cfg input).2.Explained ↔
      ¬ ∃ fair, self.Passes cfg input fair ∧ (∃ side, input.stopFlag side = true) ∧
        ∀ side, ¬ self.Closes cfg input fair side := by
  unfold evaluate
  split
  · rename_i fair hvalid hfair
    have hpasses : ∀ given, self.Passes cfg input given →
        given = fair ∧ self.globalRefusal cfg input fair = none := by
      intro given h
      have hsame : given = fair := Option.some.inj (h.given.symm.trans hfair)
      exact ⟨hsame, hsame ▸ (passes_iff.mp h).2.2⟩
    split
    · rename_i decision hrefusal
      refine iff_of_true (globalRefusal_refuses decision hrefusal).explained fun h => ?_
      obtain ⟨given, hgiven, -⟩ := h
      have hnone := (hpasses given hgiven).2
      rw [hrefusal] at hnone
      simp at hnone
    · rename_i hnone
      rw [sideChecks_explained_iff]
      constructor
      · intro h hfails
        obtain ⟨given, hgiven, hflag, hnot⟩ := hfails
        rw [(hpasses given hgiven).1] at hnot
        obtain ⟨side, hcloses⟩ := h hflag
        exact hnot side hcloses
      · intro h hflag
        by_contra hnot
        exact h ⟨fair, passes_iff.mpr ⟨hvalid, hfair, hnone⟩, hflag, not_exists.mp hnot⟩
  · rename_i hinvalid
    refine iff_of_true (refuses_refuse _).explained fun h => ?_
    obtain ⟨given, hgiven, -⟩ := h
    exact hinvalid given hgiven.valid hgiven.given

/-! ### A pair stopped on both sides -/

/-- What the kernel is shown of a small market whose pair is stopped on some sides. -/
def stoppedInput (stopBuyOrder stopSellOrder : Bool) : RiskInput :=
  { riskInputAt 0 10000000 1 with
    pairSpec := (riskInputAt 0 10000000 1).pairSpec.map fun spec =>
      { spec with stopBuyOrder := stopBuyOrder, stopSellOrder := stopSellOrder } }

/-- With both flags up nothing is quoted and no reason is given. -/
theorem evaluate_unexplained :
    ¬ ∀ (cfg : Config) (self : RiskKernel) (input : RiskInput),
        ((self.evaluate cfg input).2.allowQuote = false →
          (self.evaluate cfg input).2.reason ≠ none) ∧
        ((self.evaluate cfg input).2.allowQuote = true → ∀ side,
          (self.evaluate cfg input).2.allows side = false →
            side ∈ (self.evaluate cfg input).2.blockedSides ∧
              (self.evaluate cfg input).2.sideBlockReasons.Has side) := by
  intro h
  have hboth := (h flatConfig {} (stoppedInput true true)).1
  exact hboth (by decide +kernel) (by decide +kernel)

end RiskKernel

end GhostAmm
