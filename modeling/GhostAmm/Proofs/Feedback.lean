/-
What a fill does to the skew.

The skew is the share of the base in the equity, less the target.  A fill may raise or lower
the equity itself, as its price is on one side of the fair price or the other and its fee is
lost; but of two inventories the one with more base and less quote has the larger share, and
that is all a fill changes.  So a buy always raises the skew and a sell lowers it.
-/
import GhostAmm.Model.Inventory

namespace GhostAmm

/-- The shares of two inventories compare as the ratios of what they hold. -/
theorem share_lt_share_iff {base quote base' quote' : ℚ} (h : 0 < base + quote)
    (h' : 0 < base' + quote') :
    base / (base + quote) < base' / (base' + quote') ↔ base * quote' < base' * quote := by
  rw [div_lt_div_iff₀ h h', mul_add, mul_add, mul_comm base' base]
  exact add_lt_add_iff_left _

namespace InventoryState

variable {cfg : InventoryConfig} {self : InventoryState} {fair price amount fee : ℚ}

/-- What the holdings are worth. -/
def equityAt (self : InventoryState) (fair : ℚ) : ℚ := self.baseQty * fair + self.quoteQty

theorem skew_eq (hfair : 0 < fair) (hequity : 0 < self.equityAt fair) :
    self.skew cfg (some fair)
      = some (self.baseQty * fair / self.equityAt fair - cfg.targetBaseRatio) := by
  unfold equityAt at hequity ⊢
  unfold skew snapshot
  simp only [if_neg (not_le.mpr hfair), if_neg (not_le.mpr hequity)]

/-- Balances that are not negative pass the check of a fill. -/
theorem isNegative_of_nonneg (hbase : 0 ≤ self.baseQty) (hquote : 0 ≤ self.quoteQty) :
    self.isNegative = false := by
  have hbase' : ¬ self.baseQty < -(1 / 10 ^ 12) := by linarith
  have hquote' : ¬ self.quoteQty < -(1 / 10 ^ 6) := by linarith
  unfold isNegative
  rw [decide_eq_false hbase', decide_eq_false hquote']
  rfl

/-- A buy raises the share of the base, whatever it paid. -/
theorem share_lt_of_buy (hbase : 0 ≤ self.baseQty) (hfair : 0 < fair) (hamount : 0 < amount)
    (hcost : 0 < price * amount + fee)
    (hquote' : 0 ≤ (self.fill .buy price amount fee).quoteQty) :
    self.baseQty * fair * (self.fill .buy price amount fee).quoteQty
      < (self.fill .buy price amount fee).baseQty * fair * self.quoteQty := by
  have hleft : self.quoteQty - (price * amount + fee) < self.quoteQty := by linarith
  have hpos : 0 < self.quoteQty := lt_of_le_of_lt hquote' hleft
  have hmore : self.baseQty * fair < (self.baseQty + amount) * fair :=
    mul_lt_mul_of_pos_right (by linarith) hfair
  calc self.baseQty * fair * (self.quoteQty - (price * amount + fee))
      ≤ self.baseQty * fair * self.quoteQty :=
        mul_le_mul_of_nonneg_left hleft.le (mul_nonneg hbase hfair.le)
    _ < (self.baseQty + amount) * fair * self.quoteQty := mul_lt_mul_of_pos_right hmore hpos

/-- A sell lowers the share of the base, as long as it brings in more than its fee. -/
theorem share_lt_of_sell (hquote : 0 ≤ self.quoteQty) (hfair : 0 < fair) (hamount : 0 < amount)
    (hgain : fee < price * amount)
    (hbase' : 0 ≤ (self.fill .sell price amount fee).baseQty) :
    (self.fill .sell price amount fee).baseQty * fair * self.quoteQty
      < self.baseQty * fair * (self.fill .sell price amount fee).quoteQty := by
  have hbase' : 0 ≤ self.baseQty - amount := hbase'
  have hpos : 0 < self.baseQty * fair := mul_pos (by linarith) hfair
  have hless : (self.baseQty - amount) * fair ≤ self.baseQty * fair :=
    mul_le_mul_of_nonneg_right (by linarith) hfair.le
  calc (self.baseQty - amount) * fair * self.quoteQty
      ≤ self.baseQty * fair * self.quoteQty := mul_le_mul_of_nonneg_right hless hquote
    _ < self.baseQty * fair * (self.quoteQty + (price * amount - fee)) :=
        mul_lt_mul_of_pos_left (by linarith) hpos

/-- A fill that leaves both balances leaves an equity. -/
theorem equityAt_fill_pos (hbase : 0 ≤ self.baseQty) (hquote : 0 ≤ self.quoteQty)
    (hfair : 0 < fair) (hamount : 0 < amount) (hgain : fee < price * amount) {side : Side}
    (hbase' : 0 ≤ (self.fill side price amount fee).baseQty)
    (hquote' : 0 ≤ (self.fill side price amount fee).quoteQty) :
    0 < (self.fill side price amount fee).equityAt fair := by
  unfold equityAt
  cases side with
  | buy =>
      have hmore : 0 < (self.baseQty + amount) * fair := mul_pos (by linarith) hfair
      exact add_pos_of_pos_of_nonneg hmore hquote'
  | sell =>
      have hmore : 0 < self.quoteQty + (price * amount - fee) := by linarith
      exact add_pos_of_nonneg_of_pos (mul_nonneg hbase' hfair.le) hmore

/--
**Fills move the skew against the side that was filled.**  With balances that are not negative
before and after, and a fee below what changed hands, a buy raises the skew at any fair price
and a sell lowers it.
-/
theorem skew_applyFill (cfg : InventoryConfig) (side : Side) (hbase : 0 ≤ self.baseQty)
    (hquote : 0 ≤ self.quoteQty) (hequity : 0 < self.baseQty * fair + self.quoteQty)
    (hfair : 0 < fair) (hprice : 0 < price) (hamount : 0 < amount) (hfee : 0 ≤ fee)
    (hgain : fee < price * amount)
    (hbase' : 0 ≤ (self.applyFill cfg side price amount fee).1.baseQty)
    (hquote' : 0 ≤ (self.applyFill cfg side price amount fee).1.quoteQty) :
    (self.applyFill cfg side price amount fee).2 = .ok () ∧
    ∃ before after, self.skew cfg (some fair) = some before ∧
      (self.applyFill cfg side price amount fee).1.skew cfg (some fair) = some after ∧
      (side = .buy → before < after) ∧ (side = .sell → after < before) := by
  have hfill : (self.applyFill cfg side price amount fee).1 = self.fill side price amount fee := by
    unfold applyFill
    dsimp only
    split
    · rfl
    · rfl
  rw [hfill] at hbase' hquote' ⊢
  refine ⟨?_, ?_⟩
  · unfold applyFill
    simp [isNegative_of_nonneg hbase' hquote']
  · have hcost : 0 < price * amount + fee := add_pos_of_pos_of_nonneg (mul_pos hprice hamount) hfee
    have hequity' := equityAt_fill_pos hbase hquote hfair hamount hgain hbase' hquote'
    refine ⟨_, _, skew_eq hfair hequity, skew_eq hfair hequity', fun hbuy => ?_, fun hsell => ?_⟩
    · subst hbuy
      apply sub_lt_sub_right
      exact (share_lt_share_iff hequity hequity').mpr
        (share_lt_of_buy hbase hfair hamount hcost hquote')
    · subst hsell
      apply sub_lt_sub_right
      exact (share_lt_share_iff hequity' hequity).mpr
        (share_lt_of_sell hquote hfair hamount hgain hbase')

/-- A buy far above the fair price, with a fee. -/
theorem skew_applyFill_dear_buy :
    ((⟨1, 1000⟩ : InventoryState).applyFill {} .buy 900 1 10).2 = .ok () ∧
    ∃ before after, (⟨1, 1000⟩ : InventoryState).skew {} (some 100) = some before ∧
      ((⟨1, 1000⟩ : InventoryState).applyFill {} .buy 900 1 10).1.skew {} (some 100)
        = some after ∧
      (Side.buy = .buy → before < after) ∧ (Side.buy = .sell → after < before) :=
  skew_applyFill {} .buy (by decide +kernel) (by decide +kernel) (by decide +kernel)
    (by norm_num) (by norm_num) (by norm_num) (by norm_num) (by norm_num) (by decide +kernel)
    (by decide +kernel)

end InventoryState

end GhostAmm
