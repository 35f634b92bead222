/-
The inventory (`amm/inventory.py`).
-/
import GhostAmm.Model.Config
import GhostAmm.Model.Events

namespace GhostAmm

/-- `InventoryState`, less the target ratio and the switch its section holds. -/
structure InventoryState where
  baseQty : ℚ
  quoteQty : ℚ
  deriving DecidableEq

namespace InventoryState

/-- The dictionary `snapshot` returns. -/
structure Snapshot where
  baseQty : ℚ
  quoteQty : ℚ
  equity : Option ℚ
  baseRatio : Option ℚ
  skew : Option ℚ

/-- `snapshot`: no ratio and no skew without a positive fair price and a positive equity. -/
def snapshot (cfg : InventoryConfig) (self : InventoryState) (fair : Option ℚ) : Snapshot :=
  match fair with
  | none => ⟨self.baseQty, self.quoteQty, none, none, none⟩
  | some fair =>
      if fair ≤ 0 then ⟨self.baseQty, self.quoteQty, none, none, none⟩
      else
        let equity := self.baseQty * fair + self.quoteQty
        if equity ≤ 0 then ⟨self.baseQty, self.quoteQty, some equity, none, none⟩
        else
          let baseRatio := self.baseQty * fair / equity
          ⟨self.baseQty, self.quoteQty, some equity, some baseRatio,
            some (baseRatio - cfg.targetBaseRatio)⟩

def skew (cfg : InventoryConfig) (self : InventoryState) (fair : Option ℚ) : Option ℚ :=
  (self.snapshot cfg fair).skew

/-- What a fill does to the balances. -/
def fill (self : InventoryState) (side : Side) (price amount fee : ℚ) : InventoryState :=
  match side with
  | .buy => ⟨self.baseQty + amount, self.quoteQty - (price * amount + fee)⟩
  | .sell => ⟨self.baseQty - amount, self.quoteQty + (price * amount - fee)⟩

/-- `self.base_qty < -1e-12 or self.quote_qty < -1e-6`. -/
def isNegative (self : InventoryState) : Bool :=
  decide (self.baseQty < -(1 / 10 ^ 12)) || decide (self.quoteQty < -(1 / 10 ^ 6))

/-- The exception `apply_fill` raises. -/
def negativeBalances : Py.Error := .valueError "negative balances are disabled"

/-- `apply_fill`: the balances change before the check, so they stay changed when it raises. -/
def applyFill (cfg : InventoryConfig) (self : InventoryState) (side : Side)
    (price amount fee : ℚ) : InventoryState × Except Py.Error Unit :=
  let after := self.fill side price amount fee
  if !cfg.negativeBalancesAllowed && after.isNegative then (after, .error negativeBalances)
  else (after, .ok ())

end InventoryState

end GhostAmm
