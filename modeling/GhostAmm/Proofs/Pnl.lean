/-
What `summarize` makes of the fills.

A fill changes the value of the holdings at a price by its gain at that price, whatever is
held, so the gains of the fills add up to what the holdings are worth more than without them:
that is the alpha, and neither the initial balances nor the first price are part of it.  The
rest of the profit is the drift of the initial holdings.

Two figures of the summary are not what they are named for.  The profit is put down to the
shocks as a whole as soon as the log has one, with the drift and the fills no shock brought
about (`pnl_by_shock_iff`).  And the drawdown is that of the values after the fills, without
the value they started from (`max_drawdown_iff`).
-/
import GhostAmm.Lib.Peak
import GhostAmm.Proofs.Feedback
import GhostAmm.Proofs.Reports

namespace GhostAmm

/-! ### The gain of a fill -/

/-- What a fill is worth at a price, over the cash it took or brought, less its fee. -/
def FillPayload.gainAt (fill : FillPayload) (price : ℚ) : ℚ :=
  match fill.side with
  | .buy => fill.fillSize * (price - fill.fillPrice) - fill.fee
  | .sell => fill.fillSize * (fill.fillPrice - price) - fill.fee

namespace InventoryState

theorem equityAt_pay (self : InventoryState) (fill : FillPayload) (price : ℚ) :
    (self.pay fill).equityAt price = self.equityAt price + fill.gainAt price := by
  unfold pay InventoryState.fill equityAt FillPayload.gainAt
  cases fill.side with
  | buy => ring
  | sell => ring

/-- **The gains of the fills add up**, whatever is held. -/
theorem equityAt_foldl_pay (fills : List FillPayload) (price : ℚ) (self : InventoryState) :
    (fills.foldl pay self).equityAt price
      = self.equityAt price + (fills.map (FillPayload.gainAt · price)).sum := by
  induction fills generalizing self with
  | nil => simp
  | cons fill rest ih =>
      rw [List.foldl_cons, ih, equityAt_pay, List.map_cons, List.sum_cons, add_assoc]

end InventoryState

/-- The gains of the two sides before fees, and the fees. -/
theorem sum_gainAt (fills : List FillPayload) (price : ℚ) :
    (fills.map (FillPayload.gainAt · price)).sum
      = ((fills.filter (·.side = .buy)).map fun fill =>
          fill.fillSize * (price - fill.fillPrice)).sum
        + ((fills.filter (·.side = .sell)).map fun fill =>
          fill.fillSize * (fill.fillPrice - price)).sum
        - (fills.map FillPayload.fee).sum := by
  induction fills with
  | nil => simp
  | cons fill rest ih =>
      rw [List.map_cons, List.sum_cons, ih]
      unfold FillPayload.gainAt
      cases hside : fill.side with
      | buy =>
          simp [hside]
          ring
      | sell =>
          simp [hside]
          ring

/-! ### The alpha -/

theorem strategyAlphaPnl_summarize (events : List Event) (initialBase initialQuote : ℚ)
    (lastFair : Option ℚ) :
    (summarize events initialBase initialQuote lastFair).strategyAlphaPnl
      = ((fills events).map (FillPayload.gainAt · (endFair events lastFair))).sum := by
  have hequity := InventoryState.equityAt_foldl_pay (fills events) (endFair events lastFair)
    ⟨initialBase, initialQuote⟩
  show (summarize events initialBase initialQuote lastFair).endEquity
    - (initialBase * endFair events lastFair + initialQuote) = _
  rw [endEquity_summarize]
  unfold InventoryState.equityAt at hequity
  linarith

theorem totalPnl_summarize (events : List Event) (initialBase initialQuote : ℚ)
    (lastFair : Option ℚ) :
    (summarize events initialBase initialQuote lastFair).totalPnl
      = initialBase * (endFair events lastFair - startFair events lastFair)
        + ((fills events).map (FillPayload.gainAt · (endFair events lastFair))).sum := by
  rw [← strategyAlphaPnl_summarize events initialBase initialQuote]
  unfold summarize
  dsimp only
  ring

/-- A summary is marked at a price that is handed over, if that is not zero. -/
theorem endFair_some (events : List Event) {fair : ℚ} (hfair : fair ≠ 0) :
    endFair events (some fair) = fair := by
  unfold endFair Py.truthy
  rw [Option.filter_some_pos (by simpa using hfair)]
  rfl

/--
**The alpha is what the fills gained.**  It is the gain of the buys and the sells at the final
price, less the fees; with the drift of the initial holdings it is the total, which is also the
sum of the realized and the unrealized part.  At a positive final price any log with these
fills has this alpha, from any balances.
-/
theorem alpha_decomposition (events : List Event) (initialBase initialQuote : ℚ)
    (lastFair : Option ℚ) :
    let summary := summarize events initialBase initialQuote lastFair
    let price := endFair events lastFair
    summary.strategyAlphaPnl
      = (((fills events).filter (·.side = .buy)).map fun fill =>
          fill.fillSize * (price - fill.fillPrice)).sum
        + (((fills events).filter (·.side = .sell)).map fun fill =>
          fill.fillSize * (fill.fillPrice - price)).sum
        - summary.feesPaid ∧
    summary.totalPnl = summary.baselineNoTradePnl + summary.strategyAlphaPnl ∧
    summary.realizedPnl + summary.unrealizedPnl = summary.totalPnl ∧
    ∀ fair, lastFair = some fair → 0 < fair →
      ∀ (events' : List Event) (initialBase' initialQuote' : ℚ), fills events' = fills events →
        (summarize events' initialBase' initialQuote' lastFair).strategyAlphaPnl
          = summary.strategyAlphaPnl := by
  intro summary price
  refine ⟨?_, ?_, ?_, ?_⟩
  · show (summarize events initialBase initialQuote lastFair).strategyAlphaPnl = _
    rw [strategyAlphaPnl_summarize, sum_gainAt]
    rfl
  · show _ - _ = (_ - _) + (_ - _)
    ring
  · show _ + (summary.totalPnl - _) = summary.totalPnl
    exact add_sub_cancel _ _
  · intro fair hfair hpos events' initialBase' initialQuote' hfills
    show _ = (summarize events initialBase initialQuote lastFair).strategyAlphaPnl
    rw [strategyAlphaPnl_summarize, strategyAlphaPnl_summarize, hfills, hfair,
      endFair_some _ hpos.ne', endFair_some _ hpos.ne']

/-! ### The profit put down to shocks -/

/-- The gains of the fills that carry the id of a shock. -/
def shockGains (events : List Event) (price : ℚ) : ℚ :=
  (((fills events).filter fun fill => (shockId fill).isSome).map (FillPayload.gainAt · price)).sum

/-- The gains of the fills that carry none. -/
def otherGains (events : List Event) (price : ℚ) : ℚ :=
  (((fills events).filter fun fill => (shockId fill).isNone).map (FillPayload.gainAt · price)).sum

/-- The log has a shock. -/
def hasShock (events : List Event) : Bool :=
  events.any fun event => event.body.eventType == "forced_flow"

theorem sum_gains (events : List Event) (price : ℚ) :
    ((fills events).map (FillPayload.gainAt · price)).sum
      = shockGains events price + otherGains events price := by
  unfold shockGains otherGains
  induction fills events with
  | nil => simp
  | cons fill rest ih =>
      rw [List.map_cons, List.sum_cons, ih]
      cases hid : shockId fill with
      | none =>
          simp [hid]
          ring
      | some id =>
          simp [hid]
          ring

/--
**When the profit put down to shocks is theirs.**  What `summarize` puts down to the shocks is
what the fills with a shock's id gained exactly when the log has a shock and all the rest of
the profit comes to nothing, or has none and those fills gained nothing.  The two parts always
add up to the total.
-/
theorem pnl_by_shock_iff (events : List Event) (initialBase initialQuote : ℚ)
    (lastFair : Option ℚ) :
    let summary := summarize events initialBase initialQuote lastFair
    let price := endFair events lastFair
    (summary.pnlByShockEvent = shockGains events price ∧
      summary.pnlByShockEvent + summary.pnlOutsideShockEvents = summary.totalPnl) ↔
    (hasShock events = true ∧
      initialBase * (price - startFair events lastFair) + otherGains events price = 0) ∨
    (hasShock events = false ∧ shockGains events price = 0) := by
  intro summary price
  have htotal : summary.totalPnl = initialBase * (price - startFair events lastFair)
      + (shockGains events price + otherGains events price) := by
    rw [← sum_gains]
    exact totalPnl_summarize events initialBase initialQuote lastFair
  have hby : summary.pnlByShockEvent = if hasShock events then summary.totalPnl else 0 := rfl
  have hout : summary.pnlOutsideShockEvents = if hasShock events then 0 else summary.totalPnl := rfl
  rw [hby, hout]
  cases hasShock events with
  | true =>
      simp only [if_true, add_zero, and_true, true_and, Bool.true_eq_false, false_and, or_false]
      rw [htotal]
      constructor
      · intro h
        linarith
      · intro h
        linarith
  | false =>
      simp only [Bool.false_eq_true, if_false, zero_add, and_true, true_and, false_and, false_or]
      exact eq_comm

/-- The log of a replay of the small market. -/
def flatLog (events : List Event) : List Event :=
  enrichFairAfter (logOf (Machine.stepsOf (Pipeline.exec seriesRuntime flatConfig events)))

/-- A shock no quote of which is filled, and a book ten percent higher. -/
def shockThenRise : List Event :=
  [pairSpecEvent 1000, snapshotEvent 1000 1 10000000 10000002, sellEvent 1000 10000000 (1 / 10),
    snapshotEvent 2000 2 11000000 11000002]

/-- The drift of the initial holdings is put down to a shock that filled nothing. -/
theorem pnl_by_shock_without_fills :
    ¬ ∀ (events : List Event) (initialBase initialQuote : ℚ) (lastFair : Option ℚ),
        (summarize events initialBase initialQuote lastFair).pnlByShockEvent
            = shockGains events (endFair events lastFair) ∧
          (summarize events initialBase initialQuote lastFair).pnlByShockEvent
              + (summarize events initialBase initialQuote lastFair).pnlOutsideShockEvents
            = (summarize events initialBase initialQuote lastFair).totalPnl := by
  intro h
  have hby := (h (flatLog shockThenRise) (1 / 100) 150000 (some 11000001)).1
  revert hby
  decide +kernel

/-! ### The drawdown -/

theorem maxDrawdown_eq_pass (values : List ℚ) : maxDrawdown values = Peak.pass values := by
  unfold maxDrawdown Peak.pass
  refine congrArg Prod.snd (List.foldl_ext _ _ _ fun acc value _ => ?_)
  unfold Peak.step
  cases acc.1 <;> rfl

/-- What the holdings are worth after each fill. -/
def valuesAfter (events : List Event) (initialBase initialQuote fair : ℚ) : List ℚ :=
  (successive InventoryState.pay ⟨initialBase, initialQuote⟩ (fills events)).map
    (InventoryState.equityAt · fair)

namespace FillTally

theorem fillValues_addShock (self : FillTally) (fill : FillPayload) (id : String) :
    (self.addShock fill id).fillValues = self.fillValues := by
  unfold addShock
  cases spreadValue fill with
  | none => cases fill.fairAfter5s <;> rfl
  | some value => cases fill.fairAfter5s <;> rfl

theorem fillValues_settle (self : FillTally) (fill : FillPayload) :
    (self.settle fill).fillValues = self.fillValues := by
  unfold settle
  cases fill.side <;> rfl

/-- A turn of the loop notes what the holdings are worth at the price that was handed over. -/
theorem fillValues_add {fair : ℚ} (hfair : fair ≠ 0) (self : FillTally) (fill : FillPayload) :
    (self.add (some fair) fill).fillValues
      = self.fillValues ++ [(self.balances.pay fill).equityAt fair] := by
  have hprice : (Py.truthy (some fair)).getD fill.fillPrice = fair := by
    unfold Py.truthy
    rw [Option.filter_some_pos (by simpa using hfair)]
    rfl
  rw [← balances_add (some fair)]
  unfold add InventoryState.equityAt balances
  dsimp only
  rw [hprice, fillValues_settle, mul_comm]
  cases shockId fill with
  | none => rfl
  | some id =>
      dsimp only
      rw [fillValues_addShock]

theorem fillValues_foldl {fair : ℚ} (hfair : fair ≠ 0) (fills : List FillPayload)
    (self : FillTally) : (fills.foldl (add (some fair)) self).fillValues
      = self.fillValues ++ (successive InventoryState.pay self.balances fills).map
          (InventoryState.equityAt · fair) := by
  induction fills generalizing self with
  | nil => simp [successive]
  | cons fill rest ih =>
      rw [List.foldl_cons, ih, fillValues_add hfair, balances_add, successive, List.map_cons,
        List.append_assoc, List.singleton_append]

end FillTally

/-- The drawdown of a summary is that of the values after the fills. -/
theorem maxDrawdown_summarize (events : List Event) (initialBase initialQuote : ℚ) {fair : ℚ}
    (hfair : fair ≠ 0) :
    (summarize events initialBase initialQuote (some fair)).maxDrawdown
      = Peak.pass (valuesAfter events initialBase initialQuote fair) := by
  have hvalues : (FillTally.ofFills initialBase initialQuote (some fair) (fills events)).fillValues
      = valuesAfter events initialBase initialQuote fair :=
    FillTally.fillValues_foldl hfair _ _
  rw [← maxDrawdown_eq_pass, ← hvalues]
  rfl

/-- The last of the values is the end equity. -/
theorem endEquity_mem {events : List Event} {initialBase initialQuote fair : ℚ}
    (hfair : fair ≠ 0) : (summarize events initialBase initialQuote (some fair)).endEquity ∈
      (initialBase * fair + initialQuote) ::
        valuesAfter events initialBase initialQuote fair := by
  rw [endEquity_summarize, endFair_some _ hfair]
  unfold valuesAfter
  by_cases hnone : fills events = []
  · rw [hnone]
    exact List.mem_cons_self
  · apply List.mem_cons_of_mem
    exact List.mem_map_of_mem (f := (InventoryState.equityAt · fair))
      (foldl_mem_successive InventoryState.pay _ ⟨initialBase, initialQuote⟩ hnone)

/--
**When the reported drawdown is that of the run.**  At a positive final price `max_drawdown` is
the largest fall from a value to a later one, the initial value among them, exactly when no
value after a fill is further below the initial one than some value after a fill is below an
earlier one of them.
-/
theorem max_drawdown_iff (events : List Event) (initialBase initialQuote : ℚ) {fair : ℚ}
    (hfair : 0 < fair) :
    let summary := summarize events initialBase initialQuote (some fair)
    let initial := initialBase * fair + initialQuote
    let after := valuesAfter events initialBase initialQuote fair
    (Peak.IsLargestDrop (initial :: after) summary.maxDrawdown ∧
      summary.baselineEndEquity - summary.endEquity ≤ summary.maxDrawdown) ↔
    ∀ value ∈ after, ∃ drop ∈ Peak.drops after, initial - value ≤ drop := by
  intro summary initial after
  have hdrawdown : summary.maxDrawdown = Peak.pass after :=
    maxDrawdown_summarize events initialBase initialQuote hfair.ne'
  have hbaseline : summary.baselineEndEquity = initial := by
    show initialBase * endFair events (some fair) + initialQuote = _
    rw [endFair_some _ hfair.ne']
  have hend : summary.endEquity ∈ initial :: after := endEquity_mem hfair.ne'
  rw [hdrawdown, hbaseline, ← Peak.isLargestDrop_pass_tail_iff]
  refine and_iff_left_of_imp fun hlargest => ?_
  apply hlargest.2
  apply Peak.mem_drops.mp
  rw [Peak.drops, List.mem_append]
  exact Or.inl (List.mem_map_of_mem hend)

/-- A bid that is filled one percent below the price all is marked at, and one as far above. -/
def boughtLowThenHigh : List Event :=
  [pairSpecEvent 1000, snapshotEvent 1000 1 9900000 9900002, sellEvent 1000 9900000 (1 / 10),
    sellEvent 1000 9900000 (1 / 2000), snapshotEvent 2000 2 10100000 10100002,
    sellEvent 2000 10100000 (1 / 2000), snapshotEvent 3000 3 10000000 10000002]

/-- The second fill loses what the first has gained. -/
theorem max_drawdown_two_bids :
    let summary := summarize (flatLog boughtLowThenHigh) (1 / 100) 150000 (some 10000001)
    summary.maxDrawdown = 50 ∧
      Peak.IsLargestDrop ((1 / 100 * 10000001 + 150000) ::
        valuesAfter (flatLog boughtLowThenHigh) (1 / 100) 150000 10000001) summary.maxDrawdown ∧
      summary.baselineEndEquity - summary.endEquity ≤ summary.maxDrawdown :=
  ⟨by decide +kernel, (max_drawdown_iff _ _ _ (by norm_num)).mpr (by decide +kernel)⟩

/-- Two bids that are filled, and a book one percent lower. -/
def buyThenFall : List Event :=
  quoteThenSell (3 / 2000) ++ [snapshotEvent 2000 2 9900000 9900002]

/-- What the first fill lost is left out of the drawdown. -/
theorem max_drawdown_misses_first_fill :
    ¬ ∀ (events : List Event) (initialBase initialQuote fair : ℚ), 0 < fair →
        Peak.IsLargestDrop
            ((initialBase * fair + initialQuote) ::
              valuesAfter events initialBase initialQuote fair)
            (summarize events initialBase initialQuote (some fair)).maxDrawdown ∧
          (summarize events initialBase initialQuote (some fair)).baselineEndEquity
              - (summarize events initialBase initialQuote (some fair)).endEquity
            ≤ (summarize events initialBase initialQuote (some fair)).maxDrawdown := by
  intro h
  have hloss := (h (flatLog buyThenFall) (1 / 100) 150000 9900001 (by norm_num)).2
  revert hloss
  decide +kernel

end GhostAmm
