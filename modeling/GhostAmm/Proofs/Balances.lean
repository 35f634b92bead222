/-
The balances.

The risk kernel tests the balances and the caps against one order of the largest size.
What a trade then does to them is decided by all the orders it reaches: up to
`max_active_orders_per_pair` of them rest at once, and the kernel is not asked again
until the trade is over.  Both facts below are therefore equivalences.  A call raises
exactly when some balance on the way through the reached orders is negative, and a cap
is kept exactly when what a trade buys fits under it.
-/
import GhostAmm.Proofs.Lifecycle

namespace GhostAmm

/-- What paying for `q.2` of the order `q.1` does to the balances. -/
def InventoryState.payOrder (makerFeeBps : ℚ) (self : InventoryState) (q : TrackedOrder × ℚ) :
    InventoryState :=
  self.fill q.1.side q.1.price q.2 (q.1.price * q.2 * makerFeeBps / 10000)

namespace Pipeline

/-- The balances after each of the orders the event reaches. -/
def balancesReached (cfg : Config) (self : Pipeline) (event : Event) : List InventoryState :=
  successive (InventoryState.payOrder self.fillModel.makerFeeBps) self.inventory
    (self.reached cfg event)

/-- No balance falls below the tolerances on the way through the orders the event reaches. -/
def Affordable (cfg : Config) (self : Pipeline) (event : Event) : Prop :=
  ∀ b ∈ self.balancesReached cfg event, b.isNegative = false

variable {rt : Runtime} {cfg : Config} {s s' : Pipeline} {event : Event} {out : List Event}

/-- The balances a call goes through are those of the orders its event reaches. -/
theorem successive_fills (makerFeeBps : ℚ) (inventory : InventoryState) (fairState : FairPriceState)
    (reached : List (TrackedOrder × ℚ)) :
    successive InventoryState.pay inventory
        (reached.map fun q => fillPayload makerFeeBps event fairState q.1 q.2)
      = successive (InventoryState.payOrder makerFeeBps) inventory reached :=
  successive_map _ _ _ _

theorem foldl_fills (makerFeeBps : ℚ) (inventory : InventoryState) (fairState : FairPriceState)
    (reached : List (TrackedOrder × ℚ)) :
    (reached.map fun q => fillPayload makerFeeBps event fairState q.1 q.2).foldl
        InventoryState.pay inventory
      = reached.foldl (InventoryState.payOrder makerFeeBps) inventory := by
  rw [List.foldl_map]
  rfl

theorem Processed.successive_out (step : Processed rt cfg s event s' out) :
    successive InventoryState.pay s.inventory (GhostAmm.fills out)
      = s.balancesReached cfg event := by
  rw [step.fills_out, successive_fills]
  rfl

/-! ### What else a call can raise -/

/-- The exceptions of `float`, of a division and of a median. -/
inductive OfMarketData : Py.Error → Prop
  | text (value : String) :
      OfMarketData (.valueError ("could not convert string to float: '" ++ value ++ "'"))
  | foreign (message : String) : OfMarketData (.typeError message)
  | division : OfMarketData .zeroDivisionError
  | median : OfMarketData .statisticsError

/-- Their messages begin in one way, so that they are told from others by the first letter. -/
theorem OfMarketData.ne_valueError {e : Py.Error} (h : OfMarketData e) {message : String}
    (hhead : message.toList.head? ≠ some 'c') : e ≠ .valueError message := by
  intro heq
  cases h with
  | text value =>
      have hsame := congrArg (fun m : String => m.toList.head?) (Py.Error.valueError.inj heq)
      simp at hsame
      exact hhead hsame.symm
  | foreign other => simp at heq
  | division => simp at heq
  | median => simp at heq

theorem OfMarketData.ne_negativeBalances {e : Py.Error} (h : OfMarketData e) :
    e ≠ InventoryState.negativeBalances :=
  h.ne_valueError (by decide)

theorem float_error {entry : Scalar} {e : Py.Error} (h : entry.float = .error e) :
    OfMarketData e := by
  cases entry with
  | number value => simp [Scalar.float] at h
  | text value =>
      rw [← Except.error.inj h]
      exact OfMarketData.text value
  | foreign typeName =>
      rw [← Except.error.inj h]
      exact OfMarketData.foreign _

private theorem bind_error {α β : Type} {x : Except Py.Error α} {f : α → Except Py.Error β}
    {e : Py.Error} (h : (x >>= f) = .error e) : x = .error e ∨ ∃ a, f a = .error e := by
  cases x with
  | error e' => exact Or.inl (by simpa [bind, Except.bind] using h)
  | ok a => exact Or.inr ⟨a, h⟩

theorem parseSnapshot_raises : ∀ {levels : List (Scalar × Scalar)} {e : Py.Error},
    parseSnapshot levels = .error e → ∃ entry : Scalar, entry.float = .error e := by
  intro levels
  induction levels with
  | nil => intro e h; simp [parseSnapshot] at h
  | cons level rest ih =>
      intro e h
      rcases bind_error h with hamount | ⟨amount, h⟩
      · exact ⟨_, hamount⟩
      · split at h
        · rcases bind_error h with hprice | ⟨price, h⟩
          · exact ⟨_, hprice⟩
          · rcases bind_error h with hrest | ⟨more, h⟩
            · exact ih hrest
            · simp [pure, Except.pure] at h
        · exact ih h

theorem setLevels_raises : ∀ {levels : List (Scalar × Scalar)} {side : Levels} {e : Py.Error},
    (setLevels side levels).2 = .error e → ∃ entry : Scalar, entry.float = .error e := by
  intro levels
  induction levels with
  | nil => intro side e h; simp [setLevels] at h
  | cons level rest ih =>
      obtain ⟨price, amount⟩ := level
      intro side e h
      unfold setLevels at h
      cases hprice : price.float with
      | error e' =>
          simp only [hprice] at h
          exact ⟨price, hprice.trans (Except.error.inj h ▸ rfl)⟩
      | ok p =>
          cases hamount : amount.float with
          | error e' =>
              simp only [hprice, hamount] at h
              exact ⟨amount, hamount.trans (Except.error.inj h ▸ rfl)⟩
          | ok a =>
              simp only [hprice, hamount] at h
              exact ih h

/-- What the book raises, `float` raises on an entry. -/
theorem applyEvent_raises {book : OrderBook} {event : Event} {e : Py.Error}
    (h : (book.applyEvent event).2 = .error e) : ∃ entry : Scalar, entry.float = .error e := by
  unfold OrderBook.applyEvent at h
  split at h
  · rename_i payload _
    unfold OrderBook.applySnapshot at h
    split at h
    · rename_i hbids
      exact parseSnapshot_raises (hbids.trans (Except.error.inj h ▸ rfl))
    · split at h
      · rename_i hasks
        exact parseSnapshot_raises (hasks.trans (Except.error.inj h ▸ rfl))
      · simp at h
  · rename_i payload _
    unfold OrderBook.applyDelta at h
    simp only at h
    split at h
    · simp at h
    · split at h
      · simp at h
      · split at h
        · rename_i hbids
          exact setLevels_raises (congrArg Prod.snd hbids |>.trans h)
        · split at h
          · rename_i hasks
            exact setLevels_raises (congrArg Prod.snd hasks |>.trans h)
          · simp at h
  · simp at h

theorem applyEvent_error {book : OrderBook} {event : Event} {e : Py.Error}
    (h : (book.applyEvent event).2 = .error e) : OfMarketData e := by
  obtain ⟨entry, hentry⟩ := applyEvent_raises h
  exact float_error hentry

theorem median_error {xs : List ℚ} {e : Py.Error} (h : Py.median xs = .error e) :
    e = .statisticsError := by
  unfold Py.median at h
  simp only at h
  split at h
  · exact (Except.error.inj h).symm
  · split at h <;> simp at h

theorem mean_error {xs : List ℚ} {e : Py.Error} (h : Py.mean xs = .error e) :
    e = .zeroDivisionError := by
  unfold Py.mean at h
  split at h
  · exact (Except.error.inj h).symm
  · simp at h

theorem fromSources_error {cfg : FairConfig} {sources : List FairPriceSource} {nowMs : ℚ}
    {e : Py.Error} (h : fromSources cfg sources nowMs = .error e) : OfMarketData e := by
  unfold fromSources at h
  simp only at h
  split at h
  · simp at h
  · split at h
    · rename_i hmedian
      rw [← Except.error.inj h, median_error hmedian]
      exact OfMarketData.median
    · split at h
      · simp at h
      · split at h
        · rename_i hfair
          rw [← Except.error.inj h]
          split at hfair
          · rw [median_error hfair]
            exact OfMarketData.median
          · rw [mean_error hfair]
            exact OfMarketData.division
        · simp at h

theorem fromMarketEvent_error {cfg : Config} {sources : Sources} {book : OrderBook}
    {event : Event} {nowMs : ℚ} {e : Py.Error}
    (h : (fromMarketEvent cfg sources book event nowMs).2 = .error e) : OfMarketData e := by
  unfold fromMarketEvent at h
  simp only at h
  split at h
  · rename_i e' hbook
    rw [← Except.error.inj h]
    unfold sourceFromOrderbook at hbook
    split at hbook
    · simp at hbook
    · split at hbook
      · split at hbook
        · simp at hbook
        · split at hbook
          · simp at hbook
          · split at hbook
            · rw [← Except.error.inj hbook]
              exact OfMarketData.division
            · simp only at hbook
              split at hbook <;> simp at hbook
      · simp at hbook
  · exact fromSources_error h

/-! ### Solvency -/

/-- The three ways a call can go: it raises on the book, or in the fair price engine, or it
comes to the fills. -/
theorem process_outcome (rt : Runtime) (cfg : Config) (s : Pipeline) (event : Event) :
    (∃ e, (s.book.applyEvent event).2 = .error e ∧ (process rt cfg s event).2 = .error e) ∨
    (∃ e, s.fairOutcome cfg event = .error e ∧ (process rt cfg s event).2 = .error e) ∨
    (∃ fairState, s.fairOutcome cfg event = .ok fairState ∧
      ((process rt cfg s event).2 = .error InventoryState.negativeBalances ↔
        cfg.inventory.negativeBalancesAllowed = false ∧
          ∃ b ∈ s.balancesReached cfg event, b.isNegative = true) ∧
      ∀ e, (process rt cfg s event).2 = .error e → e = InventoryState.negativeBalances) := by
  have hpaid : ∀ fairState, (applyFills cfg (s.atFills rt cfg event fairState)
      (GhostAmm.fills (s.fillEventsAt rt cfg event fairState))).2
        = if cfg.inventory.negativeBalancesAllowed = false ∧
            ∃ b ∈ s.balancesReached cfg event, b.isNegative = true
          then .error InventoryState.negativeBalances else .ok () := by
    intro fairState
    rw [applyFills_result, fills_fillEventsAt, successive_fills]
    rfl
  have hcourse := process_course rt cfg s event
  generalize process rt cfg s event = outcome at hcourse ⊢
  cases hcourse with
  | book h => exact Or.inl ⟨_, h, rfl⟩
  | fair h => exact Or.inr (Or.inl ⟨_, h, rfl⟩)
  | @stopped fairState after e hfair happly =>
      right; right
      refine ⟨fairState, hfair, ?_⟩
      have hresult := hpaid fairState
      rw [happly] at hresult
      by_cases hneg : cfg.inventory.negativeBalancesAllowed = false ∧
          ∃ b ∈ s.balancesReached cfg event, b.isNegative = true
      · rw [if_pos hneg] at hresult
        obtain rfl : e = InventoryState.negativeBalances := Except.error.inj hresult
        exact ⟨⟨fun _ => hneg, fun _ => rfl⟩, fun e' h => (Except.error.inj h).symm⟩
      · rw [if_neg hneg] at hresult
        simp at hresult
  | @returned fairState paid hbook hfair happly =>
      right; right
      refine ⟨fairState, hfair, ?_⟩
      have hresult := hpaid fairState
      rw [happly] at hresult
      have hsolvent : ¬ (cfg.inventory.negativeBalancesAllowed = false ∧
          ∃ b ∈ s.balancesReached cfg event, b.isNegative = true) := by
        intro hneg
        rw [if_pos hneg] at hresult
        simp at hresult
      refine ⟨⟨fun h => ?_, fun h => absurd h hsolvent⟩, fun e h => ?_⟩
      · simp at h
      · simp at h

/-- What a call can raise. -/
theorem process_error {e : Py.Error} (h : (process rt cfg s event).2 = .error e) :
    OfMarketData e ∨ e = InventoryState.negativeBalances := by
  rcases process_outcome rt cfg s event with ⟨e', hbook, hout⟩ | ⟨e', hfair, hout⟩ |
    ⟨-, -, -, hout⟩
  · rw [hout] at h
    rw [← Except.error.inj h]
    exact Or.inl (applyEvent_error hbook)
  · rw [hout] at h
    rw [← Except.error.inj h]
    exact Or.inl (fromMarketEvent_error hfair)
  · exact Or.inr (hout e h)

/-- A book event fills nothing. -/
theorem reached_of_book_error {e : Py.Error} (h : (s.book.applyEvent event).2 = .error e) :
    s.reached cfg event = [] := by
  unfold OrderBook.applyEvent at h
  unfold reached ConservativeQueueFillModel.reachedBy
  cases hbody : event.body with
  | trade trade =>
      rw [hbody] at h
      simp at h
  | _ => rfl

/-- **A call raises exactly when an order it reaches cannot be paid for.** -/
theorem process_raises_iff :
    (process rt cfg s event).2 = .error InventoryState.negativeBalances ↔
      cfg.inventory.negativeBalancesAllowed = false ∧ ¬ s.Affordable cfg event ∧
        (s.fairOutcome cfg event).isOk = true := by
  have haffordable : ¬ s.Affordable cfg event ↔
      ∃ b ∈ s.balancesReached cfg event, b.isNegative = true := by
    unfold Affordable
    simp
  rcases process_outcome rt cfg s event with ⟨e, hbook, hout⟩ | ⟨e, hfair, hout⟩ |
    ⟨fairState, hfair, hout, -⟩
  · rw [hout]
    constructor
    · intro h
      exact absurd (Except.error.inj h) (applyEvent_error hbook).ne_negativeBalances
    · rintro ⟨-, hnot, -⟩
      refine absurd (fun b hb => ?_) hnot
      unfold balancesReached at hb
      rw [reached_of_book_error hbook] at hb
      simp [successive] at hb
  · rw [hout]
    constructor
    · intro h
      exact absurd (Except.error.inj h) (fromMarketEvent_error hfair).ne_negativeBalances
    · rintro ⟨-, -, hok⟩
      rw [hfair] at hok
      simp [Except.isOk, Except.toBool] at hok
  · rw [hout, haffordable, hfair]
    exact and_congr_right fun _ => (and_iff_left rfl).symm

/-- The balances of a call that returns. -/
theorem Processed.inventory_out (step : Processed rt cfg s event s' out) :
    s'.inventory = (GhostAmm.fills out).foldl InventoryState.pay s.inventory := by
  rw [step.inventory, step.fills_out, step.fills_trade]

/-- No call that returns leaves a negative balance where there was none. -/
theorem Processed.not_negative (step : Processed rt cfg s event s' out)
    (hcfg : cfg.inventory.negativeBalancesAllowed = false) (h : s.inventory.isNegative = false) :
    s'.inventory.isNegative = false := by
  have hpaid : ∀ b ∈ successive InventoryState.pay s.inventory (GhostAmm.fills step.fillEvents),
      b.isNegative = false := by
    intro b hb
    by_contra hneg
    exact step.solvent ⟨hcfg, b, hb, by simpa using hneg⟩
  rw [step.inventory]
  by_cases hnone : GhostAmm.fills step.fillEvents = []
  · rw [hnone]
    exact h
  · exact hpaid _ (foldl_mem_successive _ _ _ hnone)

end Pipeline

section Solvency

variable {rt : Runtime} {cfg : Config} {steps : List (Machine.Step Pipeline Event (List Event))}
  {s : Pipeline}

/-- **Solvency.**  No balance of a run ever falls below the tolerances, and the next call raises
for it exactly when some balance on the way through the orders it reaches would. -/
theorem solvency (hcfg : cfg.inventory.negativeBalancesAllowed = false)
    (hbase : 0 ≤ cfg.inventory.initialBaseQty) (hquote : 0 ≤ cfg.inventory.initialQuoteQty)
    (h : Machine.Run (Pipeline.process rt cfg) (Pipeline.init cfg) steps s) :
    (∀ r ∈ steps, ∀ b ∈ successive InventoryState.pay r.before.inventory (fills r.output),
      b.isNegative = false) ∧
    s.inventory.isNegative = false ∧
    ∀ event, (Pipeline.process rt cfg s event).2 ≠ .error InventoryState.negativeBalances ↔
      s.Affordable cfg event ∨ (s.fairOutcome cfg event).isOk = false := by
  refine ⟨fun r hr b hb => ?_, ?_, fun event => ?_⟩
  · obtain ⟨step⟩ := Pipeline.process_ok (h.step_of_mem hr)
    rw [step.fills_out, ← step.fills_trade] at hb
    by_contra hneg
    exact step.solvent ⟨hcfg, b, hb, by simpa using hneg⟩
  · refine h.invariant (P := fun s => s.inventory.isNegative = false) ?_ ?_
    · unfold InventoryState.isNegative Pipeline.init
      rw [Bool.or_eq_false_iff, decide_eq_false_iff_not, decide_eq_false_iff_not, not_lt, not_lt]
      constructor <;> linarith
    · intro s event out s' hno hs
      obtain ⟨step⟩ := Pipeline.process_ok hs
      exact step.not_negative hcfg hno
  · rw [Ne, Pipeline.process_raises_iff, and_iff_right hcfg, not_and_or, not_not]
    simp

/-- Bids of the largest size the balances allow, two of which meet one sell. -/
private def overspentConfig : Config :=
  { flatConfig with amm := { flatConfig.amm with
      baseOrderSize := 28 / 1000, maxOrderSize := 14 / 1000 } }

private theorem overspent_run :
    Machine.Run (Pipeline.process seriesRuntime overspentConfig) (Pipeline.init overspentConfig)
      (Machine.stepsOf
        (Pipeline.exec seriesRuntime overspentConfig ((quoteThenSell (28 / 1000)).take 3)))
      (Pipeline.exec seriesRuntime overspentConfig ((quoteThenSell (28 / 1000)).take 3)).1 :=
  Machine.run_exec (by decide +kernel)

/-- The first two bids cost 280000 of the 150000 there are. -/
theorem overspent_by_one_trade :
    ¬ ∀ (rt : Runtime) (cfg : Config), cfg.inventory.negativeBalancesAllowed = false →
      0 ≤ cfg.inventory.initialBaseQty → 0 ≤ cfg.inventory.initialQuoteQty →
      0 ≤ cfg.fillModel.makerFeeBpsFallback →
      cfg.fee.negativeMakerFeePolicy = "clamp_to_zero" →
      ∀ (steps : List (Machine.Step Pipeline Event (List Event))) (s : Pipeline),
        Machine.Run (Pipeline.process rt cfg) (Pipeline.init cfg) steps s →
        ∀ event, (Pipeline.process rt cfg s event).2 ≠ .error InventoryState.negativeBalances := by
  intro h
  refine h _ _ rfl (by decide +kernel) (by decide +kernel) (by decide +kernel) rfl _ _
    overspent_run (sellEvent 1000 10000000 (28 / 1000)) ?_
  decide +kernel

theorem solvency_overspent :
    let result := Pipeline.exec seriesRuntime overspentConfig ((quoteThenSell (28 / 1000)).take 3)
    (∀ r ∈ Machine.stepsOf result,
      ∀ b ∈ successive InventoryState.pay r.before.inventory (fills r.output),
        b.isNegative = false) ∧
    result.1.inventory.isNegative = false ∧
    ∀ event, (Pipeline.process seriesRuntime overspentConfig result.1 event).2
        ≠ .error InventoryState.negativeBalances ↔
      result.1.Affordable overspentConfig event ∨
        (result.1.fairOutcome overspentConfig event).isOk = false :=
  solvency rfl (by decide +kernel) (by decide +kernel) overspent_run

end Solvency

/-! ### The caps -/

/-- The part of a reached order that is bought. -/
def buySize (q : TrackedOrder × ℚ) : ℚ :=
  match q.1.side with
  | .buy => q.2
  | .sell => 0

/-- What the event buys: the reached part of the buy orders. -/
def Pipeline.bought (cfg : Config) (self : Pipeline) (event : Event) : ℚ :=
  ((self.reached cfg event).map buySize).sum

/-- What a fill of a buy order takes from the quote balance. -/
def buyCost (makerFeeBps : ℚ) (q : TrackedOrder × ℚ) : ℚ :=
  q.1.price * q.2 + q.1.price * q.2 * makerFeeBps / 10000

/-- Whatever the event buys, first to last, stays within the quote usage that is left. -/
def Pipeline.QuoteHeadroom (cfg : Config) (self : Pipeline) (event : Event) : Prop :=
  ∀ xs q ys, self.reached cfg event = xs ++ q :: ys → q.1.side = .buy →
    cfg.inventory.initialQuoteQty - self.inventory.quoteQty +
      ((xs ++ [q]).map (buyCost self.fillModel.makerFeeBps)).sum ≤ cfg.risk.maxQuoteUsageJpy

/-- The orders an event reaches are all on one side. -/
theorem Pipeline.reached_one_side (cfg : Config) (self : Pipeline) (event : Event) :
    ∃ side, ∀ q ∈ self.reached cfg event, q.1.side = side := by
  cases hbody : event.body with
  | trade trade =>
      refine ⟨(trade.side.getD .buy).opposite, fun q hq => ?_⟩
      obtain ⟨-, -, -, trade', hbody', helig⟩ :=
        ConservativeQueueFillModel.of_mem_reachedBy (show (q.1, q.2) ∈ _ from hq)
      obtain rfl := Body.trade.inj (hbody.symm.trans hbody')
      unfold ConservativeQueueFillModel.isEligible at helig
      split at helig
      · simp at helig
      · split at helig
        · rename_i hside htaker
          rw [hside, htaker]
          rfl
        · rename_i hside htaker
          rw [hside, htaker]
          rfl
        · simp at helig
  | _ =>
      refine ⟨.buy, fun q hq => ?_⟩
      unfold Pipeline.reached ConservativeQueueFillModel.reachedBy at hq
      rw [hbody] at hq
      simp at hq

section Caps

variable {rt : Runtime} {cfg : Config} {s s' : Pipeline} {event : Event} {out : List Event}

/-- No balance on the way holds more base than everything that is bought. -/
private theorem base_successive_le (makerFeeBps : ℚ) (l : List (TrackedOrder × ℚ)) :
    ∀ inventory : InventoryState, (∀ q ∈ l, 0 < q.2) →
    ∀ b ∈ successive (InventoryState.payOrder makerFeeBps) inventory l,
      b.baseQty ≤ inventory.baseQty + (l.map buySize).sum := by
  induction l with
  | nil => intro _ _ b hb; simp [successive] at hb
  | cons q rest ih =>
      intro inventory hpos b hb
      have hrest : 0 ≤ (rest.map buySize).sum := by
        refine List.sum_nonneg fun x hx => ?_
        obtain ⟨q', hq', rfl⟩ := List.mem_map.mp hx
        unfold buySize
        split
        · exact (hpos q' (List.mem_cons_of_mem _ hq')).le
        · exact le_rfl
      have hfirst : (inventory.payOrder makerFeeBps q).baseQty ≤ inventory.baseQty + buySize q := by
        have := hpos q List.mem_cons_self
        unfold InventoryState.payOrder InventoryState.fill buySize
        cases q.1.side with
        | buy => exact le_rfl
        | sell =>
            show inventory.baseQty - q.2 ≤ inventory.baseQty + 0
            linarith
      rw [List.map_cons, List.sum_cons]
      rcases List.mem_cons.mp hb with rfl | hb
      · linarith
      · have := ih _ (fun q' hq' => hpos q' (List.mem_cons_of_mem _ hq')) b hb
        linarith

/-- The balances after buying. -/
private theorem foldl_buys (makerFeeBps : ℚ) (l : List (TrackedOrder × ℚ)) :
    ∀ inventory : InventoryState, (∀ q ∈ l, q.1.side = .buy) →
    (l.foldl (InventoryState.payOrder makerFeeBps) inventory).baseQty
        = inventory.baseQty + (l.map buySize).sum ∧
      (l.foldl (InventoryState.payOrder makerFeeBps) inventory).quoteQty
        = inventory.quoteQty - (l.map (buyCost makerFeeBps)).sum := by
  induction l with
  | nil => intro inventory _; simp
  | cons q rest ih =>
      intro inventory hbuy
      have hside := hbuy q List.mem_cons_self
      obtain ⟨hbase, hquote⟩ := ih (inventory.payOrder makerFeeBps q)
        fun q' hq' => hbuy q' (List.mem_cons_of_mem _ hq')
      have hpay : inventory.payOrder makerFeeBps q
          = ⟨inventory.baseQty + buySize q, inventory.quoteQty - buyCost makerFeeBps q⟩ := by
        unfold InventoryState.payOrder InventoryState.fill buySize buyCost
        rw [hside]
      rw [List.foldl_cons, hbase, hquote, hpay, List.map_cons, List.map_cons, List.sum_cons,
        List.sum_cons]
      constructor <;> ring

/-- **A call keeps the base under its cap exactly when what it buys fits under it.** -/
private theorem base_cap_step (step : Pipeline.Processed rt cfg s event s' out) {cap : ℚ}
    (h : s.inventory.baseQty ≤ cap) :
    (∀ b ∈ successive InventoryState.pay s.inventory (fills out), b.baseQty ≤ cap) ↔
      s.inventory.baseQty + s.bought cfg event ≤ cap := by
  rw [step.successive_out]
  have hpos : ∀ q ∈ s.reached cfg event, 0 < q.2 := fun q hq =>
    (ConservativeQueueFillModel.of_mem_reachedBy (show (q.1, q.2) ∈ _ from hq)).2.1
  constructor
  · intro hcap
    obtain ⟨side, hside⟩ := s.reached_one_side cfg event
    by_cases hnone : s.reached cfg event = []
    · unfold Pipeline.bought
      rw [hnone]
      simpa using h
    · cases side with
      | buy =>
          have hlast := hcap _ (foldl_mem_successive _ _ _ hnone)
          rw [(foldl_buys _ _ _ hside).1] at hlast
          exact hlast
      | sell =>
          have hzero : s.bought cfg event = 0 := by
            unfold Pipeline.bought
            refine List.sum_eq_zero fun x hx => ?_
            obtain ⟨q, hq, rfl⟩ := List.mem_map.mp hx
            unfold buySize
            rw [hside q hq]
          rw [hzero, add_zero]
          exact h
  · intro hcap b hb
    exact (base_successive_le _ _ _ hpos b hb).trans hcap

/-- **A call keeps the quote usage under its cap exactly when what it buys does, first to last.** -/
private theorem quote_cap_step (step : Pipeline.Processed rt cfg s event s' out) :
    (∀ before fill after, fills out = before ++ fill :: after → fill.side = .buy →
      cfg.inventory.initialQuoteQty -
        ((before ++ [fill]).foldl InventoryState.pay s.inventory).quoteQty
          ≤ cfg.risk.maxQuoteUsageJpy) ↔
      s.QuoteHeadroom cfg event := by
  obtain ⟨side, hside⟩ := s.reached_one_side cfg event
  have hbuys : ∀ xs q ys, s.reached cfg event = xs ++ q :: ys → q.1.side = .buy →
      ∀ q' ∈ xs ++ [q], q'.1.side = .buy := by
    intro xs q ys hsplit hbuy q' hq'
    have hmem : ∀ q'' ∈ xs ++ [q], q'' ∈ s.reached cfg event := by
      intro q'' hq''
      rw [hsplit]
      rcases List.mem_append.mp hq'' with hq'' | hq''
      · exact List.mem_append_left _ hq''
      · rw [List.mem_singleton.mp hq'']
        simp
    rw [hside q' (hmem q' hq'), ← hside q (hmem q (by simp))]
    exact hbuy
  have hquote : ∀ xs q ys, s.reached cfg event = xs ++ q :: ys → q.1.side = .buy →
      ((xs.map (fun q => fillPayload s.fillModel.makerFeeBps event step.fairState q.1 q.2) ++
          [fillPayload s.fillModel.makerFeeBps event step.fairState q.1 q.2]).foldl
            InventoryState.pay s.inventory).quoteQty
        = s.inventory.quoteQty - ((xs ++ [q]).map (buyCost s.fillModel.makerFeeBps)).sum := by
    intro xs q ys hsplit hbuy
    have hpaid := @Pipeline.foldl_fills event s.fillModel.makerFeeBps s.inventory step.fairState
      (xs ++ [q])
    rw [List.map_append] at hpaid
    exact (congrArg InventoryState.quoteQty hpaid).trans
      (foldl_buys _ _ _ (hbuys xs q ys hsplit hbuy)).2
  rw [step.fills_out]
  constructor
  · intro hcap xs q ys hsplit hbuy
    have hfill := hcap _ _ _ (by rw [hsplit, List.map_append, List.map_cons]) hbuy
    rw [hquote xs q ys hsplit hbuy] at hfill
    linarith
  · intro hcap before fill after hsplit hbuy
    obtain ⟨xs, rest, hreached, rfl, hrest⟩ := List.map_eq_append_iff.mp hsplit
    obtain ⟨q, ys, rfl, rfl, rfl⟩ := List.map_eq_cons_iff.mp hrest
    have hroom := hcap xs q ys hreached hbuy
    rw [hquote xs q ys hreached hbuy]
    linarith

/-- **Inventory caps.**  Throughout a run that starts under the base cap, the base stays under it
after every fill exactly when what each event buys fits under it.  The quote usage stays under
its cap after every buy fill exactly when what each event buys, first to last, fits under that. -/
theorem inventory_caps {steps : List (Machine.Step Pipeline Event (List Event))}
    (h : Machine.Run (Pipeline.process rt cfg) (Pipeline.init cfg) steps s) :
    (cfg.inventory.initialBaseQty ≤ cfg.risk.maxBaseQty →
      ((∀ r ∈ steps, ∀ b ∈ successive InventoryState.pay r.before.inventory (fills r.output),
          b.baseQty ≤ cfg.risk.maxBaseQty) ↔
        ∀ r ∈ steps, r.before.inventory.baseQty + r.before.bought cfg r.input
          ≤ cfg.risk.maxBaseQty)) ∧
    ((∀ r ∈ steps, ∀ before fill after, fills r.output = before ++ fill :: after →
        fill.side = .buy → cfg.inventory.initialQuoteQty -
          ((before ++ [fill]).foldl InventoryState.pay r.before.inventory).quoteQty
            ≤ cfg.risk.maxQuoteUsageJpy) ↔
      ∀ r ∈ steps, r.before.QuoteHeadroom cfg r.input) := by
  constructor
  · intro hbase
    refine h.forall_iff (P := fun s => s.inventory.baseQty ≤ cfg.risk.maxBaseQty)
      (Q := fun s event => s.inventory.baseQty + s.bought cfg event ≤ cfg.risk.maxBaseQty)
      (R := fun r => ∀ b ∈ successive InventoryState.pay r.before.inventory (fills r.output),
        b.baseQty ≤ cfg.risk.maxBaseQty) hbase ?_ ?_
    · intro _ s event out s' _ hs hcap
      obtain ⟨step⟩ := Pipeline.process_ok hs
      exact base_cap_step step hcap
    · intro s event out s' hs hcap hall
      obtain ⟨step⟩ := Pipeline.process_ok hs
      show s'.inventory.baseQty ≤ _
      rw [step.inventory_out]
      by_cases hnone : fills out = []
      · rw [hnone]
        exact hcap
      · exact hall _ (foldl_mem_successive _ _ _ hnone)
  · refine forall₂_congr fun r hr => ?_
    obtain ⟨step⟩ := Pipeline.process_ok (h.step_of_mem hr)
    exact quote_cap_step step

end Caps

/-- Both caps leave room for one order of the largest size, and six smaller ones rest. -/
private def cappedConfig : Config :=
  { flatConfig with risk := { maxBaseQty := 125 / 10000, maxQuoteUsageJpy := 25000 } }

private theorem capped_run :
    Machine.Run (Pipeline.process seriesRuntime cappedConfig) (Pipeline.init cappedConfig)
      (Machine.stepsOf (Pipeline.exec seriesRuntime cappedConfig (quoteThenSell (6 / 1000))))
      (Pipeline.exec seriesRuntime cappedConfig (quoteThenSell (6 / 1000))).1 :=
  Machine.run_exec (by decide +kernel)

/-- One sell fills all six bids, and both caps are exceeded. -/
theorem caps_exceeded_by_one_trade :
    (¬ ∀ (rt : Runtime) (cfg : Config), 0 < cfg.risk.maxBaseQty →
      cfg.inventory.initialBaseQty ≤ cfg.risk.maxBaseQty →
      ∀ (steps : List (Machine.Step Pipeline Event (List Event))) (s : Pipeline),
        Machine.Run (Pipeline.process rt cfg) (Pipeline.init cfg) steps s →
        ∀ r ∈ steps, ∀ b ∈ successive InventoryState.pay r.before.inventory (fills r.output),
          b.baseQty ≤ cfg.risk.maxBaseQty) ∧
    ¬ ∀ (rt : Runtime) (cfg : Config), 0 < cfg.risk.maxQuoteUsageJpy →
      ∀ (steps : List (Machine.Step Pipeline Event (List Event))) (s : Pipeline),
        Machine.Run (Pipeline.process rt cfg) (Pipeline.init cfg) steps s →
        ∀ r ∈ steps, ∀ before fill after, fills r.output = before ++ fill :: after →
          fill.side = .buy → cfg.inventory.initialQuoteQty -
            ((before ++ [fill]).foldl InventoryState.pay r.before.inventory).quoteQty
              ≤ cfg.risk.maxQuoteUsageJpy := by
  constructor
  · intro h
    have hall := h _ _ (by decide +kernel) (by decide +kernel) _ _ capped_run
    revert hall
    decide +kernel
  · intro h
    have hall := h _ _ (by decide +kernel) _ _ capped_run
    -- after the last fill of each call
    have hlast : ∀ r ∈ Machine.stepsOf
        (Pipeline.exec seriesRuntime cappedConfig (quoteThenSell (6 / 1000))),
        ∀ fill ∈ (fills r.output).getLast?, fill.side = .buy →
          cappedConfig.inventory.initialQuoteQty -
            ((fills r.output).foldl InventoryState.pay r.before.inventory).quoteQty
              ≤ cappedConfig.risk.maxQuoteUsageJpy := by
      intro r hr fill hfill hbuy
      have hsplit := List.dropLast_append_getLast? fill hfill
      have hcap := hall r hr (fills r.output).dropLast fill [] hsplit.symm hbuy
      rw [hsplit] at hcap
      exact hcap
    revert hlast
    decide +kernel

theorem inventory_caps_exceeded :
    let steps := Machine.stepsOf
      (Pipeline.exec seriesRuntime cappedConfig (quoteThenSell (6 / 1000)))
    (cappedConfig.inventory.initialBaseQty ≤ cappedConfig.risk.maxBaseQty →
      ((∀ r ∈ steps, ∀ b ∈ successive InventoryState.pay r.before.inventory (fills r.output),
          b.baseQty ≤ cappedConfig.risk.maxBaseQty) ↔
        ∀ r ∈ steps, r.before.inventory.baseQty + r.before.bought cappedConfig r.input
          ≤ cappedConfig.risk.maxBaseQty)) ∧
    ((∀ r ∈ steps, ∀ before fill after, fills r.output = before ++ fill :: after →
        fill.side = .buy → cappedConfig.inventory.initialQuoteQty -
          ((before ++ [fill]).foldl InventoryState.pay r.before.inventory).quoteQty
            ≤ cappedConfig.risk.maxQuoteUsageJpy) ↔
      ∀ r ∈ steps, r.before.QuoteHeadroom cappedConfig r.input) :=
  inventory_caps capped_run

end GhostAmm
