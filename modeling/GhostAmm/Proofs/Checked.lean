/-
The checks change nothing.

Most quotients of a call are guarded where they are taken, and there the function that raises on
a divisor of zero is the function that does not.  Two are not: the sigmoid of the shock has an
exponential in its divisor, and the deviation of the last trade is relative to the fair price.
With an exponential that is not negative and a fair price that is positive the whole call is the
one without checks (`process_eq`).
-/
import GhostAmm.Model.Checked
import GhostAmm.Proofs.FairPrice
import GhostAmm.Proofs.Step

namespace GhostAmm

namespace Checked

/-! ### The order book and the fair price -/

theorem spreadBps_eq (book : OrderBook) : spreadBps book = .ok book.spreadBps := by
  unfold spreadBps OrderBook.spreadBps
  cases book.bestBid with
  | none => rfl
  | some bid =>
      cases book.bestAsk with
      | none => rfl
      | some ask =>
          dsimp only
          split_ifs with hmid
          · rfl
          · rw [Py.div_of_pos (not_le.mp hmid)]
            rfl

theorem sourceFromTicker_eq (payload : TickerPayload) (ts : ℚ) :
    sourceFromTicker payload ts = .ok (GhostAmm.sourceFromTicker payload ts) := by
  unfold sourceFromTicker GhostAmm.sourceFromTicker
  cases payload.buy with
  | none => rfl
  | some bid =>
      cases payload.sell with
      | none => rfl
      | some ask =>
          dsimp only
          split_ifs with hprices
          · have hmid : 0 < (bid + ask) / 2 := half_pos (add_pos hprices.1 hprices.2.1)
            rw [Py.div_of_pos hmid]
            rfl
          · rfl

theorem sourceFromOrderbook_eq (cfg : MarketConfig) (book : OrderBook) (nowMs : ℚ) :
    sourceFromOrderbook cfg book nowMs = GhostAmm.sourceFromOrderbook cfg book nowMs := by
  unfold sourceFromOrderbook GhostAmm.sourceFromOrderbook
  cases book.bestBid with
  | none => rfl
  | some bid =>
      cases book.bestAsk with
      | none => rfl
      | some ask =>
          refine ite_congr rfl (fun _ => rfl) fun _ => ite_congr rfl (fun _ => rfl) fun _ =>
            ite_congr rfl (fun _ => rfl) fun _ => ?_
          by_cases hmid : (ask + bid) / 2 = 0
          · rw [if_pos hmid, hmid]
            rfl
          · rw [if_neg hmid, Py.div_of_ne hmid]
            exact ite_congr rfl (fun _ => rfl) fun _ => rfl

theorem deviationBps_eq (value reference : ℚ) :
    deviationBps value reference = .ok (GhostAmm.deviationBps value reference) := by
  unfold deviationBps GhostAmm.deviationBps
  split_ifs with hreference
  · rfl
  · rw [Py.div_of_pos (not_le.mp hreference)]
    rfl

theorem maxDeviation_eq (sources : List FairPriceSource) (fair : ℚ) :
    maxDeviation sources fair = .ok (GhostAmm.maxDeviation sources fair) := by
  have hmap := @Py.mapM_ok Py.Error _ _ (fun s : FairPriceSource => deviationBps s.fair fair)
    (fun s => GhostAmm.deviationBps s.fair fair) (fun s => deviationBps_eq s.fair fair) sources
  unfold maxDeviation
  rw [hmap]
  rfl

theorem medianOptional_eq (values : List (Option ℚ)) :
    medianOptional values = .ok (GhostAmm.medianOptional values) := by
  unfold medianOptional GhostAmm.medianOptional
  dsimp only
  cases hfiltered : values.filterMap id with
  | nil => rfl
  | cons v rest =>
      obtain ⟨m, hm⟩ := Py.exists_median (List.cons_ne_nil v rest)
      rw [hm]
      rfl

/-- The sources that are near the reference. -/
theorem filtered_eq (cfg : FairConfig) (reference : ℚ) (fresh : List FairPriceSource) :
    (fresh.filterM fun s => do
        let deviation ← deviationBps s.fair reference
        return decide (deviation ≤ cfg.maxSourceDeviationBps))
      = .ok (keptSources cfg reference fresh) := by
  refine Py.filterM_ok (fun s => ?_) fresh
  rw [deviationBps_eq]
  rfl

theorem fromSources_eq (cfg : FairConfig) (sources : List FairPriceSource) (nowMs : ℚ) :
    fromSources cfg sources nowMs = GhostAmm.fromSources cfg sources nowMs := by
  unfold fromSources GhostAmm.fromSources
  dsimp only
  refine ite_congr rfl (fun _ => rfl) fun _ => ?_
  cases hreference : Py.median ((sources.filter (FairPriceSource.isFresh cfg nowMs)).map
      FairPriceSource.fair) with
  | error e => rfl
  | ok reference =>
      show Except.bind (List.filterM _ _) _ = _
      rw [filtered_eq]
      refine ite_congr rfl (fun _ => ?_) fun _ => ?_
      · rw [medianOptional_eq, maxDeviation_eq]
        rfl
      · generalize hfairs : (keptSources cfg reference _).map FairPriceSource.fair = fairs
        show Except.bind (cfg.average fairs) _ = _
        have haverage : (if cfg.useMedian then Py.median fairs else Py.mean fairs)
          = cfg.average fairs := rfl
        unfold keptSources at hfairs
        rw [hfairs, haverage]
        cases cfg.average fairs with
        | error e => rfl
        | ok fair =>
            show Except.bind (medianOptional _) _ = _
            rw [medianOptional_eq]
            show Except.bind (maxDeviation _ _) _ = _
            rw [maxDeviation_eq]
            rfl

theorem sourceOfEvent_eq (event : Event) :
    sourceOfEvent event = .ok (GhostAmm.sourceOfEvent event) := by
  unfold sourceOfEvent GhostAmm.sourceOfEvent
  cases event.body with
  | bitbankTicker payload => exact sourceFromTicker_eq payload event.tsExchange
  | _ => rfl

theorem fromMarketEvent_eq (cfg : Config) (sources : Sources) (book : OrderBook) (event : Event)
    (nowMs : ℚ) : fromMarketEvent cfg sources book event nowMs
      = GhostAmm.fromMarketEvent cfg sources book event nowMs := by
  unfold fromMarketEvent GhostAmm.fromMarketEvent
  rw [sourceOfEvent_eq, sourceFromOrderbook_eq]
  simp only [fromSources_eq]
  rfl

/-! ### The shock and the inventory -/

/-- The activation where no divisor is zero. -/
def plainActivation (rt : Runtime) (cfg : ShockConfig) (lastDirection : ShockDirection)
    (forceRatio : ℚ) (age : Option ℚ) : ℚ × ShockDirection × String :=
  match age with
  | none => (0, .neutral, "no_recent_shock")
  | some age =>
      if age < cfg.minimumWaitAfterShockMs then (0, lastDirection, "waiting_after_shock")
      else
        let raw := 1 / (1 + rt.exp (-cfg.temperature * (forceRatio - cfg.threshold)))
        let decay := rt.exp (-age / max cfg.activationDecayMs 1)
        (max 0 (min 1 (raw * decay)), lastDirection, "aftershock_rebuild")

/-- The divisor of the sigmoid is one more than an exponential. -/
theorem activation_eq {rt : Runtime} (hexp : ∀ x, 0 ≤ rt.exp x) (cfg : ShockConfig)
    (lastDirection : ShockDirection) (forceRatio : ℚ) (age : Option ℚ) :
    activation rt cfg lastDirection forceRatio age
      = .ok (plainActivation rt cfg lastDirection forceRatio age) := by
  have hsigmoid : ∀ x, 0 < 1 + rt.exp x := fun x => add_pos_of_pos_of_nonneg one_pos (hexp x)
  have hdecay : 0 < max cfg.activationDecayMs 1 := lt_max_of_lt_right one_pos
  unfold activation plainActivation
  cases age with
  | none => rfl
  | some age =>
      dsimp only
      split_ifs
      · rfl
      · rw [Py.div_of_pos (hsigmoid _), Py.div_of_pos hdecay]
        rfl

theorem update_eq {rt : Runtime} (hexp : ∀ x, 0 ≤ rt.exp x) (cfg : ShockConfig)
    (self : ShockActivator) (event : Event) (book : OrderBook) (fairState : FairPriceState) :
    update rt cfg self event book fairState
      = ((self.update rt cfg event book fairState).1,
          .ok (self.update rt cfg event book fairState).2) := by
  have hdepth : ∀ depth : ℚ, 0 < max depth 1 := fun depth => lt_max_of_lt_right one_pos
  unfold update
  simp only [Py.div_of_pos (hdepth _), activation_eq hexp]
  rfl

theorem snapshot_eq (cfg : InventoryConfig) (self : InventoryState) (fair : Option ℚ) :
    snapshot cfg self fair = .ok (self.snapshot cfg fair) := by
  unfold snapshot InventoryState.snapshot
  cases fair with
  | none => rfl
  | some fair =>
      dsimp only
      split_ifs with hfair hequity
      · rfl
      · rfl
      · rw [Py.div_of_pos (not_le.mp hequity)]
        rfl

theorem skew_eq (cfg : InventoryConfig) (self : InventoryState) (fair : Option ℚ) :
    skew cfg self fair = .ok (self.skew cfg fair) := by
  unfold skew
  rw [snapshot_eq]
  rfl

/-! ### The risk kernel -/

theorem lastTradeDeviationTooLarge_eq (cfg : RiskConfig) (self : RiskKernel) (nowMs : ℚ)
    {fair : ℚ} (hfair : 0 < fair) : lastTradeDeviationTooLarge cfg self nowMs fair
      = .ok (self.lastTradeDeviationTooLarge cfg nowMs fair) := by
  unfold lastTradeDeviationTooLarge RiskKernel.lastTradeDeviationTooLarge
  split_ifs
  · rfl
  · cases self.lastTrade with
    | none => rfl
    | some trade =>
        dsimp only
        split_ifs
        · rfl
        · rw [Py.div_of_pos hfair]
          rfl

theorem driftCheck_eq (self : RiskKernel) (nowMs fair : ℚ) (blocked : List Side)
    (check : ℚ × ℚ × ℚ) : driftCheck self nowMs fair blocked check
      = .ok (self.driftCheck nowMs fair blocked check) := by
  unfold driftCheck RiskKernel.driftCheck
  dsimp only
  cases self.fairAtOrBefore (nowMs - check.1) with
  | none => rfl
  | some prior =>
      dsimp only
      by_cases hprior : prior ≤ 0
      · rw [if_pos hprior, if_pos hprior]
      · rw [if_neg hprior, if_neg hprior, Py.div_of_pos (not_le.mp hprior)]
        rfl

theorem fairDriftBlockedSides_eq (cfg : RiskConfig) (self : RiskKernel) (nowMs fair : ℚ) :
    fairDriftBlockedSides cfg self nowMs fair
      = .ok (self.fairDriftBlockedSides cfg nowMs fair) :=
  Py.foldlM_ok (driftCheck_eq self nowMs fair) _ _

theorem globalRefusal_eq (cfg : Config) (self : RiskKernel) (input : RiskInput) {fair : ℚ}
    (hfair : 0 < fair) :
    globalRefusal cfg self input fair = .ok (self.globalRefusal cfg input fair) := by
  unfold globalRefusal RiskKernel.globalRefusal
  rw [spreadBps_eq]
  cases input.book.spreadBps with
  | none => rfl
  | some spread =>
      refine Py.ite_ok (fun _ => rfl) fun _ => Py.ite_ok (fun _ => rfl) fun _ =>
        Py.ite_ok (fun _ => rfl) fun _ => ?_
      rw [snapshot_eq]
      dsimp only [Bind.bind, Except.bind]
      cases (input.inventory.snapshot cfg.inventory input.fairState.fair).skew with
      | none => rfl
      | some skew =>
          refine Py.ite_ok (fun _ => rfl) fun _ => Py.ite_ok (fun _ => rfl) fun _ =>
            Py.ite_ok (fun _ => rfl) fun _ => Py.ite_ok (fun _ => rfl) fun _ =>
              Py.ite_ok (fun _ => rfl) fun _ => ?_
          rw [lastTradeDeviationTooLarge_eq cfg.risk self input.nowMs hfair]
          exact Py.ite_ok (fun _ => rfl) fun _ => rfl

theorem sideChecks_eq (cfg : Config) (self : RiskKernel) (input : RiskInput) (fair : ℚ) :
    sideChecks cfg self input fair = .ok (self.sideChecks cfg input fair) := by
  unfold sideChecks
  rw [fairDriftBlockedSides_eq]
  rfl

theorem evaluate_eq (cfg : Config) (self : RiskKernel) (input : RiskInput)
    (hfair : ∀ fair, input.fairState.fair = some fair → 0 < fair) :
    evaluate cfg self input = .ok (self.evaluate cfg input) := by
  unfold evaluate RiskKernel.evaluate
  cases hvalid : input.fairState.isValid with
  | false => rfl
  | true =>
      cases hprice : input.fairState.fair with
      | none => rfl
      | some fair =>
          dsimp only
          rw [globalRefusal_eq cfg self input (hfair fair hprice)]
          cases self.globalRefusal cfg input fair with
          | some decision => rfl
          | none => exact sideChecks_eq cfg self input fair

/-! ### The quotes -/

theorem floorToStep_eq (value step : ℚ) :
    floorToStep value step = .ok (GhostAmm.floorToStep value step) := by
  unfold floorToStep GhostAmm.floorToStep
  split_ifs with hstep
  · rfl
  · rw [Py.div_of_pos (not_le.mp hstep)]
    rfl

theorem ceilToStep_eq (value step : ℚ) :
    ceilToStep value step = .ok (GhostAmm.ceilToStep value step) := by
  unfold ceilToStep GhostAmm.ceilToStep
  split_ifs with hstep
  · rfl
  · rw [Py.div_of_pos (not_le.mp hstep)]
    rfl

theorem floorQuoteSize_eq (value minOrderSize maxOrderSize lotSize : ℚ) :
    floorQuoteSize value minOrderSize maxOrderSize lotSize
      = .ok (GhostAmm.floorQuoteSize value minOrderSize maxOrderSize lotSize) := by
  unfold floorQuoteSize GhostAmm.floorQuoteSize
  split_ifs
  · rfl
  · rw [floorToStep_eq]
    rfl

theorem generateLevel_eq (rt : Runtime) (self : QuoteSurface) (request : QuoteSurface.Request)
    (level : ℕ) :
    generateLevel rt self request level = .ok (self.generateLevel rt request level) := by
  unfold generateLevel
  simp only [floorToStep_eq, ceilToStep_eq, floorQuoteSize_eq]
  rfl

theorem generate_eq (rt : Runtime) (self : QuoteSurface) (request : QuoteSurface.Request) :
    generate rt self request = .ok (self.generate rt request) := by
  unfold generate QuoteSurface.generate
  split_ifs
  · rfl
  · rw [Py.mapM_ok (generateLevel_eq rt self request)]
    rfl

/-! ### The projector -/

theorem shouldKeepExisting_eq (cfg : ExecutionConfig) (order : ActiveVirtualOrder)
    (quote : Quote) (nowMs : ℚ) : shouldKeepExisting cfg order quote nowMs
      = .ok (OrderProjector.shouldKeepExisting cfg order quote nowMs) := by
  have hfloor : ∀ x : ℚ, 0 < max x (1 / 10 ^ 12) := fun x => lt_max_of_lt_right (by norm_num)
  unfold shouldKeepExisting OrderProjector.shouldKeepExisting
  split_ifs
  · rfl
  · rfl
  · rfl
  · rw [Py.div_of_pos (hfloor order.price), Py.div_of_pos (hfloor order.size)]
    rfl

theorem keepOrPlace_eq (rt : Runtime) (cfg : ExecutionConfig) (market : Market) (nowMs : ℚ)
    (acc : OrderProjector × List Event) (quote : Quote) :
    keepOrPlace rt cfg market nowMs acc quote
      = .ok (OrderProjector.keepOrPlace rt cfg market nowMs acc quote) := by
  unfold keepOrPlace OrderProjector.keepOrPlace
  dsimp only
  cases acc.1.active.get? quote.key with
  | none => rfl
  | some existing =>
      dsimp only
      rw [shouldKeepExisting_eq]
      cases OrderProjector.shouldKeepExisting cfg existing quote nowMs <;> rfl

theorem placeDesired_eq (rt : Runtime) (cfg : ExecutionConfig) (market : Market) (nowMs : ℚ) :
    ∀ (desired : List Quote) (acc : OrderProjector × List Event),
      placeDesired rt cfg market nowMs acc desired
        = ((desired.foldl (OrderProjector.keepOrPlace rt cfg market nowMs) acc).1,
            .ok (desired.foldl (OrderProjector.keepOrPlace rt cfg market nowMs) acc).2) := by
  intro desired
  induction desired with
  | nil => intro acc; rfl
  | cons quote rest ih =>
      intro acc
      rw [placeDesired, keepOrPlace_eq]
      exact ih _

theorem sync_eq (rt : Runtime) (cfg : ExecutionConfig) (market : Market) (self : OrderProjector)
    (quotes : List Quote) (book : OrderBook) (risk : RiskDecision) (nowMs : ℚ) :
    sync rt cfg market self quotes book risk nowMs
      = ((self.sync rt cfg market quotes book risk nowMs).1,
          .ok (self.sync rt cfg market quotes book risk nowMs).2) := by
  unfold sync OrderProjector.sync
  split_ifs
  · rfl
  · exact placeDesired_eq rt cfg market nowMs _ _

/-! ### The call -/

theorem riskStateEvent_eq (rt : Runtime) (cfg : Config) (self : Pipeline) (event : Event)
    (fairState : FairPriceState) (shockState : ShockState) (decision : RiskDecision) :
    riskStateEvent rt cfg self event fairState shockState decision
      = .ok (self.riskStateEvent rt cfg event fairState shockState decision) := by
  unfold riskStateEvent
  rw [spreadBps_eq, skew_eq]
  rfl

theorem quotes_eq (rt : Runtime) (cfg : Config) (self : Pipeline) (fairState : FairPriceState)
    (shockState : ShockState) : quotes rt cfg self fairState shockState
      = .ok (self.quotes rt cfg fairState shockState) := by
  unfold quotes Pipeline.quotes
  cases fairState.isValid with
  | false => rfl
  | true =>
      cases fairState.fair with
      | none => rfl
      | some fair =>
          dsimp only
          rw [skew_eq]
          exact generate_eq rt _ _

section Call

variable {rt : Runtime} {cfg : Config}

theorem requote_eq (self : Pipeline) (event : Event) {fairState : FairPriceState}
    (hfair : ∀ fair, fairState.fair = some fair → 0 < fair) (shockState : ShockState) :
    requote rt cfg self event fairState shockState
      = ((self.requote rt cfg event fairState shockState).1,
          .ok (self.requote rt cfg event fairState shockState).2) := by
  unfold requote
  rw [evaluate_eq _ _ _ hfair]
  dsimp only
  rw [riskStateEvent_eq]
  dsimp only
  rw [quotes_eq]
  dsimp only
  rw [sync_eq]
  rfl

/-- **A call on a positive fair price does what it does without the checks.** -/
theorem process_eq (hexp : ∀ x, 0 ≤ rt.exp x) {self : Pipeline} {event : Event}
    (hfair : ∀ fairState, self.fairOutcome cfg event = .ok fairState →
      ∀ fair, fairState.fair = some fair → 0 < fair) :
    process rt cfg self event = self.process rt cfg event := by
  have houtcome : (GhostAmm.fromMarketEvent cfg (self.onMarket cfg event).sources
      (self.onMarket cfg event).book event event.tsExchange).2 = self.fairOutcome cfg event := by
    rw [Pipeline.onMarket_eq]
    rfl
  unfold process Pipeline.process
  rw [Pipeline.ingestMarket_onMarket]
  cases (self.book.applyEvent event).2 with
  | error e => rfl
  | ok _ =>
      dsimp only
      rw [fromMarketEvent_eq]
      generalize GhostAmm.fromMarketEvent cfg (self.onMarket cfg event).sources
        (self.onMarket cfg event).book event event.tsExchange = fair at houtcome ⊢
      obtain ⟨sources, result⟩ := fair
      cases result with
      | error e => rfl
      | ok fairState =>
          dsimp only
          rw [update_eq hexp]
          dsimp only
          generalize Pipeline.applyFills cfg _ _ = applied
          obtain ⟨paid, result⟩ := applied
          cases result with
          | error e => rfl
          | ok _ =>
              dsimp only
              rw [requote_eq paid event (hfair fairState houtcome.symm)]

end Call

end Checked

end GhostAmm
