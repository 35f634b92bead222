/-
The reports.

The pipeline keeps its balances itself, and `summarize` works them out again from the
fills of a log that was rewritten in between.  Both fold the same payment over the
same fills: the tally's base and cash are a balance that `add` pays from, and the
enrichment writes into a fill nothing a payment reads.

The price the balances are marked at is another matter.  `run_files` hands over what
the last event left, nothing if it found no fair price, while `report` hands over the
last price of the log, however old.  They are the same price exactly when the last
event found one or there is none to find.
-/
import GhostAmm.Proofs.Balances
import GhostAmm.Model.Replay

namespace GhostAmm

/-! ### The tally keeps the balances -/

namespace FillTally

/-- The balances of a tally. -/
def balances (self : FillTally) : InventoryState := ⟨self.base, self.cash⟩

theorem balances_addShock (self : FillTally) (fill : FillPayload) (id : String) :
    (self.addShock fill id).balances = self.balances := by
  unfold addShock
  cases spreadValue fill with
  | none => cases fill.fairAfter5s <;> rfl
  | some value => cases fill.fairAfter5s <;> rfl

theorem balances_settle (self : FillTally) (fill : FillPayload) :
    (self.settle fill).balances = self.balances.pay fill := by
  unfold settle InventoryState.pay InventoryState.fill
  cases fill.side <;> rfl

/-- One turn of the loop pays for the fill. -/
theorem balances_add (lastFair : Option ℚ) (self : FillTally) (fill : FillPayload) :
    (add lastFair self fill).balances = self.balances.pay fill := by
  unfold add
  cases shockId fill with
  | none => exact balances_settle _ fill
  | some id =>
      rw [← balances_addShock self fill id]
      exact balances_settle _ fill

/-- The loop pays for all of them. -/
theorem balances_ofFills (initialBase initialQuote : ℚ) (lastFair : Option ℚ)
    (fills : List FillPayload) :
    (ofFills initialBase initialQuote lastFair fills).balances
      = fills.foldl InventoryState.pay ⟨initialBase, initialQuote⟩ :=
  (List.foldl_hom balances fun tally fill => (balances_add lastFair tally fill).symm).symm

end FillTally

/-- The equity of a summary is that of the balances after the fills. -/
theorem endEquity_summarize (events : List Event) (initialBase initialQuote : ℚ)
    (lastFair : Option ℚ) :
    let balances := (fills events).foldl InventoryState.pay ⟨initialBase, initialQuote⟩
    (summarize events initialBase initialQuote lastFair).endEquity
      = balances.baseQty * endFair events lastFair + balances.quoteQty := by
  rw [← FillTally.balances_ofFills initialBase initialQuote lastFair]
  rfl

/-! ### The enrichment -/

/-- Nothing a payment reads is rewritten. -/
theorem foldl_pay_enrich (points : List (ℚ × ℚ)) : ∀ (events : List Event)
    (inventory : InventoryState),
    (fills (events.map (enrichEvent points))).foldl InventoryState.pay inventory
      = (fills events).foldl InventoryState.pay inventory := by
  intro events
  induction events with
  | nil => intro inventory; rfl
  | cons event rest ih =>
      intro inventory
      unfold fills at ih ⊢
      have hfill : (enrichEvent points event).fill?.toList.foldl InventoryState.pay inventory
          = event.fill?.toList.foldl InventoryState.pay inventory := by
        unfold enrichEvent Event.fill?
        cases hbody : event.body with
        | virtualFill payload => rfl
        | _ => simp only [hbody]
      have hcons : ∀ (e : Event) (l : List Event), (e :: l).filterMap Event.fill?
          = e.fill?.toList ++ l.filterMap Event.fill? := by
        intro e l
        cases he : e.fill? <;> simp [he]
      rw [List.map_cons, hcons, hcons, List.foldl_append, List.foldl_append, hfill, ih]

theorem foldl_pay_enrichFairAfter (events : List Event) (inventory : InventoryState) :
    (fills (enrichFairAfter events)).foldl InventoryState.pay inventory
      = (fills events).foldl InventoryState.pay inventory := by
  unfold enrichFairAfter
  by_cases hnone : (fairPoints events).isEmpty = true
  · simp only [if_pos hnone]
  · simp only [if_neg hnone]
    exact foldl_pay_enrich _ events inventory

/-- Prices are not rewritten. -/
theorem markFair?_enrichEvent (points : List (ℚ × ℚ)) (event : Event) :
    (enrichEvent points event).markFair? = event.markFair? := by
  unfold enrichEvent Event.markFair?
  cases hbody : event.body <;> simp [hbody]

theorem lastFair_enrichFairAfter (events : List Event) :
    lastFair (enrichFairAfter events) = lastFair events := by
  unfold enrichFairAfter lastFair
  by_cases hnone : (fairPoints events).isEmpty = true
  · simp only [if_pos hnone]
  · simp only [if_neg hnone]
    rw [← List.map_reverse, List.findSome?_map]
    congr 1
    funext event
    exact markFair?_enrichEvent _ event

/-! ### The inventory and the log -/

section Runs

variable {rt : Runtime} {cfg : Config} {steps : List (Machine.Step Pipeline Event (List Event))}
  {s : Pipeline}

/-- The balances are those the emitted fills lead to. -/
theorem inventory_run (h : Machine.Run (Pipeline.process rt cfg) (Pipeline.init cfg) steps s) :
    s.inventory = (fills (emittedOf steps)).foldl InventoryState.pay
      ⟨cfg.inventory.initialBaseQty, cfg.inventory.initialQuoteQty⟩ := by
  induction h with
  | nil => rfl
  | @snoc steps s s' event out _ hs ih =>
      obtain ⟨step⟩ := Pipeline.process_ok hs
      unfold emittedOf at ih ⊢
      rw [List.flatMap_append, List.flatMap_singleton, fills_append, List.foldl_append, ← ih]
      exact step.inventory_out

/-- A log has the fills that were emitted, unless some were fed in. -/
theorem fills_logOf (hsource : ∀ r ∈ steps, r.input.fill? = none) :
    fills (logOf steps) = fills (emittedOf steps) := by
  induction steps with
  | nil => rfl
  | cons r rest ih =>
      obtain ⟨hr, hrest⟩ := List.forall_mem_cons.mp hsource
      unfold logOf emittedOf at ih ⊢
      have hinput : fills (r.input :: r.output) = fills r.output :=
        List.filterMap_cons_none hr
      rw [List.flatMap_cons, List.flatMap_cons, fills_append, fills_append, hinput, ih hrest]

/-- **Inventory, log and report agree.**  The balances are the initial ones folded over the
emitted fills, and the equity a summary of the enriched log finds at a positive price is
theirs. -/
theorem inventory_log_report
    (h : Machine.Run (Pipeline.process rt cfg) (Pipeline.init cfg) steps s)
    (hsource : ∀ r ∈ steps, r.input.fill? = none) :
    s.inventory = (fills (emittedOf steps)).foldl InventoryState.pay
      ⟨cfg.inventory.initialBaseQty, cfg.inventory.initialQuoteQty⟩ ∧
    ∀ lastFair, 0 < lastFair →
      (summarize (enrichFairAfter (logOf steps)) cfg.inventory.initialBaseQty
        cfg.inventory.initialQuoteQty (some lastFair)).endEquity
          = s.inventory.baseQty * lastFair + s.inventory.quoteQty := by
  have hinventory := inventory_run h
  refine ⟨hinventory, fun lastFair hpos => ?_⟩
  have hprice : endFair (enrichFairAfter (logOf steps)) (some lastFair) = lastFair := by
    unfold endFair Py.truthy
    rw [Option.filter_some_pos (by simpa using hpos.ne')]
    rfl
  rw [endEquity_summarize, foldl_pay_enrichFairAfter, fills_logOf hsource, hprice, hinventory]

end Runs

/-- Two bids filled by one sell, and the equity at the price they stood at. -/
theorem inventory_log_report_two_bids :
    let result := Pipeline.exec seriesRuntime flatConfig (quoteThenSell (3 / 2000))
    let log := Machine.stepsOf result
    (fills (emittedOf log)).length = 2 ∧
    result.1.inventory = (fills (emittedOf log)).foldl InventoryState.pay ⟨1 / 100, 150000⟩ ∧
    ∀ lastFair, 0 < lastFair →
      (summarize (enrichFairAfter (logOf log)) (1 / 100) 150000 (some lastFair)).endEquity
        = result.1.inventory.baseQty * lastFair + result.1.inventory.quoteQty :=
  ⟨by decide +kernel,
    inventory_log_report (Machine.run_exec (by decide +kernel)) (by decide +kernel)⟩

/-! ### The price the inventory is marked at -/

theorem lastFair_append (xs ys : List Event) :
    lastFair (xs ++ ys) = (lastFair ys).or (lastFair xs) := by
  unfold lastFair
  rw [List.reverse_append, List.findSome?_append]

theorem lastFair_eq_none {events : List Event} :
    lastFair events = none ↔ ∀ e ∈ events, e.markFair? = none := by
  unfold lastFair
  rw [List.findSome?_eq_none_iff]
  simp

namespace Pipeline

/-- The fair price the engine finds at an event. -/
def fairFound (cfg : Config) (self : Pipeline) (event : Event) : Option ℚ :=
  match self.fairOutcome cfg event with
  | .ok fairState => fairState.fair
  | .error _ => none

variable {rt : Runtime} {cfg : Config} {s s' : Pipeline} {event : Event} {out : List Event}

theorem Processed.fairFound_eq (step : Processed rt cfg s event s' out) :
    s.fairFound cfg event = step.fairState.fair := by
  unfold fairFound fairOutcome bookAfter
  rw [step.book, step.fair]

/-- A call hands over the price it found. -/
theorem Processed.lastFair_eq (step : Processed rt cfg s event s' out) :
    s'.lastFair.fair = s.fairFound cfg event := by
  rw [step.fairFound_eq, step.lastFair]

/-- Only the first event of a call can be a price. -/
theorem Processed.no_price_after (step : Processed rt cfg s event s' out) :
    ∀ e ∈ step.shockEvent.toList ++ step.fillEvents ++
      step.riskEvent :: (step.projectorEvents ++ step.live), e.markFair? = none := by
  intro e he
  unfold Event.markFair?
  rw [List.mem_append, List.mem_append, List.mem_cons, List.mem_append] at he
  rcases he with (he | he) | rfl | he | he
  · obtain ⟨payload, hbody⟩ := body_shockEvent step.shock e (Option.mem_toList.mp he)
    rw [hbody]
  · obtain ⟨payload, hbody⟩ := step.fills.body e he
    rw [hbody]
  · obtain ⟨payload, hbody, -⟩ := step.riskBody
    rw [hbody]
  · obtain ⟨payload, hbody⟩ | ⟨payload, hbody⟩ := step.moves.body e he <;> rw [hbody]
  · obtain ⟨payload, hbody⟩ | ⟨payload, hbody⟩ := step.liveBody e he <;> rw [hbody]

/-- The price a call writes down is the one it found. -/
theorem Processed.lastFair_out (step : Processed rt cfg s event s' out) :
    GhostAmm.lastFair out = s.fairFound cfg event := by
  have hout := congrArg GhostAmm.lastFair step.out
  rw [List.append_assoc, List.append_assoc, lastFair_append, ← List.append_assoc,
    lastFair_eq_none.mpr step.no_price_after] at hout
  rw [hout, step.fairFound_eq, Option.none_or]
  unfold markPriceEvents
  cases hfair : step.fairState.fair with
  | none => rfl
  | some fair => simp [GhostAmm.lastFair, Event.markFair?, hfair]

end Pipeline

section Runs

variable {rt : Runtime} {cfg : Config} {steps : List (Machine.Step Pipeline Event (List Event))}
  {s : Pipeline}

/-- The price found at the last event. -/
def endingPrice (cfg : Config) (steps : List (Machine.Step Pipeline Event (List Event))) :
    Option ℚ :=
  steps.getLast?.bind fun r => r.before.fairFound cfg r.input

/-- The last price that was found, or came in as a `mark_price`. -/
def latestPrice (cfg : Config) (steps : List (Machine.Step Pipeline Event (List Event))) :
    Option ℚ :=
  steps.reverse.findSome? fun r => (r.before.fairFound cfg r.input).or r.input.markFair?

/-- The last event finds a price, or there is none before it either; zero counts as none. -/
def EndsPriced (cfg : Config) (steps : List (Machine.Step Pipeline Event (List Event))) : Prop :=
  (endingPrice cfg steps).isSome = true ∨ Py.truthy (latestPrice cfg steps) = none

theorem lastFair_run (h : Machine.Run (Pipeline.process rt cfg) (Pipeline.init cfg) steps s) :
    s.lastFair.fair = endingPrice cfg steps ∧ lastFair (logOf steps) = latestPrice cfg steps := by
  induction h with
  | nil => exact ⟨rfl, rfl⟩
  | @snoc steps s s' event out _ hs ih =>
      obtain ⟨step⟩ := Pipeline.process_ok hs
      refine ⟨?_, ?_⟩
      · unfold endingPrice
        rw [List.getLast?_concat]
        exact step.lastFair_eq
      · have hcall : lastFair (event :: out) = (s.fairFound cfg event).or event.markFair? := by
          rw [← List.singleton_append, lastFair_append, step.lastFair_out]
          cases hmark : event.markFair? <;> simp [lastFair, hmark]
        unfold latestPrice logOf at ih ⊢
        rw [List.flatMap_append, List.flatMap_singleton, lastFair_append, ih.2, hcall,
          List.reverse_concat, List.findSome?_cons]
        cases (s.fairFound cfg event).or event.markFair? <;> rfl

/-- The price found last is the last that was found. -/
theorem latestPrice_of_ending {price : ℚ} (h : endingPrice cfg steps = some price) :
    latestPrice cfg steps = some price := by
  rcases List.eq_nil_or_concat steps with rfl | ⟨before, r, rfl⟩
  · simp [endingPrice] at h
  · unfold endingPrice at h
    rw [List.concat_eq_append, List.getLast?_concat] at h
    have h : r.before.fairFound cfg r.input = some price := h
    unfold latestPrice
    rw [List.concat_eq_append, List.reverse_concat, List.findSome?_cons, h]
    rfl

theorem truthy_ending_iff :
    Py.truthy (endingPrice cfg steps) = Py.truthy (latestPrice cfg steps) ↔
      EndsPriced cfg steps := by
  unfold EndsPriced
  cases hending : endingPrice cfg steps with
  | none =>
      show none = Py.truthy (latestPrice cfg steps) ↔ _
      simp only [Option.isSome_none, Bool.false_eq_true, false_or]
      exact eq_comm
  | some price => simp [latestPrice_of_ending hending]

end Runs

/-- A summary does not tell a missing price from zero. -/
theorem summarize_truthy {events : List Event} {initialBase initialQuote : ℚ}
    {lastFair lastFair' : Option ℚ} (h : Py.truthy lastFair = Py.truthy lastFair') :
    summarize events initialBase initialQuote lastFair
      = summarize events initialBase initialQuote lastFair' := by
  have hadd : FillTally.add lastFair = FillTally.add lastFair' := by
    funext tally fill
    unfold FillTally.add
    rw [h]
  have hstart : startFair events lastFair = startFair events lastFair' := by
    unfold startFair
    rw [h]
  have hend : endFair events lastFair = endFair events lastFair' := by
    unfold endFair
    rw [h, hstart]
  unfold summarize FillTally.ofFills
  rw [hadd, hstart, hend]

namespace ReplayEngine

/-- The calls of a replay. -/
def replayed (rt : Runtime) (cfg : Config) (events : List Event) (replayOrder : Option String) :
    List (Machine.Step Pipeline Event (List Event)) :=
  match orderEvents cfg.replay events replayOrder with
  | .error _ => []
  | .ok (_, ordered) => Machine.stepsOf (Pipeline.exec rt cfg ordered)

variable {rt : Runtime} {cfg : Config} {events : List Event} {replayOrder : Option String}
  {strictSequence : Option Bool} {report : Report}

/-- What a replay that is not refused has done. -/
theorem runFiles_ok (h : runFiles rt cfg events replayOrder strictSequence = .ok report) :
    ∃ s, (run rt cfg (Pipeline.init cfg) events replayOrder strictSequence).1 = s ∧
      Machine.Run (Pipeline.process rt cfg) (Pipeline.init cfg)
        (replayed rt cfg events replayOrder) s ∧
      report.events = enrichFairAfter (logOf (replayed rt cfg events replayOrder)) ∧
      report.summary = summarize report.events cfg.inventory.initialBaseQty
        cfg.inventory.initialQuoteQty s.lastFair.fair := by
  unfold runFiles at h
  split at h
  · simp at h
  · rename_i s output hrun
    rw [← Except.ok.inj h, hrun]
    refine ⟨s, rfl, ?_⟩
    unfold run at hrun
    unfold replayed
    cases horder : orderEvents cfg.replay events replayOrder with
    | error e => simp [horder] at hrun
    | ok ordered =>
        simp only [horder] at hrun ⊢
        split at hrun
        · simp at hrun
        · split at hrun
          · simp at hrun
          · rename_i s' steps hexec
            obtain ⟨rfl, hout⟩ := Prod.mk.inj hrun
            have hsteps : Machine.stepsOf (Pipeline.exec rt cfg ordered.2) = steps := by
              unfold Pipeline.exec
              rw [hexec]
              rfl
            rw [hsteps]
            exact ⟨(Machine.exec_run hexec).1, (Except.ok.inj hout).symm, trivial⟩

end ReplayEngine

/-- The prices the two reports mark at when the replay ends without one: the first of the log,
and the latest. -/
theorem endFair_of_not_endsPriced {cfg : Config} (events : List Event)
    {steps : List (Machine.Step Pipeline Event (List Event))} (h : ¬ EndsPriced cfg steps)
    {price : ℚ} (hprice : Py.truthy (latestPrice cfg steps) = some price) :
    endFair events (endingPrice cfg steps) = (Py.truthy (firstFair events)).getD 0 ∧
      endFair events (latestPrice cfg steps) = price := by
  have hnone : endingPrice cfg steps = none := by
    by_contra hsome
    exact h (Or.inl (Option.isSome_iff_ne_none.mpr hsome))
  unfold endFair startFair
  rw [hprice, hnone]
  refine ⟨?_, rfl⟩
  show ((Py.truthy (firstFair events)).or none).getD 0 = _
  rw [Option.or_none]

/-- **The two reports agree exactly when the replay ends on a price.**  The engine's summary is
the one `report` finds in the log, at the same price, if and only if the last event finds a
fair price or no event before it did.  In the replays left over the two end equities differ,
unless no base is left or the first price of the log is the latest one. -/
theorem reports_agree_iff {rt : Runtime} {cfg : Config} {events : List Event}
    {replayOrder : Option String} {strictSequence : Option Bool} {report : ReplayEngine.Report}
    (h : ReplayEngine.runFiles rt cfg events replayOrder strictSequence = .ok report) :
    (Py.truthy (ReplayEngine.run rt cfg (Pipeline.init cfg) events replayOrder
          strictSequence).1.lastFair.fair = Py.truthy (lastFair report.events) ∧
        report.summary = reportSummary cfg report.events ↔
      EndsPriced cfg (ReplayEngine.replayed rt cfg events replayOrder)) ∧
    ∀ price, ¬ EndsPriced cfg (ReplayEngine.replayed rt cfg events replayOrder) →
      Py.truthy (lastFair report.events) = some price →
      (report.summary.endEquity = (reportSummary cfg report.events).endEquity ↔
        ((fills report.events).foldl InventoryState.pay
          ⟨cfg.inventory.initialBaseQty, cfg.inventory.initialQuoteQty⟩).baseQty = 0 ∨
        (Py.truthy (firstFair report.events)).getD 0 = price) := by
  obtain ⟨s, hs, hrun, hlog, hsummary⟩ := ReplayEngine.runFiles_ok h
  obtain ⟨hhanded, hlast⟩ := lastFair_run hrun
  have hread : lastFair report.events
      = latestPrice cfg (ReplayEngine.replayed rt cfg events replayOrder) := by
    rw [hlog, lastFair_enrichFairAfter, hlast]
  unfold reportSummary
  rw [hs, hsummary, hhanded, hread]
  refine ⟨?_, fun price hnot hprice => ?_⟩
  · rw [← truthy_ending_iff]
    exact ⟨fun h => h.1, fun hsame => ⟨hsame, summarize_truthy hsame⟩⟩
  · obtain ⟨hfirst, hlatest⟩ := endFair_of_not_endsPriced report.events hnot hprice
    rw [endEquity_summarize, endEquity_summarize, hfirst, hlatest, add_left_inj,
      mul_eq_mul_left_iff]
    exact or_comm

/-- A replay that ends on a price. -/
theorem reports_agree_iff_two_bids :
    ∃ report, ReplayEngine.runFiles seriesRuntime flatConfig (quoteThenSell (3 / 2000)) none none
      = .ok report ∧
    (Py.truthy (ReplayEngine.run seriesRuntime flatConfig (Pipeline.init flatConfig)
          (quoteThenSell (3 / 2000)) none none).1.lastFair.fair
            = Py.truthy (lastFair report.events) ∧
        report.summary = reportSummary flatConfig report.events ↔
      EndsPriced flatConfig
        (ReplayEngine.replayed seriesRuntime flatConfig (quoteThenSell (3 / 2000)) none)) := by
  have hok : (ReplayEngine.runFiles seriesRuntime flatConfig (quoteThenSell (3 / 2000)) none
      none).isOk = true := by decide +kernel
  cases hreport : ReplayEngine.runFiles seriesRuntime flatConfig (quoteThenSell (3 / 2000)) none
      none with
  | error e =>
      rw [hreport] at hok
      simp [Except.isOk, Except.toBool] at hok
  | ok report => exact ⟨report, rfl, (reports_agree_iff hreport).1⟩

/-- Two books ten percent apart, then ten seconds of silence. -/
private def endsInSilence : List Event :=
  [snapshotEvent 0 1 10000000 10000002, snapshotEvent 0 2 11000000 11000002,
    marketEvent 10000 .absent (.other "dry_run_heartbeat")]

/-- The engine marks the inventory at the first book, the `report` command at the second. -/
theorem reports_differ_after_silence :
    ¬ ∀ (rt : Runtime) (cfg : Config) (events : List Event) (replayOrder : Option String)
      (strictSequence : Option Bool) (report : ReplayEngine.Report),
      ReplayEngine.runFiles rt cfg events replayOrder strictSequence = .ok report →
      report.summary = reportSummary cfg report.events := by
  intro h
  have hequity : ∀ report, ReplayEngine.runFiles seriesRuntime flatConfig endsInSilence none none
      = .ok report →
      report.summary.endEquity = (reportSummary flatConfig report.events).endEquity :=
    fun report hreport => congrArg MetricsSummary.endEquity (h _ _ _ _ _ report hreport)
  have hdiffer :
      ((ReplayEngine.runFiles seriesRuntime flatConfig endsInSilence none none).toOption.map
        fun report => decide (report.summary.endEquity
          = (reportSummary flatConfig report.events).endEquity)) = some false := by
    decide +kernel
  cases hreport : ReplayEngine.runFiles seriesRuntime flatConfig endsInSilence none none with
  | error e =>
      rw [hreport] at hdiffer
      simp [Except.toOption] at hdiffer
  | ok report =>
      rw [hreport] at hdiffer
      simp [Except.toOption, hequity report hreport] at hdiffer

end GhostAmm
