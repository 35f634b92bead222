/-
What it takes to be allowed to quote.

The kernel refuses by early returns, so a decision that allows quoting has passed every
one of them: `Admitted` lists what that leaves, and `evaluate_admitted` is the only proof
that follows the chain.  What the gates mean for a run comes from what they are shown:
the book, which is always the book after the event, and the metadata, which is always the
latest that was received.

The age of the book is not among the gates.  It is looked at only where the book becomes
a fair price source, and another source that is fresh makes the fair price valid all the
same.
-/
import GhostAmm.Proofs.Step

namespace GhostAmm

/-! ### The gates of the kernel -/

/-- What `evaluate` has seen when it allows quoting. -/
structure Admitted (cfg : Config) (input : RiskInput) : Prop where
  valid : input.fairState.isValid = true
  spread : ∃ spread, input.book.spreadBps = some spread ∧ spread ≤ cfg.market.maxSpreadBps
  depth : cfg.market.minDepth20bpsJpy ≤ input.book.depthAroundMid 20
  activation : cfg.shock.minActivationToQuote ≤ input.shockState.activation
  pairSpec : cfg.risk.blockOnUnfetchedPairSpec = true → input.pairSpec.isSome = true
  status : cfg.risk.blockOnBitbankStatusNotNormal = true →
    ∀ status ∈ input.status, status.isNormal = true
  flags : cfg.risk.blockOnPairStopFlags = true →
    ∀ spec ∈ input.pairSpec, RiskKernel.pairStopped spec = false
  book : cfg.risk.blockOnSequenceOrderingViolation = true → input.book.stale = false

namespace RiskKernel

variable {cfg : Config} {self : RiskKernel} {input : RiskInput} {fair : ℚ}

/-- A decision that refuses, both sides included, and says why. -/
structure Refuses (decision : RiskDecision) : Prop where
  quote : decision.allowQuote = false
  buy : decision.allowBuy = false
  sell : decision.allowSell = false
  reason : decision.reason ≠ none

theorem refuses_refuse (reason : String) : Refuses (.refuse reason) :=
  ⟨rfl, rfl, rfl, Option.some_ne_none reason⟩

/-- A gate that refuses, and the gates behind it. -/
private theorem refuses_gate {c : Prop} [Decidable c] {decision : RiskDecision}
    {rest : Option RiskDecision} (hdecision : Refuses decision) (hrest : ∀ d ∈ rest, Refuses d) :
    ∀ d ∈ (if c then some decision else rest), Refuses d := by
  intro d hd
  split at hd
  · rw [← Option.mem_some.mp hd]
    exact hdecision
  · exact hrest d hd

/-- Every early return refuses. -/
theorem globalRefusal_refuses : ∀ decision ∈ self.globalRefusal cfg input fair,
    Refuses decision := by
  have hgate : ∀ reason, ∀ d ∈ some (RiskDecision.refuse reason), Refuses d := by
    intro reason d hd
    rw [← Option.mem_some.mp hd]
    exact refuses_refuse reason
  have hlast : ∀ d ∈ (none : Option RiskDecision), Refuses d := fun d hd => by simp at hd
  unfold globalRefusal
  cases input.book.spreadBps with
  | none => exact hgate _
  | some spread =>
      refine refuses_gate (refuses_refuse _) ?_
      refine refuses_gate (refuses_refuse _) ?_
      refine refuses_gate (refuses_refuse _) ?_
      cases (input.inventory.snapshot cfg.inventory input.fairState.fair).skew with
      | none => exact hgate _
      | some skew =>
          refine refuses_gate (refuses_refuse _) ?_
          refine refuses_gate (refuses_refuse _) ?_
          refine refuses_gate (refuses_refuse _) ?_
          refine refuses_gate (refuses_refuse _) ?_
          refine refuses_gate (refuses_refuse _) ?_
          -- the last one names the sides as well
          exact refuses_gate ⟨rfl, rfl, rfl, Option.some_ne_none _⟩ hlast

/-- An early return that was not taken. -/
private theorem not_refused_iff {c : Prop} [Decidable c] {decision : RiskDecision}
    {rest : Option RiskDecision} :
    (if c then some decision else rest) = none ↔ ¬ c ∧ rest = none := by
  split <;> simp_all

/-- The gates in front of the side checks, in their order. -/
theorem globalRefusal_eq_none_iff : self.globalRefusal cfg input fair = none ↔
    (∃ spread, input.book.spreadBps = some spread ∧ spread ≤ cfg.market.maxSpreadBps) ∧
    cfg.market.minDepth20bpsJpy ≤ input.book.depthAroundMid 20 ∧
    cfg.shock.minActivationToQuote ≤ input.shockState.activation ∧
    (∃ skew, (input.inventory.snapshot cfg.inventory input.fairState.fair).skew = some skew ∧
      |skew| ≤ cfg.inventory.maxAbsSkew) ∧
    (cfg.risk.blockOnUnfetchedPairSpec = true → input.pairSpec.isSome = true) ∧
    (cfg.risk.blockOnBitbankStatusNotNormal = true →
      ∀ status ∈ input.status, status.isNormal = true) ∧
    (cfg.risk.blockOnPairStopFlags = true → ∀ spec ∈ input.pairSpec, pairStopped spec = false) ∧
    (cfg.risk.blockOnSequenceOrderingViolation = true → input.book.stale = false) ∧
    self.lastTradeDeviationTooLarge cfg.risk input.nowMs fair = false := by
  have hunfetched : ¬ (cfg.risk.blockOnUnfetchedPairSpec && input.pairSpec.isNone) = true ↔
      (cfg.risk.blockOnUnfetchedPairSpec = true → input.pairSpec.isSome = true) := by
    cases input.pairSpec <;> simp
  have hstatus : ¬ (cfg.risk.blockOnBitbankStatusNotNormal &&
      input.status.any (!BitbankStatus.isNormal ·)) = true ↔
      (cfg.risk.blockOnBitbankStatusNotNormal = true →
        ∀ status ∈ input.status, status.isNormal = true) := by
    cases input.status <;> simp
  have hflags : ¬ (cfg.risk.blockOnPairStopFlags && input.pairSpec.any pairStopped) = true ↔
      (cfg.risk.blockOnPairStopFlags = true →
        ∀ spec ∈ input.pairSpec, pairStopped spec = false) := by
    cases input.pairSpec <;> simp
  have hstale : ¬ (input.book.stale && cfg.risk.blockOnSequenceOrderingViolation) = true ↔
      (cfg.risk.blockOnSequenceOrderingViolation = true → input.book.stale = false) := by
    cases input.book.stale <;> simp
  unfold globalRefusal
  cases hspread : input.book.spreadBps with
  | none => simp
  | some spread =>
      cases hskew : (input.inventory.snapshot cfg.inventory input.fairState.fair).skew with
      | none =>
          simp only [not_refused_iff]
          simp
      | some skew =>
          simp only [not_refused_iff, hunfetched, hstatus, hflags, hstale, not_lt, and_true,
            Option.some.injEq, exists_eq_left', Bool.not_eq_true]

/-- What is left when no early return was taken. -/
theorem admitted_of_globalRefusal (hvalid : input.fairState.isValid = true)
    (h : self.globalRefusal cfg input fair = none) : Admitted cfg input := by
  obtain ⟨hspread, hdepth, hactivation, -, hspec, hstatus, hflags, hbook, -⟩ :=
    globalRefusal_eq_none_iff.mp h
  exact ⟨hvalid, hspread, hdepth, hactivation, hspec, hstatus, hflags, hbook⟩

/-- **A decision that allows quoting has passed every gate.** -/
theorem evaluate_admitted (h : (self.evaluate cfg input).2.allowQuote = true) :
    Admitted cfg input := by
  unfold evaluate at h
  split at h
  · rename_i fair hvalid hfair
    split at h
    · rename_i decision hrefusal
      rw [(globalRefusal_refuses decision hrefusal).quote] at h
      simp at h
    · rename_i hnone
      exact admitted_of_globalRefusal hvalid hnone
  · simp [RiskDecision.refuse] at h

/-- A side the pair is stopped on is not allowed. -/
theorem evaluate_stopped_side {spec : BitbankPairSpec} (hspec : input.pairSpec = some spec) :
    (spec.stopBuyOrder = true → (self.evaluate cfg input).2.allowBuy = false) ∧
      (spec.stopSellOrder = true → (self.evaluate cfg input).2.allowSell = false) := by
  unfold evaluate
  split
  · split
    · rename_i decision hrefusal
      have hrefuses := globalRefusal_refuses decision hrefusal
      exact ⟨fun _ => hrefuses.buy, fun _ => hrefuses.sell⟩
    · unfold sideChecks
      rw [hspec]
      exact ⟨fun hstop => by simp [hstop], fun hstop => by simp [hstop]⟩
  · exact ⟨fun _ => rfl, fun _ => rfl⟩

end RiskKernel

/-! ### The book a quote stands against -/

/-- Without a mid there is no depth around it. -/
theorem OrderBook.uncrossed_of_depth {book : OrderBook} {bps : ℚ}
    (h : 0 < book.depthAroundMid bps) :
    ∃ bid ask, book.bestBid = some bid ∧ book.bestAsk = some ask ∧ bid < ask := by
  cases hmid : book.mid with
  | none =>
      unfold OrderBook.depthAroundMid at h
      rw [hmid] at h
      exact absurd h (lt_irrefl _)
  | some mid =>
      unfold OrderBook.mid at hmid
      split at hmid
      · rename_i bid ask hbid hask
        split at hmid
        · simp at hmid
        · rename_i hcross
          exact ⟨bid, ask, hbid, hask, not_le.mp hcross⟩
      · simp at hmid

/-- A book that is not stale knows when it was last updated. -/
def OrderBook.Dated (book : OrderBook) : Prop := book.stale = false → book.lastTs.isSome = true

theorem OrderBook.dated_applyEvent {book book' : OrderBook} {event : Event} (h : book.Dated)
    (happly : book.applyEvent event = (book', .ok ())) : book'.Dated := by
  unfold OrderBook.applyEvent at happly
  split at happly
  · unfold OrderBook.applySnapshot at happly
    split at happly
    · simp at happly
    · split at happly
      · simp at happly
      · rw [← (Prod.mk.inj happly).1]
        intro _
        rfl
  · unfold OrderBook.applyDelta at happly
    simp only at happly
    split at happly
    · rw [← (Prod.mk.inj happly).1]
      exact h
    · split at happly
      · rw [← (Prod.mk.inj happly).1]
        intro hstale
        simp at hstale
      · split at happly
        · simp at happly
        · split at happly
          · simp at happly
          · rw [← (Prod.mk.inj happly).1]
            intro _
            rfl
  · rw [← (Prod.mk.inj happly).1]
    exact h

/-- A book that may be quoted against at `nowMs`. -/
structure FreshBook (cfg : MarketConfig) (book : OrderBook) (nowMs : ℚ) : Prop where
  notStale : book.stale = false
  uncrossed : ∃ bid ask, book.bestBid = some bid ∧ book.bestAsk = some ask ∧ bid < ask
  updated : ∃ ts, book.lastTs = some ts ∧ nowMs - ts ≤ cfg.staleAfterMs

namespace Pipeline

/-- The book after the event is older than `stale_after_ms`. -/
def bookIsOld (cfg : Config) (self : Pipeline) (event : Event) : Bool :=
  (self.bookAfter event).lastTs.any fun ts =>
    decide (cfg.market.staleAfterMs < event.tsExchange - ts)

/-- The sources other than the book yield a fair price on their own. -/
def othersAreValid (cfg : Config) (self : Pipeline) (event : Event) : Bool :=
  match fromSources cfg.fair
    ((Sources.ingest self.sources event).erase "bitbank_orderbook_mid").rows
    event.tsExchange with
  | .ok fairState => fairState.isValid
  | .error _ => false

variable {rt : Runtime} {cfg : Config} {s s' : Pipeline} {event : Event} {out : List Event}

theorem Processed.admitted (step : Processed rt cfg s event s' out)
    (h : s'.lastRisk.allowQuote = true) :
    Admitted cfg (s'.riskInput event step.fairState step.shockState) := by
  rw [step.decision] at h
  exact RiskKernel.evaluate_admitted h

/-- An old book is no source. -/
theorem sourceFromOrderbook_old {cfg : MarketConfig} {book : OrderBook} {nowMs ts : ℚ}
    (hts : book.lastTs = some ts) (hold : cfg.staleAfterMs < nowMs - ts) :
    sourceFromOrderbook cfg book nowMs = .ok none := by
  unfold sourceFromOrderbook
  split
  · rfl
  · split
    · rename_i bid ask _ _
      by_cases hcross : ask ≤ bid
      · rw [if_pos hcross]
      · rw [if_neg hcross, if_pos (by rw [hts]; simpa using hold)]
    · rfl

/-- **A quote stands against a fresh book unless other sources keep the fair price valid.** -/
theorem Processed.freshBook (step : Processed rt cfg s event s' out)
    (hgate : cfg.risk.blockOnSequenceOrderingViolation = true)
    (hdepth : 0 < cfg.market.minDepth20bpsJpy) (hdated : s'.book.Dated)
    (hfeeds : ¬ (s.bookIsOld cfg event = true ∧ s.othersAreValid cfg event = true))
    (h : s'.lastRisk.allowQuote = true) : FreshBook cfg.market s'.book event.tsExchange := by
  have hadmitted := step.admitted h
  have hstale : s'.book.stale = false := hadmitted.book hgate
  obtain ⟨ts, hts⟩ := Option.isSome_iff_exists.mp (hdated hstale)
  refine ⟨hstale, OrderBook.uncrossed_of_depth (hdepth.trans_le hadmitted.depth), ts, hts, ?_⟩
  by_contra hlate
  have hold : cfg.market.staleAfterMs < event.tsExchange - ts := not_le.mp hlate
  have hbook : s.bookAfter event = s'.book := by
    unfold bookAfter
    rw [step.book]
  refine hfeeds ⟨?_, ?_⟩
  · unfold bookIsOld
    rw [hbook, hts]
    simpa using hold
  · -- the fair price of this event came from the other sources alone
    have hfair := step.fair
    unfold fromMarketEvent at hfair
    rw [sourceFromOrderbook_old hts hold] at hfair
    unfold othersAreValid
    rw [(Prod.mk.inj hfair).2]
    exact hadmitted.valid

end Pipeline

section Runs

variable {rt : Runtime} {cfg : Config} {steps : List (Machine.Step Pipeline Event (List Event))}
  {s : Pipeline}

theorem dated_run (h : Machine.Run (Pipeline.process rt cfg) (Pipeline.init cfg) steps s) :
    s.book.Dated := by
  refine h.invariant (P := fun s => s.book.Dated) ?_ ?_
  · intro hstale
    simp [Pipeline.init] at hstale
  · intro s event out s' hdated hs
    obtain ⟨step⟩ := Pipeline.process_ok hs
    exact OrderBook.dated_applyEvent hdated step.book

/-- **Quoting fails closed on bad book data.**  In a run in which no event finds the book older
than `stale_after_ms` while other sources yield a fair price on their own, every decision that
allows quoting is taken on a book that is not stale, not crossed and not old. -/
theorem quoting_needs_fresh_book (hgate : cfg.risk.blockOnSequenceOrderingViolation = true)
    (hdepth : 0 < cfg.market.minDepth20bpsJpy)
    (h : Machine.Run (Pipeline.process rt cfg) (Pipeline.init cfg) steps s)
    (hfeeds : ∀ r ∈ steps,
      ¬ (r.before.bookIsOld cfg r.input = true ∧ r.before.othersAreValid cfg r.input = true)) :
    ∀ r ∈ steps, r.after.lastRisk.allowQuote = true →
      FreshBook cfg.market r.after.book r.input.tsExchange := by
  intro r hr hallow
  obtain ⟨xs, ys, rfl⟩ := List.append_of_mem hr
  obtain ⟨hbefore, hs⟩ := h.split
  obtain ⟨step⟩ := Pipeline.process_ok hs
  exact step.freshBook hgate hdepth (OrderBook.dated_applyEvent (dated_run hbefore) step.book)
    (hfeeds r hr) hallow

end Runs

/-- Quotes that come out at a book of the same instant. -/
theorem quoting_needs_fresh_book_flat :
    let steps := Machine.stepsOf (Pipeline.exec seriesRuntime flatConfig (quoteThenSell (1 / 1000)))
    (∃ r ∈ steps, r.after.lastRisk.allowQuote = true) ∧
    ∀ r ∈ steps, r.after.lastRisk.allowQuote = true →
      FreshBook flatConfig.market r.after.book r.input.tsExchange :=
  ⟨by decide +kernel, quoting_needs_fresh_book rfl (by decide +kernel)
    (Machine.run_exec (by decide +kernel)) (by decide +kernel)⟩

/-- A book, five seconds of nothing, a ticker and a sell. -/
private def silentBook : List Event :=
  [pairSpecEvent 0, snapshotEvent 0 1 10000000 10000002,
    marketEvent 5000 .absent (.bitbankTicker { buy := some 10000000, sell := some 10000002 }),
    sellEvent 5000 10000000 (1 / 10)]

private theorem silentBook_run :
    Machine.Run (Pipeline.process seriesRuntime flatConfig) (Pipeline.init flatConfig)
      (Machine.stepsOf (Pipeline.exec seriesRuntime flatConfig silentBook))
      (Pipeline.exec seriesRuntime flatConfig silentBook).1 :=
  Machine.run_exec (by decide +kernel)

/-- The ticker keeps the quotes coming against a book of five seconds ago. -/
theorem quoting_against_old_book :
    ¬ ∀ (rt : Runtime) (cfg : Config), cfg.risk.blockOnSequenceOrderingViolation = true →
      0 < cfg.market.minDepth20bpsJpy →
      ∀ (steps : List (Machine.Step Pipeline Event (List Event))) (s : Pipeline),
        Machine.Run (Pipeline.process rt cfg) (Pipeline.init cfg) steps s →
        ∀ r ∈ steps, r.after.lastRisk.allowQuote = true →
          FreshBook cfg.market r.after.book r.input.tsExchange := by
  intro h
  have hall := h _ _ rfl (by decide +kernel) _ _ silentBook_run
  have hupdated : ∀ r ∈ Machine.stepsOf (Pipeline.exec seriesRuntime flatConfig silentBook),
      r.after.lastRisk.allowQuote = true → r.after.book.lastTs.any fun ts =>
        decide (r.input.tsExchange - ts ≤ flatConfig.market.staleAfterMs) := by
    intro r hr hallow
    obtain ⟨ts, hts, hage⟩ := (hall r hr hallow).updated
    rw [hts]
    simpa using hage
  revert hupdated
  decide +kernel

/-! ### The metadata a quote rests on -/

/-- The payload of a `bitbank_pair_spec`. -/
def Event.pairSpec? (e : Event) : Option PairSpecPayload :=
  match e.body with
  | .bitbankPairSpec payload => some payload
  | _ => none

/-- The status a `bitbank_status` carries; a circuit break carries none. -/
def Event.status? (e : Event) : Option BitbankStatus :=
  match e.body with
  | .bitbankStatus payload =>
      match payload.status, payload.minAmount with
      | some status, some minAmount => some (.fromApi payload.pair status minAmount)
      | _, _ => none
  | _ => none

/-- The latest pair spec among the events. -/
def latestSpec (events : List Event) : Option BitbankPairSpec :=
  (events.filterMap Event.pairSpec?).getLast?.map BitbankPairSpec.fromApi

/-- The latest status among the events. -/
def latestStatus (events : List Event) : Option BitbankStatus :=
  (events.filterMap Event.status?).getLast?

/-- `ingestMetadata` keeps the latest spec and the latest status. -/
theorem Pipeline.latest_ingestMetadata {cfg : Config} {s : Pipeline} {events : List Event}
    (hspec : s.pairSpec = latestSpec events) (hstatus : s.status = latestStatus events)
    (event : Event) :
    (s.ingestMetadata cfg event).pairSpec = latestSpec (events ++ [event]) ∧
      (s.ingestMetadata cfg event).status = latestStatus (events ++ [event]) := by
  unfold latestSpec at hspec
  unfold latestStatus at hstatus
  have hspecs : latestSpec (events ++ [event])
      = (event.pairSpec?.map BitbankPairSpec.fromApi).or s.pairSpec := by
    unfold latestSpec
    rw [List.filterMap_append, hspec]
    cases h : event.pairSpec? <;> simp [h]
  have hstatuses : latestStatus (events ++ [event]) = event.status?.or s.status := by
    unfold latestStatus
    rw [List.filterMap_append, hstatus]
    cases h : event.status? <;> simp [h]
  rw [hspecs, hstatuses]
  unfold ingestMetadata Event.pairSpec? Event.status?
  cases hbody : event.body with
  | bitbankPairSpec payload =>
      simp only
      split <;> exact ⟨rfl, rfl⟩
  | bitbankStatus payload =>
      rcases payload with ⟨pair, _ | status, _ | minAmount⟩ <;> exact ⟨rfl, rfl⟩
  | _ => exact ⟨rfl, rfl⟩

section Metadata

variable {rt : Runtime} {cfg : Config} {steps : List (Machine.Step Pipeline Event (List Event))}
  {s : Pipeline}

theorem latest_run (h : Machine.Run (Pipeline.process rt cfg) (Pipeline.init cfg) steps s) :
    s.pairSpec = latestSpec (steps.map Machine.Step.input) ∧
      s.status = latestStatus (steps.map Machine.Step.input) := by
  induction h with
  | nil => exact ⟨rfl, rfl⟩
  | @snoc steps s s' event out _ hs ih =>
      obtain ⟨step⟩ := Pipeline.process_ok hs
      rw [List.map_append, List.map_singleton, step.pairSpec, step.status]
      exact Pipeline.latest_ingestMetadata ih.1 ih.2 event

/-- **Quoting needs an open pair.**  Whenever quoting is allowed, the latest pair spec that was
received is enabled and stops no orders, a side it stops is not allowed, and the latest status
that was received is normal.  A pair spec has been received if the configuration asks for one. -/
theorem quoting_needs_open_pair (hnormal : cfg.risk.blockOnBitbankStatusNotNormal = true)
    (hflags : cfg.risk.blockOnPairStopFlags = true)
    (h : Machine.Run (Pipeline.process rt cfg) (Pipeline.init cfg) steps s) :
    ∀ xs r ys, steps = xs ++ r :: ys → r.after.lastRisk.allowQuote = true →
      (cfg.risk.blockOnUnfetchedPairSpec = true →
        (latestSpec ((xs ++ [r]).map Machine.Step.input)).isSome = true) ∧
      (∀ spec, latestSpec ((xs ++ [r]).map Machine.Step.input) = some spec →
        spec.isEnabled = true ∧ spec.stopOrder = false ∧ spec.stopOrderAndCancel = false ∧
        (spec.stopBuyOrder = true → r.after.lastRisk.allowBuy = false) ∧
        (spec.stopSellOrder = true → r.after.lastRisk.allowSell = false)) ∧
      ∀ status, latestStatus ((xs ++ [r]).map Machine.Step.input) = some status →
        status.isNormal = true := by
  intro xs r ys hsteps hallow
  subst hsteps
  obtain ⟨hbefore, hs⟩ := h.split
  obtain ⟨step⟩ := Pipeline.process_ok hs
  obtain ⟨hspec, hstatus⟩ := latest_run (hbefore.snoc hs)
  have hadmitted := step.admitted hallow
  refine ⟨fun hfetched => ?_, fun spec hlatest => ?_, fun status hlatest => ?_⟩
  · have hreceived : r.after.pairSpec.isSome = true := hadmitted.pairSpec hfetched
    rw [← hspec]
    exact hreceived
  · have hopen := hadmitted.flags hflags spec (hspec.trans hlatest)
    unfold RiskKernel.pairStopped at hopen
    rw [Bool.or_eq_false_iff, Bool.or_eq_false_iff, Bool.not_eq_false'] at hopen
    rw [step.decision]
    exact ⟨hopen.1.1, hopen.1.2, hopen.2, RiskKernel.evaluate_stopped_side (hspec.trans hlatest)⟩
  · exact hadmitted.status hnormal status (hstatus.trans hlatest)

end Metadata

theorem quoting_needs_open_pair_flat :
    let steps := Machine.stepsOf (Pipeline.exec seriesRuntime flatConfig (quoteThenSell (1 / 1000)))
    (∃ r ∈ steps, r.after.lastRisk.allowQuote = true) ∧
    ∀ xs r ys, steps = xs ++ r :: ys → r.after.lastRisk.allowQuote = true →
      (flatConfig.risk.blockOnUnfetchedPairSpec = true →
        (latestSpec ((xs ++ [r]).map Machine.Step.input)).isSome = true) ∧
      (∀ spec, latestSpec ((xs ++ [r]).map Machine.Step.input) = some spec →
        spec.isEnabled = true ∧ spec.stopOrder = false ∧ spec.stopOrderAndCancel = false ∧
        (spec.stopBuyOrder = true → r.after.lastRisk.allowBuy = false) ∧
        (spec.stopSellOrder = true → r.after.lastRisk.allowSell = false)) ∧
      ∀ status, latestStatus ((xs ++ [r]).map Machine.Step.input) = some status →
        status.isNormal = true :=
  ⟨by decide +kernel, quoting_needs_open_pair rfl rfl (Machine.run_exec (by decide +kernel))⟩

/-- The switch that asks for a pair spec is off. -/
private def unaskedConfig : Config :=
  { flatConfig with risk := { flatConfig.risk with blockOnUnfetchedPairSpec := false } }

/-- A normal status, a book and a sell that brings quotes out, but no pair spec. -/
private def withoutPairSpec : List Event :=
  [marketEvent 1000 .absent (.bitbankStatus
      { pair := "btc_jpy", status := some "NORMAL", minAmount := some (some (1 / 10000)) }),
    snapshotEvent 1000 1 10000000 10000002, sellEvent 1000 10000000 (1 / 10)]

/-- Quotes come out though no pair spec was ever received. -/
theorem quoting_without_pair_spec :
    ¬ ∀ (rt : Runtime) (cfg : Config), cfg.risk.blockOnBitbankStatusNotNormal = true →
      cfg.risk.blockOnPairStopFlags = true →
      ∀ (steps : List (Machine.Step Pipeline Event (List Event))) (s : Pipeline),
        Machine.Run (Pipeline.process rt cfg) (Pipeline.init cfg) steps s →
        ∀ xs r ys, steps = xs ++ r :: ys → r.after.lastRisk.allowQuote = true →
          (∃ status, latestStatus ((xs ++ [r]).map Machine.Step.input) = some status ∧
            status.isNormal = true) ∧
          ∃ spec, latestSpec ((xs ++ [r]).map Machine.Step.input) = some spec ∧
            spec.isEnabled = true ∧ spec.stopOrder = false ∧ spec.stopOrderAndCancel = false := by
  intro h
  have hall := h seriesRuntime unaskedConfig rfl rfl
    (Machine.stepsOf (Pipeline.exec seriesRuntime unaskedConfig withoutPairSpec)) _
    (Machine.run_exec (by decide +kernel))
  -- at the last call
  have hlast : ∀ r ∈ (Machine.stepsOf
      (Pipeline.exec seriesRuntime unaskedConfig withoutPairSpec)).getLast?,
      r.after.lastRisk.allowQuote = true →
        (latestSpec ((Machine.stepsOf (Pipeline.exec seriesRuntime unaskedConfig
          withoutPairSpec)).map Machine.Step.input)).isSome = true := by
    intro r hr hallow
    have hsplit := List.dropLast_append_getLast? r hr
    obtain ⟨-, spec, hspec, -⟩ := hall _ r [] hsplit.symm hallow
    rw [hsplit] at hspec
    rw [hspec]
    rfl
  revert hlast
  decide +kernel

end GhostAmm
