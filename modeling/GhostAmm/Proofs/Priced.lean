/-
No call divides by zero.

Every price that is stored is positive: the levels of the book, because those of the payloads
are, and the sources, because a ticker and an external price are only taken when they are and
the mid of the book is between two levels (`Pipeline.Priced`).  That holds after every call,
also after one that raises half way through a payload.  A median or a mean of positive prices is
positive, so the fair price is, and with a source count of at least one neither is taken over
nothing.
-/
import GhostAmm.Proofs.Balances
import GhostAmm.Proofs.Checked
import GhostAmm.Proofs.Malformed
import GhostAmm.Proofs.Sources

namespace GhostAmm

/-! ### The levels of a book -/

/-- The prices of the levels that have one are positive. -/
def PositivePrices (levels : List (Scalar × Scalar)) : Prop :=
  ∀ level ∈ levels, ∀ price, level.1.float = .ok price → 0 < price

/-- The prices of the event's levels, if it is for the book. -/
def Event.PositiveLevels (event : Event) : Prop :=
  match event.body with
  | .orderBookSnapshot payload => PositivePrices payload.bids ∧ PositivePrices payload.asks
  | .orderBookDelta payload => PositivePrices payload.bids ∧ PositivePrices payload.asks
  | _ => True

/-- The prices of a side are positive. -/
def Levels.Positive (side : Levels) : Prop := ∀ level ∈ side.rows, 0 < level.1

theorem numbersOf_price {level : Scalar × Scalar} {numbers : ℚ × ℚ}
    (h : numbersOf level = some numbers) : level.1.float = .ok numbers.1 := by
  unfold numbersOf at h
  split at h
  · rename_i price amount hprice _
    rw [hprice, ← Option.some.inj h]
  · cases h

theorem Levels.Positive.put {side : Levels} (h : side.Positive) {level : ℚ × ℚ}
    (hlevel : 0 < level.1) : Levels.Positive (side.put level) := by
  intro other hother
  rcases Py.Table.mem_put.mp hother with rfl | ⟨hold, -⟩
  · exact hlevel
  · exact h other hold

theorem Levels.Positive.setLevel {side : Levels} (h : side.Positive) {price : ℚ}
    (hprice : 0 < price) (amount : ℚ) : (setLevel side price amount).Positive := by
  unfold GhostAmm.setLevel
  split_ifs
  · exact fun level hlevel => h level (Py.Table.mem_erase.mp hlevel).1
  · exact h.put hprice

theorem Levels.Positive.setLevels {levels : List (Scalar × Scalar)} (hlevels : PositivePrices levels)
    {side : Levels} (h : side.Positive) : (setLevels side levels).1.Positive := by
  rw [setLevels_fst]
  have hread : ∀ numbers ∈ readBefore levels, 0 < numbers.1 := by
    intro numbers hnumbers
    obtain ⟨level, hlevel, hnumbers⟩ := List.mem_filterMap.mp hnumbers
    exact hlevels level ((List.takeWhile_prefix _).subset hlevel) _ (numbersOf_price hnumbers)
  generalize readBefore levels = read at hread
  induction read generalizing side with
  | nil => exact h
  | cons numbers rest ih =>
      exact ih (h.setLevel (hread numbers List.mem_cons_self) numbers.2) fun other hother =>
        hread other (List.mem_cons_of_mem _ hother)

theorem Levels.Positive.ofList {levels : List (ℚ × ℚ)} (h : ∀ level ∈ levels, 0 < level.1) :
    Levels.Positive (Py.Table.ofList levels) := by
  have hput : ∀ side : Levels, side.Positive → Levels.Positive (levels.foldl Py.Table.put side) := by
    induction levels with
    | nil => exact fun side hside => hside
    | cons level rest ih =>
        intro side hside
        exact ih (fun other hother => h other (List.mem_cons_of_mem _ hother)) _
          (hside.put (h level List.mem_cons_self))
  exact hput _ fun level hlevel => absurd hlevel List.not_mem_nil

theorem positive_of_parseSnapshot {levels : List (Scalar × Scalar)} {kept : List (ℚ × ℚ)}
    (hlevels : PositivePrices levels) (h : parseSnapshot levels = .ok kept) :
    Levels.Positive (Py.Table.ofList kept) := by
  obtain ⟨e, hparse⟩ := parseSnapshot_eq levels
  rw [h] at hparse
  by_cases hread : levels.all SnapshotReadable = true
  · rw [if_pos hread] at hparse
    rw [Except.ok.inj hparse]
    refine Levels.Positive.ofList fun numbers hnumbers => ?_
    obtain ⟨level, hlevel, hkept⟩ := List.mem_filterMap.mp hnumbers
    exact hlevels level hlevel _ (numbersOf_price (Option.filter_eq_some_iff.mp hkept).1)
  · rw [if_neg hread] at hparse
    cases hparse

/-- A book whose levels have positive prices. -/
structure OrderBook.Positive (book : OrderBook) : Prop where
  bids : book.bids.Positive
  asks : book.asks.Positive

namespace OrderBook.Positive

variable {book : OrderBook}

theorem applySnapshot (h : book.Positive) {payload : BookPayload}
    (hbids : PositivePrices payload.bids) (hasks : PositivePrices payload.asks)
    (sequence : Sequence) (ts : ℚ) : (book.applySnapshot payload sequence ts).1.Positive := by
  unfold OrderBook.applySnapshot
  cases hparsed : parseSnapshot payload.bids with
  | error e => exact h
  | ok bids =>
      have hnew := positive_of_parseSnapshot hbids hparsed
      dsimp only
      cases hparsed : parseSnapshot payload.asks with
      | error e => exact ⟨hnew, h.asks⟩
      | ok asks => exact ⟨hnew, positive_of_parseSnapshot hasks hparsed⟩

theorem applyDelta (h : book.Positive) {payload : BookPayload}
    (hbids : PositivePrices payload.bids) (hasks : PositivePrices payload.asks)
    (sequence : Sequence) (ts : ℚ) : (book.applyDelta payload sequence ts).1.Positive := by
  have hnewBids := h.bids.setLevels hbids
  have hnewAsks := h.asks.setLevels hasks
  unfold OrderBook.applyDelta
  dsimp only
  split_ifs
  · exact h
  · exact ⟨h.bids, h.asks⟩
  · generalize GhostAmm.setLevels book.bids payload.bids = written at hnewBids
    obtain ⟨bids, result⟩ := written
    cases result with
    | error e => exact ⟨hnewBids, h.asks⟩
    | ok _ =>
        dsimp only
        generalize GhostAmm.setLevels book.asks payload.asks = written at hnewAsks
        obtain ⟨asks, result⟩ := written
        cases result with
        | error e => exact ⟨hnewBids, hnewAsks⟩
        | ok _ => exact ⟨hnewBids, hnewAsks⟩

theorem applyEvent (h : book.Positive) {event : Event} (hevent : event.PositiveLevels) :
    (book.applyEvent event).1.Positive := by
  unfold Event.PositiveLevels at hevent
  unfold OrderBook.applyEvent
  cases hbody : event.body with
  | orderBookSnapshot payload =>
      rw [hbody] at hevent
      exact h.applySnapshot hevent.1 hevent.2 _ _
  | orderBookDelta payload =>
      rw [hbody] at hevent
      exact h.applyDelta hevent.1 hevent.2 _ _
  | _ => exact h

theorem bestBid (h : book.Positive) {bid : ℚ} (hbid : book.bestBid = some bid) : 0 < bid := by
  obtain ⟨level, hlevel, rfl⟩ := List.mem_map.mp (List.max?_mem hbid)
  exact h.bids level hlevel

theorem bestAsk (h : book.Positive) {ask : ℚ} (hask : book.bestAsk = some ask) : 0 < ask := by
  obtain ⟨level, hlevel, rfl⟩ := List.mem_map.mp (List.min?_mem hask)
  exact h.asks level hlevel

end OrderBook.Positive

/-! ### The sources -/

/-- The sources have positive prices. -/
def Sources.Positive (sources : Sources) : Prop := ∀ s ∈ sources.rows, 0 < s.fair

theorem externalFairJpy_pos {payload : ExternalFairPayload} {fair : ℚ}
    (h : externalFairJpy payload = some fair) : 0 < fair := by
  unfold externalFairJpy at h
  split at h
  · rename_i direct hdirect
    have hpos := (Option.filter_eq_some_iff.mp hdirect).2
    rw [← Option.some.inj h]
    simpa using hpos
  · split at h
    · dsimp only at h
      split_ifs at h with hpos
      rw [← Option.some.inj h]
      exact hpos
    · cases h

theorem sourceOfEvent_pos {event : Event} {s : FairPriceSource}
    (h : sourceOfEvent event = some s) : 0 < s.fair := by
  unfold sourceOfEvent at h
  split at h
  · exact (sourceFromTicker_spec h).1
  · unfold sourceFromExternalFair at h
    split at h
    · cases h
    · rename_i fair hfair
      rw [← Option.some.inj h]
      exact externalFairJpy_pos hfair
  · cases h

namespace Sources.Positive

variable {sources : Sources}

theorem put (h : sources.Positive) {s : FairPriceSource} (hs : 0 < s.fair) :
    Sources.Positive (sources.put s) := by
  intro other hother
  rcases Py.Table.mem_put.mp hother with rfl | ⟨hold, -⟩
  · exact hs
  · exact h other hold

theorem ingest (h : sources.Positive) (event : Event) : (sources.ingest event).Positive := by
  unfold Sources.ingest
  cases hsource : sourceOfEvent event with
  | none => exact h
  | some s => exact h.put (sourceOfEvent_pos hsource)

theorem settle (h : sources.Positive) {bookSource : Option FairPriceSource}
    (hbook : ∀ s, bookSource = some s → 0 < s.fair) : (sources.settle bookSource).Positive := by
  cases bookSource with
  | none => exact fun s hs => h s (Py.Table.mem_erase.mp hs).1
  | some s => exact h.put (hbook s rfl)

end Sources.Positive

/-- The mid of a book with positive levels is positive, so its source neither divides by zero nor
has another price. -/
theorem OrderBook.Positive.source {book : OrderBook} (h : book.Positive) (cfg : MarketConfig)
    (nowMs : ℚ) : ∃ bookSource, sourceFromOrderbook cfg book nowMs = .ok bookSource ∧
      ∀ s, bookSource = some s → 0 < s.fair := by
  have hnone : ∀ s : FairPriceSource, none = some s → 0 < s.fair := fun s hs => by cases hs
  unfold sourceFromOrderbook
  by_cases hstale : book.stale = true
  · rw [if_pos hstale]
    exact ⟨none, rfl, hnone⟩
  · rw [if_neg hstale]
    cases hbid : book.bestBid with
    | none => exact ⟨none, rfl, hnone⟩
    | some bid =>
        cases hask : book.bestAsk with
        | none => exact ⟨none, rfl, hnone⟩
        | some ask =>
            have hsum := add_pos (h.bestBid hbid) (h.bestAsk hask)
            have hmid : (ask + bid) / 2 ≠ 0 := by
              rw [add_comm]
              exact (half_pos hsum).ne'
            dsimp only
            rw [if_neg hmid]
            split_ifs
            · exact ⟨none, rfl, hnone⟩
            · exact ⟨none, rfl, hnone⟩
            · exact ⟨none, rfl, hnone⟩
            · refine ⟨_, rfl, fun s hs => ?_⟩
              rw [← Option.some.inj hs]
              exact half_pos hsum

theorem exists_bounds {xs : List ℚ} (h : ∀ x ∈ xs, 0 < x) :
    ∃ lo hi, 0 < lo ∧ ∀ x ∈ xs, x ∈ Set.Icc lo hi := by
  induction xs with
  | nil => exact ⟨1, 1, one_pos, fun x hx => absurd hx List.not_mem_nil⟩
  | cons x rest ih =>
      obtain ⟨lo, hi, hlo, hrest⟩ := ih fun y hy => h y (List.mem_cons_of_mem _ hy)
      refine ⟨min x lo, max x hi, lt_min (h x List.mem_cons_self) hlo, fun y hy => ?_⟩
      rcases List.mem_cons.mp hy with rfl | hy
      · exact ⟨min_le_left _ _, le_max_left _ _⟩
      · exact ⟨(min_le_right _ _).trans (hrest y hy).1, (hrest y hy).2.trans (le_max_right _ _)⟩

/-- An average of positive prices is positive. -/
theorem average_pos {cfg : FairConfig} {fairs : List ℚ} {fair : ℚ}
    (h : cfg.average fairs = .ok fair) (hall : ∀ v ∈ fairs, 0 < v) : 0 < fair := by
  obtain ⟨lo, hi, hlo, hbounds⟩ := exists_bounds hall
  exact hlo.trans_le (average_mem_Icc h hbounds).1

theorem exists_average (cfg : FairConfig) {fairs : List ℚ} (h : fairs ≠ []) :
    ∃ fair, cfg.average fairs = .ok fair := by
  unfold FairConfig.average
  split_ifs
  · exact Py.exists_median h
  · exact Py.exists_mean h

/-- **From positive prices, and with a source count of at least one, the engine makes a positive
fair price or none.** -/
theorem fromSources_pos {cfg : FairConfig} (hcount : 1 ≤ cfg.minSourceCount)
    {sources : List FairPriceSource} (hpos : ∀ s ∈ sources, 0 < s.fair) (nowMs : ℚ) :
    ∃ st, fromSources cfg sources nowMs = .ok st ∧ ∀ fair, st.fair = some fair → 0 < fair := by
  unfold fromSources
  dsimp only
  by_cases hfresh : (sources.filter (FairPriceSource.isFresh cfg nowMs)).isEmpty = true
  · rw [if_pos hfresh]
    exact ⟨_, rfl, fun fair h => by cases h⟩
  · rw [if_neg hfresh]
    have hne : (sources.filter (FairPriceSource.isFresh cfg nowMs)).map FairPriceSource.fair
        ≠ [] := by
      rw [Ne, List.map_eq_nil_iff]
      exact fun hnil => hfresh (List.isEmpty_iff.mpr hnil)
    obtain ⟨reference, hreference⟩ := Py.exists_median hne
    rw [hreference]
    dsimp only
    generalize hkept : (sources.filter (FairPriceSource.isFresh cfg nowMs)).filter _ = kept
    have hmem : ∀ s ∈ kept, 0 < s.fair := by
      intro s hs
      rw [← hkept] at hs
      exact hpos s (List.mem_of_mem_filter (List.mem_of_mem_filter hs))
    by_cases hfew : (kept.length : ℤ) < cfg.minSourceCount
    · rw [if_pos hfew]
      exact ⟨_, rfl, fun fair h => by cases h⟩
    · rw [if_neg hfew]
      have hkeptNe : kept.map FairPriceSource.fair ≠ [] := by
        rw [Ne, List.map_eq_nil_iff]
        rintro rfl
        exact hfew (by simpa using zero_lt_one.trans_le hcount)
      obtain ⟨fair, hfair⟩ := exists_average cfg hkeptNe
      have hfairPos : 0 < fair := by
        refine average_pos hfair fun v hv => ?_
        obtain ⟨s, hs, rfl⟩ := List.mem_map.mp hv
        exact hmem s hs
      unfold FairConfig.average at hfair
      rw [hfair]
      exact ⟨_, rfl, fun fair' h => Option.some.inj h ▸ hfairPos⟩

/-! ### The pipeline -/

/-- What `float` raises is about a text or a type. -/
theorem float_raises {entry : Scalar} {e : Py.Error} (h : entry.float = .error e) :
    e ≠ .zeroDivisionError ∧ e ≠ .statisticsError := by
  cases entry with
  | number value => cases h
  | text value =>
      rw [← Except.error.inj h]
      exact ⟨Py.Error.noConfusion, Py.Error.noConfusion⟩
  | foreign typeName =>
      rw [← Except.error.inj h]
      exact ⟨Py.Error.noConfusion, Py.Error.noConfusion⟩

/-- A pipeline that has only positive prices in it. -/
structure Pipeline.Priced (s : Pipeline) : Prop where
  book : s.book.Positive
  sources : s.sources.Positive

namespace Pipeline.Priced

variable {cfg : Config} {s : Pipeline} {event : Event}

/-- The engine keeps positive prices and makes one. -/
theorem engine (h : s.Priced) (hcount : 1 ≤ cfg.fair.minSourceCount)
    (hevent : event.PositiveLevels) :
    (fromMarketEvent cfg s.sources (s.bookAfter event) event event.tsExchange).1.Positive ∧
      ∃ st, s.fairOutcome cfg event = .ok st ∧ ∀ fair, st.fair = some fair → 0 < fair := by
  have hbook : (s.bookAfter event).Positive := h.book.applyEvent hevent
  obtain ⟨bookSource, hsource, hpos⟩ := hbook.source cfg.market event.tsExchange
  have hsources := (h.sources.ingest event).settle hpos
  unfold fairOutcome
  rw [fromMarketEvent_returns hsource]
  exact ⟨hsources, fromSources_pos hcount hsources event.tsExchange⟩

theorem init (cfg : Config) : (Pipeline.init cfg).Priced where
  book := ⟨fun _ hlevel => absurd hlevel List.not_mem_nil,
    fun _ hlevel => absurd hlevel List.not_mem_nil⟩
  sources := fun _ hs => absurd hs List.not_mem_nil

/-- What a call stores is positive, whether or not it raises. -/
theorem process (h : s.Priced) (hcount : 1 ≤ cfg.fair.minSourceCount)
    (hevent : event.PositiveLevels) (rt : Runtime) : (s.process rt cfg event).1.Priced := by
  have hbook : (s.bookAfter event).Positive := h.book.applyEvent hevent
  obtain ⟨hsources, -⟩ := h.engine hcount hevent
  have hcourse := process_course rt cfg s event
  generalize Pipeline.process rt cfg s event = outcome at hcourse ⊢
  cases hcourse with
  | book hraised =>
      rw [onMarket_eq]
      exact ⟨hbook, h.sources⟩
  | fair hraised =>
      rw [onMarket_eq]
      exact ⟨hbook, hsources⟩
  | stopped hfair happly =>
      obtain ⟨-, paid, fill, rest, -, rfl⟩ := applyFills_error happly
      exact ⟨hbook, hsources⟩
  | @returned fairState paid _ hfair happly =>
      obtain rfl := applyFills_ok happly
      obtain ⟨_, _, _, _, hrequote, -⟩ := requote_spec rt cfg
        ((s.atFills rt cfg event fairState).settled cfg
          (GhostAmm.fills (s.fillEventsAt rt cfg event fairState))) event fairState
        (s.shockAt rt cfg event fairState).2.1
      rw [hrequote]
      exact ⟨hbook, hsources⟩

/-- What a call on positive prices can raise. -/
theorem process_error (h : s.Priced) (hcount : 1 ≤ cfg.fair.minSourceCount)
    (hevent : event.PositiveLevels) (rt : Runtime) {e : Py.Error}
    (he : (s.process rt cfg event).2 = .error e) :
    (∃ entry : Scalar, entry.float = .error e) ∨ e = InventoryState.negativeBalances := by
  obtain ⟨-, st, hfair, -⟩ := h.engine hcount hevent
  rcases process_outcome rt cfg s event with ⟨e', hbook, hout⟩ | ⟨e', hraised, -⟩ |
    ⟨-, -, -, hout⟩
  · rw [hout] at he
    exact Or.inl (Except.error.inj he ▸ applyEvent_raises hbook)
  · rw [hfair] at hraised
    cases hraised
  · exact Or.inr (hout e he)

/-- On positive prices the checks of a call change nothing. -/
theorem checked (h : s.Priced) (hcount : 1 ≤ cfg.fair.minSourceCount)
    (hevent : event.PositiveLevels) {rt : Runtime} (hexp : ∀ x, 0 ≤ rt.exp x) :
    Checked.process rt cfg s event = s.process rt cfg event := by
  obtain ⟨-, st, hfair, hpos⟩ := h.engine hcount hevent
  refine Checked.process_eq hexp fun fairState hstate => ?_
  rw [hfair] at hstate
  exact Except.ok.inj hstate ▸ hpos

end Pipeline.Priced

section Run

variable {rt : Runtime} {cfg : Config}

theorem Pipeline.priced_after (hcount : 1 ≤ cfg.fair.minSourceCount) {events : List Event}
    (hevents : ∀ e ∈ events, e.PositiveLevels) : (Pipeline.after rt cfg events).Priced := by
  induction events using List.reverseRecOn with
  | nil => exact Pipeline.Priced.init cfg
  | append_singleton events event ih =>
      rw [Pipeline.after_concat]
      exact (ih fun e he => hevents e (List.mem_append_left _ he)).process hcount
        (hevents event (List.mem_append_right _ List.mem_cons_self)) rt

/-- The checks change no state that a run comes to. -/
theorem Checked.after_eq (hexp : ∀ x, 0 ≤ rt.exp x) (hcount : 1 ≤ cfg.fair.minSourceCount)
    {events : List Event} (hevents : ∀ e ∈ events, e.PositiveLevels) :
    Checked.after rt cfg events = Pipeline.after rt cfg events := by
  induction events using List.reverseRecOn with
  | nil => rfl
  | append_singleton events event ih =>
      have hbefore : ∀ e ∈ events, e.PositiveLevels := fun e he =>
        hevents e (List.mem_append_left _ he)
      have hpriced := @Pipeline.priced_after rt cfg hcount events hbefore
      have hstep : Checked.after rt cfg (events ++ [event])
          = (Checked.process rt cfg (Checked.after rt cfg events) event).1 := by
        unfold Checked.after
        rw [List.foldl_append, List.foldl_cons, List.foldl_nil]
      rw [hstep, ih hbefore, Pipeline.after_concat, hpriced.checked hcount
        (hevents event (List.mem_append_right _ List.mem_cons_self)) hexp]

/-- **No call of a run on a book of positive prices divides by zero or averages over nothing**,
whatever the prices of its trades are. -/
theorem no_partial_arithmetic (hexp : ∀ x, 0 ≤ rt.exp x) (hcount : 1 ≤ cfg.fair.minSourceCount)
    {events : List Event} {event : Event} (hevents : ∀ e ∈ events, e.PositiveLevels)
    (hevent : event.PositiveLevels) :
    (Checked.process rt cfg (Checked.after rt cfg events) event).2
        ≠ .error .zeroDivisionError ∧
      (Checked.process rt cfg (Checked.after rt cfg events) event).2
        ≠ .error .statisticsError := by
  have hpriced := @Pipeline.priced_after rt cfg hcount events hevents
  have hraised : ∀ e, (Pipeline.process rt cfg (Pipeline.after rt cfg events) event).2 = .error e →
      e ≠ .zeroDivisionError ∧ e ≠ .statisticsError := by
    intro e he
    rcases hpriced.process_error hcount hevent rt he with ⟨entry, hentry⟩ | rfl
    · exact float_raises hentry
    · exact ⟨Py.Error.noConfusion, Py.Error.noConfusion⟩
  rw [Checked.after_eq hexp hcount hevents, hpriced.checked hcount hevent hexp]
  exact ⟨fun he => (hraised _ he).1 rfl, fun he => (hraised _ he).2 rfl⟩

end Run

theorem positiveLevels_quoteThenSell (amount : ℚ) : ∀ e ∈ quoteThenSell amount,
    e.PositiveLevels := by
  have hlevel : ∀ price : ℚ, 0 < price → PositivePrices [(.number price, .number 1)] := by
    intro price hprice level hlevel other hother
    rw [List.mem_singleton.mp hlevel] at hother
    exact Except.ok.inj hother ▸ hprice
  intro e he
  unfold quoteThenSell at he
  simp only [List.mem_cons, List.not_mem_nil, or_false] at he
  rcases he with rfl | rfl | rfl | rfl
  · trivial
  · exact ⟨hlevel _ (by norm_num), hlevel _ (by norm_num)⟩
  · trivial
  · trivial

/-- A run that has a fair price, and one more sell. -/
theorem no_partial_arithmetic_one_more_sell :
    (Checked.after seriesRuntime flatConfig (quoteThenSell 1)).lastFair.fair = some 10000001 ∧
      (Checked.process seriesRuntime flatConfig (Checked.after seriesRuntime flatConfig
        (quoteThenSell 1)) (sellEvent 1000 10000000 1)).2 ≠ .error .zeroDivisionError ∧
      (Checked.process seriesRuntime flatConfig (Checked.after seriesRuntime flatConfig
        (quoteThenSell 1)) (sellEvent 1000 10000000 1)).2 ≠ .error .statisticsError :=
  ⟨by decide +kernel, no_partial_arithmetic series_nonneg (by decide +kernel)
    (positiveLevels_quoteThenSell 1) trivial⟩

end GhostAmm
