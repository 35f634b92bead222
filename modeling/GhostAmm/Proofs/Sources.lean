/-
Where the sources of the fair price come from.

The engine files each accepted source under its name, so what it holds after any run of
calls is the latest accepted source of each name (`get?_engineAfter`).  The book is the
exception: its entry is written or removed by every call and says nothing of the past.
A price is therefore the same for all histories that end in the same sources, whatever
their order.

Two names are the ticker's own, one for its mid and one for its last price.  Neither is
removed when the other is written, and that is how one feed comes to count twice.  A
composite price has one timestamp for its two legs, and that is how an old leg comes to
pass for a fresh one.
-/
import GhostAmm.Lib.Streams
import GhostAmm.Model.CcxtGateway
import GhostAmm.Proofs.FairPrice

namespace GhostAmm

/-! ### What the engine holds -/

/-- One call of `from_market_event`. -/
structure EngineCall where
  book : OrderBook
  event : Event
  nowMs : ℚ

/-- The sources after a run of calls on a new engine. -/
def engineAfter (cfg : Config) (calls : List EngineCall) : Sources :=
  calls.foldl
    (fun sources call => (fromMarketEvent cfg sources call.book call.event call.nowMs).1)
    Py.Table.empty

/-- What a call returns after a run of calls. -/
def EngineCall.result (cfg : Config) (before : List EngineCall) (call : EngineCall) :
    Except Py.Error FairPriceState :=
  (fromMarketEvent cfg (engineAfter cfg before) call.book call.event call.nowMs).2

/-- The last source the events bring under a name. -/
def latestSource (events : List Event) (name : String) : Option FairPriceSource :=
  ((events.filterMap sourceOfEvent).filter fun s => decide (s.name = name)).getLast?

/-- The sources once the book's own is written or removed. -/
def Sources.settle (sources : Sources) : Option FairPriceSource → Sources
  | some source => sources.put source
  | none => sources.erase "bitbank_orderbook_mid"

variable {cfg : Config} {sources : Sources} {book : OrderBook} {event : Event} {nowMs : ℚ}
  {calls : List EngineCall} {events : List Event} {name : String} {s : FairPriceSource}

theorem latestSource_concat (events : List Event) (event : Event) (name : String) :
    latestSource (events ++ [event]) name
      = ((sourceOfEvent event).filter fun s => decide (s.name = name)).or
          (latestSource events name) := by
  unfold latestSource
  rw [List.filterMap_append, List.filter_append]
  cases hs : sourceOfEvent event with
  | none => simp [hs]
  | some s =>
      by_cases hname : s.name = name
      · simp [hs, hname, Option.filter_some]
      · simp [hs, hname, Option.filter_some]

theorem latestSource_spec (h : latestSource events name = some s) :
    s.name = name ∧ ∃ event ∈ events, sourceOfEvent event = some s := by
  have hmem := List.mem_of_getLast? h
  rw [List.mem_filter, List.mem_filterMap] at hmem
  exact ⟨of_decide_eq_true hmem.2, hmem.1⟩

theorem get?_ingest (sources : Sources) (event : Event) (name : String) :
    (Sources.ingest sources event).get? name
      = ((sourceOfEvent event).filter fun s => decide (s.name = name)).or
          (sources.get? name) := by
  unfold Sources.ingest
  cases sourceOfEvent event with
  | none => rfl
  | some s =>
      by_cases hname : s.name = name
      · subst hname
        simp [Option.filter_some]
      · simpa [hname, Option.filter_some] using sources.get?_put_ne (v := s) fun h => hname h.symm

theorem sourceFromOrderbook_name (h : sourceFromOrderbook cfg.market book nowMs = .ok (some s)) :
    s.name = "bitbank_orderbook_mid" := by
  unfold sourceFromOrderbook at h
  simp only at h
  split at h
  · cases h
  · split at h
    · split at h
      · cases h
      · split at h
        · cases h
        · split at h
          · cases h
          · split at h
            · cases h
            · rw [← Option.some.inj (Except.ok.inj h)]
    · cases h

theorem fromMarketEvent_raises {e : Py.Error}
    (h : sourceFromOrderbook cfg.market book nowMs = .error e) :
    fromMarketEvent cfg sources book event nowMs = (sources.ingest event, .error e) := by
  unfold fromMarketEvent
  rw [h]

theorem fromMarketEvent_returns {bookSource : Option FairPriceSource}
    (h : sourceFromOrderbook cfg.market book nowMs = .ok bookSource) :
    fromMarketEvent cfg sources book event nowMs
      = ((sources.ingest event).settle bookSource,
         fromSources cfg.fair ((sources.ingest event).settle bookSource).rows nowMs) := by
  unfold fromMarketEvent
  rw [h]
  cases bookSource <;> rfl

theorem get?_settle_ne {bookSource : Option FairPriceSource}
    (h : sourceFromOrderbook cfg.market book nowMs = .ok bookSource)
    (hname : name ≠ "bitbank_orderbook_mid") :
    (sources.settle bookSource).get? name = sources.get? name := by
  cases bookSource with
  | none => exact sources.get?_erase_ne hname
  | some s => exact sources.get?_put_ne fun heq => hname (heq.trans (sourceFromOrderbook_name h))

/-- After settling, the entry of the book is the book's source. -/
theorem get?_settle_self {bookSource : Option FairPriceSource}
    (h : sourceFromOrderbook cfg.market book nowMs = .ok bookSource) :
    (sources.settle bookSource).get? "bitbank_orderbook_mid" = bookSource := by
  cases bookSource with
  | none => exact sources.get?_erase_self _
  | some s =>
      rw [← sourceFromOrderbook_name h]
      exact sources.get?_put_self s

/-- What a call leaves under a name of no book is what its event brought or what was there. -/
theorem get?_fromMarketEvent (hname : name ≠ "bitbank_orderbook_mid") :
    (fromMarketEvent cfg sources book event nowMs).1.get? name
      = (sources.ingest event).get? name := by
  cases hbook : sourceFromOrderbook cfg.market book nowMs with
  | error e => rw [fromMarketEvent_raises hbook]
  | ok bookSource =>
      rw [fromMarketEvent_returns hbook]
      exact get?_settle_ne hbook hname

/-- **After any run of calls the engine holds the latest source of each name.** -/
theorem get?_engineAfter (cfg : Config) (calls : List EngineCall)
    (hname : name ≠ "bitbank_orderbook_mid") :
    (engineAfter cfg calls).get? name = latestSource (calls.map EngineCall.event) name := by
  induction calls using List.reverseRecOn with
  | nil => rfl
  | append_singleton calls call ih =>
      have hstep : engineAfter cfg (calls ++ [call])
          = (fromMarketEvent cfg (engineAfter cfg calls) call.book call.event call.nowMs).1 := by
        unfold engineAfter
        rw [List.foldl_append]
        rfl
      rw [hstep, get?_fromMarketEvent hname, get?_ingest, ih, List.map_append, List.map_singleton,
        latestSource_concat]

/-! ### Histories that end in the same sources -/

/-- **The state depends on the latest sources alone, not on the order they came in.** -/
theorem arrival_order_irrelevant (cfg : Config) (calls calls' : List EngineCall)
    (book : OrderBook) (event event' : Event) (nowMs : ℚ)
    (h : ∀ name, latestSource (calls.map EngineCall.event ++ [event]) name
      = latestSource (calls'.map EngineCall.event ++ [event']) name) :
    AgreeUpToOrder (EngineCall.result cfg calls ⟨book, event, nowMs⟩)
      (EngineCall.result cfg calls' ⟨book, event', nowMs⟩) := by
  unfold EngineCall.result
  cases hbook : sourceFromOrderbook cfg.market book nowMs with
  | error e =>
      simp only [fromMarketEvent_raises hbook]
      exact rfl
  | ok bookSource =>
      simp only [fromMarketEvent_returns hbook]
      refine fromSources_perm (Py.Table.rows_perm_of_get? fun name => ?_)
      by_cases hname : name = "bitbank_orderbook_mid"
      · rw [hname, get?_settle_self hbook, get?_settle_self hbook]
      · rw [get?_settle_ne hbook hname, get?_settle_ne hbook hname, get?_ingest, get?_ingest,
          get?_engineAfter cfg _ hname, get?_engineAfter cfg _ hname, ← latestSource_concat,
          ← latestSource_concat]
        exact h name

/-- An external price of 100 under a source's name. -/
def externalAt (source : String) (ts : ℚ) : Event :=
  ⟨"", ts, ts, "", "BTC/JPY", .absent,
    .externalFairPrice { fairJpy := some (some 100), source := some source }⟩

/-- Two external sources may come in either order. -/
theorem arrival_order_of_two :
    AgreeUpToOrder
      (EngineCall.result {} [⟨{}, externalAt "a" 5, 10⟩] ⟨{}, externalAt "b" 6, 10⟩)
      (EngineCall.result {} [⟨{}, externalAt "b" 6, 8⟩] ⟨{}, externalAt "a" 5, 10⟩) := by
  refine arrival_order_irrelevant _ _ _ _ _ _ _ fun name => ?_
  by_cases ha : name = "a"
  · subst ha
    decide +kernel
  · by_cases hb : name = "b"
    · subst hb
      decide +kernel
    · have hnone : ∀ events, (∀ e ∈ events, e = externalAt "a" 5 ∨ e = externalAt "b" 6) →
          latestSource events name = none := by
        intro events hevents
        cases hs : latestSource events name with
        | none => rfl
        | some s =>
            obtain ⟨hname, e, he, hse⟩ := latestSource_spec hs
            rcases hevents e he with rfl | rfl
            · exact absurd (hname.symm.trans (congrArg FairPriceSource.name
                (Option.some.inj hse)).symm) ha
            · exact absurd (hname.symm.trans (congrArg FairPriceSource.name
                (Option.some.inj hse)).symm) hb
      rw [hnone _ (by simp), hnone _ (by simp)]

/-! ### One feed under two names -/

/-- No external source is among the events. -/
def NoExternal (events : List Event) : Prop :=
  ∀ e ∈ events, ∀ payload, e.body ≠ .externalFairPrice payload

/-- The distance of two prices from their midpoint, in basis points of it. -/
def gapBps (a b : ℚ) : ℚ := |a - b| / (a + b) * 10000

/--
The latest mid and the latest last price of the ticker are both fresh and near each other,
and two sources are enough.
-/
def TickerTwice (cfg : FairConfig) (events : List Event) (nowMs : ℚ) : Prop :=
  cfg.minSourceCount ≤ 2 ∧
    ∃ mid last, latestSource events "bitbank_ticker_mid" = some mid ∧
      latestSource events "bitbank_ticker_last" = some last ∧
      mid.isFresh cfg nowMs = true ∧ last.isFresh cfg nowMs = true ∧
      gapBps mid.fair last.fair ≤ cfg.maxSourceDeviationBps

/-- A ticker that is not quoted brings its last price. -/
theorem sourceFromTicker_last {last : Option ℚ} {ts : ℚ}
    (h : sourceFromTicker { last := last } ts = some s) :
    0 < s.fair ∧ s.name = "bitbank_ticker_last" := by
  unfold sourceFromTicker at h
  simp only at h
  cases last with
  | none => cases h
  | some price =>
      simp only at h
      split at h
      · rename_i hpos
        rw [← Option.some.inj h]
        exact ⟨hpos, rfl⟩
      · cases h

/-- A source that a ticker brings has a positive price and one of the ticker's two names. -/
theorem sourceFromTicker_spec {payload : TickerPayload} {ts : ℚ}
    (h : sourceFromTicker payload ts = some s) :
    0 < s.fair ∧ (s.name = "bitbank_ticker_mid" ∨ s.name = "bitbank_ticker_last") := by
  have hlast : sourceFromTicker { last := payload.last } ts = some s →
      0 < s.fair ∧ (s.name = "bitbank_ticker_mid" ∨ s.name = "bitbank_ticker_last") := fun h =>
    ⟨(sourceFromTicker_last h).1, Or.inr (sourceFromTicker_last h).2⟩
  unfold sourceFromTicker at h
  simp only at h
  split at h
  · split at h
    · rename_i hquotes
      rw [← Option.some.inj h]
      refine ⟨?_, Or.inl rfl⟩
      have := add_pos hquotes.1 hquotes.2.1
      simp only
      linarith
    · exact hlast h
  · exact hlast h

theorem latestSource_ticker (hevents : NoExternal events)
    (h : latestSource events name = some s) :
    0 < s.fair ∧ (name = "bitbank_ticker_mid" ∨ name = "bitbank_ticker_last") := by
  obtain ⟨hname, e, he, hs⟩ := latestSource_spec h
  rw [← hname]
  unfold sourceOfEvent at hs
  split at hs
  · exact sourceFromTicker_spec hs
  · rename_i payload hbody
    exact absurd hbody (hevents e he payload)
  · cases hs

/-- A valid state needs as many fresh sources as the configuration asks for. -/
theorem enough_fresh {fair : FairConfig} {l : List FairPriceSource} {st : FairPriceState}
    (h : fromSources fair l nowMs = .ok st) (hv : st.isValid = true) :
    fair.minSourceCount ≤ (freshSources fair nowMs l).length := by
  obtain ⟨reference, -, -, hcount, -⟩ := fromSources_valid h hv
  have hle : (keptSources fair reference (freshSources fair nowMs l)).length
      ≤ (freshSources fair nowMs l).length := List.length_filter_le _ _
  omega

/-- Both of two sources are as far from their midpoint as their gap says. -/
theorem deviationBps_midpoint {a b : ℚ} (ha : 0 < a) (hb : 0 < b) :
    deviationBps a ((a + b) / 2) = gapBps a b ∧ deviationBps b ((a + b) / 2) = gapBps a b := by
  have hmid : 0 < (a + b) / 2 := by linarith
  have hne : a + b ≠ 0 := by linarith
  have hleft : |a - (a + b) / 2| = |a - b| / 2 := by
    rw [show a - (a + b) / 2 = (a - b) / 2 by ring, abs_div, abs_two]
  have hright : |b - (a + b) / 2| = |a - b| / 2 := by
    rw [show b - (a + b) / 2 = -((a - b) / 2) by ring, abs_neg, abs_div, abs_two]
  unfold deviationBps gapBps
  rw [if_neg (not_le.mpr hmid), if_neg (not_le.mpr hmid), hleft, hright]
  constructor <;> field_simp

/-- Two fresh sources are kept together or dropped together. -/
theorem keptSources_pair {fair : FairConfig} {a b : FairPriceSource} (ha : 0 < a.fair)
    (hb : 0 < b.fair) : keptSources fair ((a.fair + b.fair) / 2) [a, b]
      = if gapBps a.fair b.fair ≤ fair.maxSourceDeviationBps then [a, b] else [] := by
  obtain ⟨hleft, hright⟩ := deviationBps_midpoint ha hb
  unfold keptSources
  simp only [List.filter_cons, List.filter_nil, hleft, hright]
  split
  · rename_i h
    rw [if_pos (of_decide_eq_true h)]
  · rename_i h
    rw [if_neg (by simpa using h)]

/-- Fewer than two fresh sources are fewer than the configuration asks for. -/
theorem not_valid_of_few {fair : FairConfig} (hmin : 2 ≤ fair.minSourceCount)
    {sources : List FairPriceSource} (hfew : (freshSources fair nowMs sources).length ≤ 1) :
    ¬ ∃ st, fromSources fair sources nowMs = .ok st ∧ st.isValid = true := by
  intro h
  obtain ⟨st, hst, hv⟩ := h
  have hcount := enough_fresh hst hv
  omega

/-- Where two sources are asked for, two count exactly when both are fresh and near. -/
theorem valid_pair_iff {fair : FairConfig} {a b : FairPriceSource} (ha : 0 < a.fair)
    (hb : 0 < b.fair) (hmin : 2 ≤ fair.minSourceCount) :
    (∃ st, fromSources fair [a, b] nowMs = .ok st ∧ st.isValid = true) ↔
      fair.minSourceCount ≤ 2 ∧ a.isFresh fair nowMs = true ∧ b.isFresh fair nowMs = true ∧
        gapBps a.fair b.fair ≤ fair.maxSourceDeviationBps := by
  by_cases hfresh : a.isFresh fair nowMs = true ∧ b.isFresh fair nowMs = true
  · have hboth : freshSources fair nowMs [a, b] = [a, b] := by
      simp [freshSources, hfresh.1, hfresh.2]
    have hmedian : Py.median ((freshSources fair nowMs [a, b]).map FairPriceSource.fair)
        = .ok ((a.fair + b.fair) / 2) := by
      rw [hboth]
      exact Py.median_pair a.fair b.fair
    constructor
    · rintro ⟨st, h, hv⟩
      obtain ⟨reference, _, hreference, hcount, -⟩ := fromSources_valid h hv
      rw [hmedian] at hreference
      rw [← Except.ok.inj hreference, hboth, keptSources_pair ha hb] at hcount
      split at hcount
      · rename_i hgap
        exact ⟨hcount, hfresh.1, hfresh.2, hgap⟩
      · simp only [List.length_nil, Nat.cast_zero] at hcount
        omega
    · rintro ⟨hcount, -, -, hgap⟩
      have hkept : keptSources fair ((a.fair + b.fair) / 2) (freshSources fair nowMs [a, b])
          = [a, b] := by
        rw [hboth, keptSources_pair ha hb, if_pos hgap]
      have haverage : fair.average ([a, b].map FairPriceSource.fair)
          = .ok ((a.fair + b.fair) / 2) := by
        unfold FairConfig.average
        split
        · exact Py.median_pair a.fair b.fair
        · simp [Py.mean]
      exact fromSources_enough hmedian (by rw [hkept]; exact hcount) (by rw [hkept, haverage])
  · have hone : (freshSources fair nowMs [a, b]).length ≤ 1 := by
      unfold freshSources
      by_cases hfa : a.isFresh fair nowMs = true
      · have hfb : ¬ b.isFresh fair nowMs = true := fun hfb => hfresh ⟨hfa, hfb⟩
        simp [hfa, hfb]
      · by_cases hfb : b.isFresh fair nowMs = true
        · simp [hfa, hfb]
        · simp [hfa, hfb]
    refine iff_of_false (not_valid_of_few hmin hone) fun h => ?_
    obtain ⟨-, hfa, hfb, -⟩ := h
    exact hfresh ⟨hfa, hfb⟩

/-- Without external sources and without a book, the engine holds the ticker's two sources. -/
theorem rows_of_tickers (cfg : Config) (calls : List EngineCall) (event : Event)
    (hevents : NoExternal (calls.map EngineCall.event ++ [event])) :
    (((engineAfter cfg calls).ingest event).settle none).rows.Perm
      ((latestSource (calls.map EngineCall.event ++ [event]) "bitbank_ticker_mid").toList ++
        (latestSource (calls.map EngineCall.event ++ [event]) "bitbank_ticker_last").toList) := by
  have hrow : ∀ s, s ∈ (((engineAfter cfg calls).ingest event).settle none).rows ↔
      s.name ≠ "bitbank_orderbook_mid" ∧
        latestSource (calls.map EngineCall.event ++ [event]) s.name = some s := by
    intro s
    show s ∈ (((engineAfter cfg calls).ingest event).erase _).rows ↔ _
    rw [Py.Table.mem_erase, and_comm]
    refine and_congr_right fun hname => ?_
    rw [latestSource_concat, ← get?_engineAfter cfg _ hname, ← get?_ingest,
      Py.Table.get?_eq_some, and_iff_left rfl]
  generalize calls.map EngineCall.event ++ [event] = events at hevents hrow
  have hnodup : ((latestSource events "bitbank_ticker_mid").toList ++
      (latestSource events "bitbank_ticker_last").toList).Nodup := by
    refine List.nodup_append.mpr ⟨?_, ?_, ?_⟩
    · cases latestSource events "bitbank_ticker_mid" <;> simp
    · cases latestSource events "bitbank_ticker_last" <;> simp
    · intro a ha b hb hab
      have hmid := (latestSource_spec (Option.mem_toList.mp ha)).1
      have hlast := (latestSource_spec (Option.mem_toList.mp hb)).1
      rw [← hab, hmid] at hlast
      exact absurd hlast (by decide)
  refine (List.perm_ext_iff_of_nodup (Py.Table.nodup _).of_map hnodup).mpr fun s => ?_
  rw [hrow, List.mem_append, Option.mem_toList, Option.mem_toList]
  constructor
  · rintro ⟨-, hlatest⟩
    rcases (latestSource_ticker hevents hlatest).2 with hname | hname
    · exact Or.inl (hname ▸ hlatest)
    · exact Or.inr (hname ▸ hlatest)
  · rintro (hlatest | hlatest)
    · have hname := (latestSource_spec hlatest).1
      exact ⟨by rw [hname]; decide, hname.symm ▸ hlatest⟩
    · have hname := (latestSource_spec hlatest).1
      exact ⟨by rw [hname]; decide, hname.symm ▸ hlatest⟩

theorem valid_iff_of_agree {a b : Except Py.Error FairPriceState} (h : AgreeUpToOrder a b) :
    (∃ st, a = .ok st ∧ st.isValid = true) ↔ ∃ st, b = .ok st ∧ st.isValid = true := by
  cases a with
  | error e =>
      cases b with
      | error f => simp
      | ok st => exact absurd h id
  | ok st =>
      cases b with
      | error f => exact absurd h id
      | ok st' =>
          obtain ⟨-, -, -, hvalid, -⟩ := h
          simp [hvalid]

/-- **Without a book and external sources, a valid state is the ticker counted twice.** -/
theorem valid_iff_tickerTwice (hmin : 2 ≤ cfg.fair.minSourceCount)
    (hevents : NoExternal (calls.map EngineCall.event ++ [event]))
    (hbook : sourceFromOrderbook cfg.market book nowMs = .ok none) :
    (∃ st, EngineCall.result cfg calls ⟨book, event, nowMs⟩ = .ok st ∧ st.isValid = true) ↔
      TickerTwice cfg.fair (calls.map EngineCall.event ++ [event]) nowMs := by
  have hresult : EngineCall.result cfg calls ⟨book, event, nowMs⟩
      = fromSources cfg.fair (((engineAfter cfg calls).ingest event).settle none).rows nowMs := by
    unfold EngineCall.result
    simp only [fromMarketEvent_returns hbook]
  rw [hresult, valid_iff_of_agree (fromSources_perm (rows_of_tickers cfg calls event hevents))]
  generalize calls.map EngineCall.event ++ [event] = events at hevents
  have hfew : ∀ l : List FairPriceSource, l.length ≤ 1 →
      ¬ ∃ st, fromSources cfg.fair l nowMs = .ok st ∧ st.isValid = true :=
    fun l hl => not_valid_of_few hmin ((List.length_filter_le _ _).trans hl)
  unfold TickerTwice
  cases hmid : latestSource events "bitbank_ticker_mid" with
  | none =>
      refine iff_of_false (hfew _ ?_) ?_
      · cases latestSource events "bitbank_ticker_last" <;> simp
      · rintro ⟨-, _, _, h, -⟩
        cases h
  | some mid =>
      cases hlast : latestSource events "bitbank_ticker_last" with
      | none =>
          refine iff_of_false (hfew _ (by simp)) ?_
          rintro ⟨-, _, _, -, h, -⟩
          cases h
      | some last =>
          have hpair := @valid_pair_iff nowMs cfg.fair mid last (latestSource_ticker hevents hmid).1
            (latestSource_ticker hevents hlast).1 hmin
          refine hpair.trans ⟨?_, ?_⟩
          · rintro ⟨hcount, hfa, hfb, hgap⟩
            exact ⟨hcount, mid, last, rfl, rfl, hfa, hfb, hgap⟩
          · rintro ⟨hcount, mid', last', hmid', hlast', hfa, hfb, hgap⟩
            rw [Option.some.inj hmid', Option.some.inj hlast']
            exact ⟨hcount, hfa, hfb, hgap⟩

/-- At every call of a run, no book means no valid state. -/
def NeedsBook (cfg : Config) (calls : List EngineCall) : Prop :=
  Past.Each (fun before call =>
    (∀ s, sourceFromOrderbook cfg.market call.book call.nowMs ≠ .ok (some s)) →
      ¬ ∃ st, call.result cfg before = .ok st ∧ st.isValid = true) calls

/-- **Ticker runs need the book exactly when no bookless call finds the ticker twice.** -/
theorem needsBook_iff (cfg : Config) (calls : List EngineCall)
    (hmin : 2 ≤ cfg.fair.minSourceCount) (hevents : NoExternal (calls.map EngineCall.event)) :
    NeedsBook cfg calls ↔
      Past.Each (fun before call =>
        sourceFromOrderbook cfg.market call.book call.nowMs = .ok none →
          ¬ TickerTwice cfg.fair (before.map EngineCall.event ++ [call.event]) call.nowMs)
        calls := by
  unfold NeedsBook Past.Each
  refine forall_congr' fun before => forall_congr' fun call => forall_congr' fun after =>
    forall_congr' fun hcalls => ?_
  have hpast : NoExternal (before.map EngineCall.event ++ [call.event]) := by
    intro e he
    refine hevents e ?_
    rw [hcalls, List.map_append, List.map_cons]
    rw [List.mem_append, List.mem_cons]
    rw [List.mem_append, List.mem_singleton] at he
    exact he.imp_right Or.inl
  cases hbook : sourceFromOrderbook cfg.market call.book call.nowMs with
  | error e =>
      -- nothing is returned where the book raises
      refine iff_of_true (fun _ => ?_) fun hok => ?_
      · rintro ⟨st, h, -⟩
        unfold EngineCall.result at h
        rw [fromMarketEvent_raises hbook] at h
        cases h
      · rw [hbook] at hok
        cases hok
  | ok bookSource =>
      cases bookSource with
      | some s =>
          refine iff_of_true (fun hnone => absurd hbook (hnone s)) fun hok => ?_
          rw [hbook] at hok
          cases hok
      | none =>
          have hiff := valid_iff_tickerTwice hmin hpast hbook
          constructor
          · intro h _ htwice
            refine h (fun s hs => ?_) (hiff.mpr htwice)
            rw [hbook] at hs
            cases hs
          · intro h _ hvalid
            exact h hbook (hiff.mp hvalid)

/-- A ticker at a time. -/
def tickerAt (payload : TickerPayload) (ts : ℚ) : Event :=
  ⟨"", ts, ts, "bitbank", "BTC/JPY", .absent, .bitbankTicker payload⟩

/-- A quoted ticker alone does not make two sources. -/
theorem needsBook_of_one_ticker :
    NeedsBook { fair := { minSourceCount := 2 } }
      [⟨{}, tickerAt { buy := some 99, sell := some 101 } 1000, 1000⟩] := by
  refine (needsBook_iff _ _ (by decide) ?_).mpr ?_
  · intro e he payload
    rw [List.map_singleton, List.mem_singleton] at he
    subst he
    simp [tickerAt]
  · refine Past.each_cons.mpr ⟨fun _ => ?_, Past.each_nil⟩
    rintro ⟨-, mid, last, -, hlast, -⟩
    have hnone : latestSource [tickerAt { buy := some 99, sell := some 101 } 1000]
        "bitbank_ticker_last" = none := by decide +kernel
    cases hnone.symm.trans hlast

/-- A quoted ticker and one with a last price only make two sources without a book. -/
theorem ticker_counted_twice :
    ¬ ∀ (cfg : Config) (calls : List EngineCall), 2 ≤ cfg.fair.minSourceCount →
      NoExternal (calls.map EngineCall.event) → NeedsBook cfg calls := by
  intro h
  have hruns := h { fair := { minSourceCount := 2 } }
    [⟨{}, tickerAt { buy := some 99, sell := some 101 } 1000, 1000⟩,
     ⟨{}, tickerAt { last := some 100 } 1001, 1001⟩] (by decide) (by
      intro e he payload
      simp only [List.map_cons, List.map_nil, List.mem_cons, List.not_mem_nil, or_false] at he
      rcases he with rfl | rfl <;> simp [tickerAt])
  refine (Past.each_cons.mp (Past.each_cons.mp hruns).2).1 (fun s => ?_) ?_
  · simp [sourceFromOrderbook]
  · exact ⟨⟨some 100, 2, some 200, true, none, ["bitbank_ticker_mid", "bitbank_ticker_last"],
      some 0⟩, by decide +kernel, rfl⟩

/-! ### One timestamp for two legs -/

/-- The ticker has a positive price: a mid, a last price or a close. -/
def CcxtTicker.Priced (ticker : CcxtTicker) : Prop :=
  (∃ bid ask, ticker.bid = some bid ∧ ticker.ask = some ask ∧ 0 < bid ∧ bid < ask) ∨
    (∃ last, ticker.last = some last ∧ 0 < last) ∨ ∃ close, ticker.close = some close ∧ 0 < close

theorem positiveFloat_eq_some {value : Option ℚ} {v : ℚ} :
    positiveFloat value = some v ↔ value = some v ∧ 0 < v := by
  unfold positiveFloat
  rw [Option.filter_eq_some_iff, decide_eq_true_eq]

/-- A ticker that is not quoted has its last price found, or its close. -/
theorem tickerMidOrLast_last {last close : Option ℚ} {label : String} {price : ℚ × Option ℚ}
    (h : tickerMidOrLast { last := last, close := close } label = .ok price) :
    ((∃ v, last = some v ∧ 0 < v) ∨ ∃ v, close = some v ∧ 0 < v) ∧ 0 < price.1 := by
  unfold tickerMidOrLast at h
  simp only at h
  have hnone : positiveFloat none = none := rfl
  rw [hnone] at h
  simp only at h
  split at h
  · rename_i v hlast
    have hpos := positiveFloat_eq_some.mp hlast
    rw [← Except.ok.inj h]
    exact ⟨Or.inl ⟨v, hpos⟩, hpos.2⟩
  · split at h
    · rename_i v hclose
      have hpos := positiveFloat_eq_some.mp hclose
      rw [← Except.ok.inj h]
      exact ⟨Or.inr ⟨v, hpos⟩, hpos.2⟩
    · cases h

/-- A price that is found is positive. -/
theorem tickerMidOrLast_pos {ticker : CcxtTicker} {label : String} {price : ℚ × Option ℚ}
    (h : tickerMidOrLast ticker label = .ok price) : ticker.Priced ∧ 0 < price.1 := by
  have hlast : tickerMidOrLast { last := ticker.last, close := ticker.close } label = .ok price →
      ticker.Priced ∧ 0 < price.1 := fun h =>
    ⟨Or.inr (tickerMidOrLast_last h).1, (tickerMidOrLast_last h).2⟩
  unfold tickerMidOrLast at h
  simp only at h
  split at h
  · rename_i bid ask hbid hask
    have hb := positiveFloat_eq_some.mp hbid
    have ha := positiveFloat_eq_some.mp hask
    split at h
    · rename_i hlt
      rw [← Except.ok.inj h]
      refine ⟨Or.inl ⟨bid, ask, hb.1, ha.1, hb.2, hlt⟩, ?_⟩
      simp only
      linarith [hb.2, ha.2]
    · exact hlast h
  · exact hlast h

/-- A ticker with a positive price has one found. -/
theorem tickerMidOrLast_of_priced {ticker : CcxtTicker} (h : ticker.Priced) (label : String) :
    ∃ price, tickerMidOrLast ticker label = .ok price := by
  unfold tickerMidOrLast
  simp only
  rcases h with ⟨bid, ask, hbid, hask, hpos, hlt⟩ | ⟨last, hlast⟩ | ⟨close, hclose⟩
  · rw [positiveFloat_eq_some.mpr ⟨hbid, hpos⟩, positiveFloat_eq_some.mpr ⟨hask, hpos.trans hlt⟩]
    simp only
    rw [if_pos hlt]
    exact ⟨_, rfl⟩
  · rw [positiveFloat_eq_some.mpr hlast]
    split
    · split
      · exact ⟨_, rfl⟩
      · exact ⟨_, rfl⟩
    · exact ⟨_, rfl⟩
  · rw [positiveFloat_eq_some.mpr hclose]
    split
    · split
      · exact ⟨_, rfl⟩
      · split
        · exact ⟨_, rfl⟩
        · exact ⟨_, rfl⟩
    · split
      · exact ⟨_, rfl⟩
      · exact ⟨_, rfl⟩

variable {rt : Runtime} {clockMs tBtc tFx : ℚ} {btc fx : CcxtTicker}
  {exchangeId btcUsdSymbol usdJpySymbol symbol : String}

/-- Of two positive timestamps the newer one counts. -/
theorem tickerTimestampMs_pair (clockMs : ℚ) (hbtc : btc.timestamp = some tBtc)
    (hfx : fx.timestamp = some tFx) (hbtc0 : 0 < tBtc) (hfx0 : 0 < tFx) :
    tickerTimestampMs clockMs [btc, fx] = max tBtc tFx := by
  have hb := positiveFloat_eq_some.mpr ⟨hbtc, hbtc0⟩
  have hf := positiveFloat_eq_some.mpr ⟨hfx, hfx0⟩
  simp [tickerTimestampMs, hb, hf]

theorem built_of_priced (hbtc : btc.Priced) (hfx : fx.Priced) :
    ∃ event, externalFairEventFromTickers rt clockMs btc fx exchangeId btcUsdSymbol usdJpySymbol
      symbol = .ok event := by
  obtain ⟨btcUsd, hbtcUsd⟩ := tickerMidOrLast_of_priced hbtc btcUsdSymbol
  obtain ⟨usdJpy, husdJpy⟩ := tickerMidOrLast_of_priced hfx usdJpySymbol
  unfold externalFairEventFromTickers
  rw [hbtcUsd, husdJpy]
  exact ⟨_, rfl⟩

/-- A composite event has two priced legs, and its source is as old as the event. -/
theorem source_of_built {event : Event} (h : externalFairEventFromTickers rt clockMs btc fx
      exchangeId btcUsdSymbol usdJpySymbol symbol = .ok event) :
    (btc.Priced ∧ fx.Priced) ∧ ∃ s, sourceOfEvent event = some s ∧
      s.tsMs = tickerTimestampMs clockMs [btc, fx] := by
  unfold externalFairEventFromTickers at h
  cases hbtc : tickerMidOrLast btc btcUsdSymbol with
  | error e =>
      rw [hbtc] at h
      cases h
  | ok btcUsd =>
      cases hfx : tickerMidOrLast fx usdJpySymbol with
      | error e =>
          rw [hbtc, hfx] at h
          cases h
      | ok usdJpy =>
          rw [hbtc, hfx] at h
          obtain ⟨hbtcPriced, hbtcPos⟩ := tickerMidOrLast_pos hbtc
          obtain ⟨hfxPriced, hfxPos⟩ := tickerMidOrLast_pos hfx
          have hpos : 0 < btcUsd.1 * usdJpy.1 := mul_pos hbtcPos hfxPos
          refine ⟨⟨hbtcPriced, hfxPriced⟩, ?_⟩
          rw [← Except.ok.inj h]
          show ∃ s, sourceFromExternalFair _ _ = some s ∧ _
          simp [sourceFromExternalFair, externalFairJpy, positivePayloadFloat,
            Option.filter_some, hpos, makeEvent]

/-- Whenever the composite counts as fresh, both of its legs are. -/
def BothLegsFresh (built : Except CcxtGatewayError Event) (cfg : FairConfig)
    (nowMs tBtc tFx : ℚ) : Prop :=
  ∀ event s sources, built = .ok event → sourceOfEvent event = some s →
    s ∈ freshSources cfg nowMs sources →
    nowMs - tBtc ≤ cfg.maxSourceAgeMs ∧ nowMs - tFx ≤ cfg.maxSourceAgeMs

/-- **Fresh composites have fresh legs exactly when the age limit does not part the legs.** -/
theorem bothLegsFresh_iff (rt : Runtime) (clockMs : ℚ) (btc fx : CcxtTicker)
    (exchangeId btcUsdSymbol usdJpySymbol symbol : String) (cfg : FairConfig)
    (nowMs tBtc tFx : ℚ) (hbtc : btc.timestamp = some tBtc) (hfx : fx.timestamp = some tFx)
    (hbtc0 : 0 < tBtc) (hfx0 : 0 < tFx) :
    BothLegsFresh (externalFairEventFromTickers rt clockMs btc fx exchangeId btcUsdSymbol
        usdJpySymbol symbol) cfg nowMs tBtc tFx ↔
      (btc.Priced ∧ fx.Priced →
        (nowMs - tBtc ≤ cfg.maxSourceAgeMs ↔ nowMs - tFx ≤ cfg.maxSourceAgeMs)) := by
  have hmax := tickerTimestampMs_pair clockMs hbtc hfx hbtc0 hfx0
  have hfresh : ∀ {s : FairPriceSource}, s.tsMs = max tBtc tFx →
      (s.isFresh cfg nowMs = true ↔
        nowMs - tBtc ≤ cfg.maxSourceAgeMs ∨ nowMs - tFx ≤ cfg.maxSourceAgeMs) := by
    intro s hs
    unfold FairPriceSource.isFresh
    rw [decide_eq_true_eq, hs]
    rcases le_total tBtc tFx with hle | hle
    · rw [max_eq_right hle]
      exact ⟨Or.inr, fun h => h.elim (fun h => by linarith) id⟩
    · rw [max_eq_left hle]
      exact ⟨Or.inl, fun h => h.elim id fun h => by linarith⟩
  constructor
  · rintro hclaim ⟨hbtcPriced, hfxPriced⟩
    obtain ⟨event, hevent⟩ := built_of_priced hbtcPriced hfxPriced
    obtain ⟨-, s, hs, hts⟩ := source_of_built hevent
    have hboth : s.isFresh cfg nowMs = true →
        nowMs - tBtc ≤ cfg.maxSourceAgeMs ∧ nowMs - tFx ≤ cfg.maxSourceAgeMs := fun hf =>
      hclaim event s [s] hevent hs (List.mem_filter.mpr ⟨List.mem_singleton_self s, hf⟩)
    rw [hfresh (hts.trans hmax)] at hboth
    exact ⟨fun h => (hboth (Or.inl h)).2, fun h => (hboth (Or.inr h)).1⟩
  · intro hsides event s sources hevent hs hmem
    obtain ⟨hpriced, s', hs', hts⟩ := source_of_built hevent
    obtain rfl : s = s' := Option.some.inj (hs.symm.trans hs')
    have hsame := hsides hpriced
    rcases (hfresh (hts.trans hmax)).mp (List.mem_filter.mp hmem).2 with h | h
    · exact ⟨h, hsame.mp h⟩
    · exact ⟨hsame.mpr h, h⟩

/-- A runtime whose texts nothing reads. -/
def plainRuntime : Runtime := ⟨fun _ => 1, fun _ _ _ _ _ => "", fun _ => none⟩

/-- Legs one second apart are both fresh together. -/
theorem bothLegsFresh_of_near :
    BothLegsFresh (externalFairEventFromTickers plainRuntime 0
        { last := some 100, timestamp := some 9000 } { last := some 150, timestamp := some 10000 }
        "kraken" "BTC/USD" "USD/JPY" "BTC/JPY") {} 10000 9000 10000 :=
  (bothLegsFresh_iff _ _ _ _ _ _ _ _ _ _ _ _ rfl rfl (by norm_num) (by norm_num)).mpr
    fun _ => by decide +kernel

/-- A fresh leg hides one that is far older than the age limit. -/
theorem old_leg_hidden :
    ¬ ∀ (rt : Runtime) (clockMs : ℚ) (btc fx : CcxtTicker)
      (exchangeId btcUsdSymbol usdJpySymbol symbol : String) (cfg : FairConfig)
      (nowMs tBtc tFx : ℚ), btc.timestamp = some tBtc → fx.timestamp = some tFx →
      0 < tBtc → 0 < tFx →
      BothLegsFresh (externalFairEventFromTickers rt clockMs btc fx exchangeId btcUsdSymbol
        usdJpySymbol symbol) cfg nowMs tBtc tFx := by
  intro h
  have hlegs := h plainRuntime 0 { last := some 100, timestamp := some 10000 }
    { last := some 150, timestamp := some 1 } "kraken" "BTC/USD" "USD/JPY" "BTC/JPY" {}
    10000 10000 1 rfl rfl (by norm_num) (by norm_num)
    (⟨"", 10000, 10000, "ccxt:kraken", "BTC/JPY", .absent,
      .externalFairPrice
        { source := some "external_btc_usd_jpy", btcUsd := some (some 100),
          usdJpy := some (some 150), fairJpy := some (some 15000),
          confidence := some (8 / 10) }⟩)
    ⟨"external_btc_usd_jpy", 15000, 10000, none, 8 / 10⟩
    [⟨"external_btc_usd_jpy", 15000, 10000, none, 8 / 10⟩]
    (by decide +kernel) (by decide +kernel) (by decide +kernel)
  exact absurd hlegs.2 (by decide +kernel)

end GhostAmm
