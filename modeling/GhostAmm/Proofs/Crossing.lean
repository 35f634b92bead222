/-
Whether the bot crosses itself.

`sync` leaves under the key of each quote it acts on either the order it found there, at
the price that order had, or a new order at the price of the quote.  Two kept orders do not
cross because they did not before, and two new ones because one ladder does not cross
itself.  What is left is a kept order of one side and a new one of the other, and nothing
in `sync` looks at the two together: they are priced from different fairs and skews.
-/
import GhostAmm.Lib.Streams
import GhostAmm.Proofs.Ladder
import GhostAmm.Proofs.Step
import GhostAmm.Proofs.Sync

namespace GhostAmm

namespace OrderProjector

/-! ### When the orders of the two sides cross -/

/-- Every active buy order is priced below every active sell order. -/
def Uncrossed (self : OrderProjector) : Prop :=
  ∀ bid ∈ self.active.rows, ∀ ask ∈ self.active.rows, bid.side = .buy → ask.side = .sell →
    bid.price < ask.price

instance (self : OrderProjector) : Decidable self.Uncrossed := by
  unfold Uncrossed
  infer_instance

/-- The price under the key of a quote, given the order that stays for it. -/
def standingPrice (quote : Quote) (stays : Option ActiveVirtualOrder) : ℚ :=
  (stays.map ActiveVirtualOrder.price).getD quote.price

section Sync

variable {rt : Runtime} {cfg : ExecutionConfig} {market : Market} {self : OrderProjector}
  {input : SyncInput}

theorem StandsFor.price_eq {nowMs : ℚ} {quote : Quote} {stays : Option ActiveVirtualOrder}
    {order : ActiveVirtualOrder} (h : StandsFor cfg nowMs quote stays order) :
    order.price = standingPrice quote stays := by
  cases stays with
  | some existing =>
      obtain rfl := h
      rfl
  | none =>
      obtain ⟨n, rfl⟩ := h
      rfl

/-- No order that stays is crossed by the new order of a quote of the other side. -/
def KeptApart (cfg : ExecutionConfig) (self : OrderProjector) (input : SyncInput) : Prop :=
  ∀ bid ∈ input.desired cfg, ∀ ask ∈ input.desired cfg, bid.side = .buy → ask.side = .sell →
    (∀ order, self.kept cfg input bid = some order → self.kept cfg input ask = none →
      order.price < ask.price) ∧
    (∀ order, self.kept cfg input bid = none → self.kept cfg input ask = some order →
      bid.price < order.price)

/-- No two new orders cross. -/
def NewApart (cfg : ExecutionConfig) (self : OrderProjector) (input : SyncInput) : Prop :=
  ∀ bid ∈ input.desired cfg, ∀ ask ∈ input.desired cfg, bid.side = .buy → ask.side = .sell →
    self.kept cfg input bid = none → self.kept cfg input ask = none → bid.price < ask.price

theorem uncrossed_syncOn (hallow : input.risk.allowQuote = true)
    (hnodup : (input.quotes.map Quote.key).Nodup) :
    (syncOn rt cfg market self input).Uncrossed ↔
      ∀ bid ∈ input.desired cfg, ∀ ask ∈ input.desired cfg, bid.side = .buy → ask.side = .sell →
        standingPrice bid (self.kept cfg input bid)
          < standingPrice ask (self.kept cfg input ask) := by
  have hstands : ∀ quote ∈ input.desired cfg,
      ∃ order, (syncOn rt cfg market self input).active.get? quote.key = some order ∧
        order.price = standingPrice quote (self.kept cfg input quote) := by
    intro quote hquote
    obtain ⟨order, hget, hstands⟩ := get?_syncOn hallow hnodup hquote
    exact ⟨order, hget, hstands.price_eq⟩
  constructor
  · intro h bid hbid ask hask hbuy hsell
    obtain ⟨b, hb, hbprice⟩ := hstands bid hbid
    obtain ⟨a, ha, haprice⟩ := hstands ask hask
    rw [Py.Table.get?_eq_some] at hb ha
    rw [← hbprice, ← haprice]
    refine h b hb.1 a ha.1 ?_ ?_
    · exact (congrArg Prod.fst hb.2).trans hbuy
    · exact (congrArg Prod.fst ha.2).trans hsell
  · intro h b hb a ha hbuy hsell
    obtain ⟨bid, hbid, hbkey⟩ := mem_syncOn hallow hb
    obtain ⟨ask, hask, hakey⟩ := mem_syncOn hallow ha
    obtain ⟨b', hb', hbprice⟩ := hstands bid hbid
    obtain ⟨a', ha', haprice⟩ := hstands ask hask
    rw [Py.Table.get?_eq_some] at hb' ha'
    rw [Py.Table.eq_of_key_eq hb hb'.1 (hbkey.symm.trans hb'.2.symm), hbprice,
      Py.Table.eq_of_key_eq ha ha'.1 (hakey.symm.trans ha'.2.symm), haprice]
    refine h bid hbid ask hask ?_ ?_
    · exact (congrArg Prod.fst hbkey).trans hbuy
    · exact (congrArg Prod.fst hakey).trans hsell

/-- What stays for a quote is an active order of its side. -/
theorem mem_of_kept {quote : Quote} {order : ActiveVirtualOrder}
    (h : self.kept cfg input quote = some order) :
    order ∈ self.active.rows ∧ order.side = quote.side := by
  unfold kept at h
  obtain ⟨hmem, hkey⟩ := Py.Table.get?_eq_some.mp (Option.filter_eq_some_iff.mp h).1
  exact ⟨hmem, congrArg Prod.fst hkey⟩

/-- **Orders that did not cross do not cross after `sync` exactly when it keeps them apart.** -/
theorem uncrossed_syncOn_iff (huncrossed : self.Uncrossed)
    (hnodup : (input.quotes.map Quote.key).Nodup) :
    (syncOn rt cfg market self input).Uncrossed ↔
      (input.risk.allowQuote = true → self.KeptApart cfg input ∧ self.NewApart cfg input) := by
  by_cases hallow : input.risk.allowQuote = true
  · simp only [hallow, true_implies]
    rw [uncrossed_syncOn hallow hnodup]
    constructor
    · intro h
      refine ⟨fun bid hbid ask hask hbuy hsell => ⟨fun order hb ha => ?_, fun order hb ha => ?_⟩,
        fun bid hbid ask hask hbuy hsell hb ha => ?_⟩
      all_goals
        have hlt := h bid hbid ask hask hbuy hsell
        rw [hb, ha] at hlt
        exact hlt
    · rintro ⟨hkept, hnew⟩ bid hbid ask hask hbuy hsell
      obtain ⟨hleft, hright⟩ := hkept bid hbid ask hask hbuy hsell
      cases hb : self.kept cfg input bid with
      | none =>
          cases ha : self.kept cfg input ask with
          | none => exact hnew bid hbid ask hask hbuy hsell hb ha
          | some order => exact hright order hb ha
      | some order =>
          cases ha : self.kept cfg input ask with
          | none => exact hleft order hb ha
          | some order' =>
              -- both were active before
              obtain ⟨hb, hbside⟩ := mem_of_kept hb
              obtain ⟨ha, haside⟩ := mem_of_kept ha
              exact huncrossed order hb order' ha (hbside.trans hbuy) (haside.trans hsell)
  · refine iff_of_true ?_ (fun h => absurd h hallow)
    intro bid hbid
    rw [syncOn_refused (by simpa using hallow)] at hbid
    simp at hbid

end Sync

/-! ### Fills only take orders off -/

theorem mem_of_mem_removeFilled {self : OrderProjector} {orderId : String}
    {order : ActiveVirtualOrder} (h : order ∈ (self.removeFilled orderId).active.rows) :
    order ∈ self.active.rows := by
  unfold removeFilled at h
  split at h
  · exact (Py.Table.mem_erase.mp h).1
  · exact h

theorem Uncrossed.removeAll (fills : List FillPayload) : ∀ {self : OrderProjector},
    self.Uncrossed → (self.removeAll fills).Uncrossed := by
  induction fills with
  | nil => intro self h; exact h
  | cons fill rest ih =>
      intro self h
      refine ih fun bid hbid ask hask => ?_
      exact h bid (mem_of_mem_removeFilled hbid) ask (mem_of_mem_removeFilled hask)

end OrderProjector

namespace Pipeline

/-! ### The call -/

/-- A call that has come to its quotes: the state, the fair price and the shock. -/
structure AtQuotes where
  state : Pipeline
  fairState : FairPriceState
  shockState : ShockState

/-- `process` up to the quotes, `none` where it raises on the way. -/
def beforeQuotes (rt : Runtime) (cfg : Config) (self : Pipeline) (event : Event) :
    Option AtQuotes :=
  match (self.ingestMetadata cfg event).ingestMarket event with
  | (_, .error _) => none
  | (self, .ok ()) =>
      match fromMarketEvent cfg self.sources self.book event event.tsExchange with
      | (_, .error _) => none
      | (sources, .ok fairState) =>
          let (shock, shockState, _) := self.shock.update rt cfg.shock event self.book fairState
          let (fillModel, fillEvents) :=
            self.fillModel.onMarketEvent rt cfg.fillModel event fairState
          let self := { self with
            sources := sources, lastFair := fairState, shock := shock, lastShock := shockState,
            fillModel := fillModel }
          match applyFills cfg self (fills fillEvents) with
          | (_, .error _) => none
          | (self, .ok ()) => some ⟨self, fairState, shockState⟩

namespace AtQuotes

/-- The quote surface of the call. -/
def surface (cfg : Config) (self : AtQuotes) : QuoteSurface :=
  QuoteSurface.fromConfig cfg.amm self.state.pairSpec

/-- What the quote surface is asked for at a fair price. -/
def request (cfg : Config) (self : AtQuotes) (fair : ℚ) : QuoteSurface.Request where
  fair := fair
  inventorySkew := (self.state.inventory.skew cfg.inventory (some fair)).getD 0
  bidActivation := self.shockState.bidActivation
  askActivation := self.shockState.askActivation
  shockEventId := self.shockState.lastShockEventId
  shockDirection := self.shockState.direction
  shockAgeMs := self.shockState.shockAgeMs

/-- What `sync` is called on. -/
def syncInput (rt : Runtime) (cfg : Config) (self : AtQuotes) (event : Event) :
    OrderProjector.SyncInput where
  quotes := self.state.quotes rt cfg self.fairState self.shockState
  book := self.state.book
  risk := (self.state.risk.evaluate cfg
    (self.state.riskInput event self.fairState self.shockState)).2
  nowMs := event.tsExchange

variable {rt : Runtime} {cfg : Config} {self : AtQuotes} {event : Event}

/-- The quotes are one ladder, or none. -/
theorem quotes_eq : self.state.quotes rt cfg self.fairState self.shockState = [] ∨
    ∃ fair, self.fairState.isValid = true ∧ self.fairState.fair = some fair ∧
      self.state.quotes rt cfg self.fairState self.shockState
        = (self.surface cfg).generate rt (self.request cfg fair) := by
  unfold quotes
  split
  · rename_i fair hvalid hfair
    exact Or.inr ⟨fair, hvalid, hfair, rfl⟩
  · exact Or.inl rfl

theorem nodup_keys_quotes :
    (((self.syncInput rt cfg event).quotes).map Quote.key).Nodup := by
  rcases @quotes_eq rt cfg self with hquotes | ⟨fair, -, -, hquotes⟩
  · show ((self.state.quotes rt cfg _ _).map Quote.key).Nodup
    rw [hquotes]
    exact List.nodup_nil
  · show ((self.state.quotes rt cfg _ _).map Quote.key).Nodup
    rw [hquotes]
    exact QuoteSurface.nodup_keys_generate

end AtQuotes

/-- The fills that are paid take their orders off, also where the next cannot be paid. -/
theorem applyFills_projector (cfg : Config) (fills : List FillPayload) (self : Pipeline) :
    ∃ paid, (applyFills cfg self fills).1.projector = self.projector.removeAll paid := by
  rcases applyFills_cases cfg fills self with hall | ⟨paid, fill, rest, -, hstopped⟩
  · rw [hall]
    exact ⟨fills, rfl⟩
  · rw [hstopped]
    exact ⟨paid, rfl⟩

/-- The orders a call leaves where it does not come to its quotes, and where it does. -/
theorem process_projector (rt : Runtime) (cfg : Config) (s : Pipeline) (event : Event) :
    ∃ paid, match beforeQuotes rt cfg s event with
      | none => (process rt cfg s event).1.projector = s.projector.removeAll paid
      | some call => call.state.projector = s.projector.removeAll paid ∧
          (process rt cfg s event).1.projector = call.state.projector.syncOn rt cfg.execution
            (market cfg) (call.syncInput rt cfg event) := by
  obtain ⟨-, -, -, -, hprojector, -⟩ := ingestMetadata_frame cfg s event
  obtain ⟨risk, hmarket⟩ := ingestMarket_eq (s.ingestMetadata cfg event) event
  unfold beforeQuotes process
  rw [hmarket]
  generalize (s.ingestMetadata cfg event).book.applyEvent event = applied
  obtain ⟨book, result⟩ := applied
  cases result with
  | error e => exact ⟨[], hprojector⟩
  | ok _ =>
      dsimp only
      generalize fromMarketEvent cfg _ book event event.tsExchange = fair
      obtain ⟨sources, result⟩ := fair
      cases result with
      | error e => exact ⟨[], hprojector⟩
      | ok fairState =>
          dsimp only
          generalize happly : applyFills cfg _ _ = applied
          obtain ⟨paid, hpaid⟩ := applyFills_projector cfg _ _
          rw [happly] at hpaid
          obtain ⟨filled, result⟩ := applied
          refine ⟨paid, ?_⟩
          rw [← hprojector]
          cases result with
          | error e => exact hpaid
          | ok _ =>
              refine ⟨hpaid, ?_⟩
              obtain ⟨decision, projector, projectorEvents, riskEvent, live, rfl, hsync,
                hrequote, -⟩ := requote_eq rt cfg filled event fairState _
              dsimp only
              rw [hrequote]
              exact (congrArg Prod.fst hsync).symm

/-! ### The run -/

/-- The tick is smaller than the gap of the ladder the call quotes, if it quotes one. -/
def TickFits (rt : Runtime) (cfg : Config) (s : Pipeline) (event : Event) : Prop :=
  ∀ call ∈ beforeQuotes rt cfg s event, ∀ fair ∈ call.fairState.fair,
    call.fairState.isValid = true →
      (call.surface cfg).tickSize < (call.surface cfg).gap rt (call.request cfg fair)

instance (rt : Runtime) (cfg : Config) (s : Pipeline) (event : Event) :
    Decidable (TickFits rt cfg s event) := by
  unfold TickFits
  infer_instance

/--
The two sides stay apart in a call: no order it keeps is crossed by a new order of the other
side, and no two new ones cross where the tick does not keep its multiples apart.
-/
def SidesApart (rt : Runtime) (cfg : Config) (s : Pipeline) (event : Event) : Prop :=
  ∀ call ∈ beforeQuotes rt cfg s event, (call.syncInput rt cfg event).risk.allowQuote = true →
    call.state.projector.KeptApart cfg.execution (call.syncInput rt cfg event) ∧
    (¬ RoundsApart (call.surface cfg).tickSize →
      call.state.projector.NewApart cfg.execution (call.syncInput rt cfg event))

variable {rt : Runtime} {cfg : Config}

/-- With a pair spec in force it is only the orders a call keeps that can be crossed. -/
theorem sidesApart_iff_of_pairSpec {s : Pipeline} {event : Event}
    (hspec : ∀ call ∈ beforeQuotes rt cfg s event, ∃ spec, call.state.pairSpec = some spec) :
    SidesApart rt cfg s event ↔ ∀ call ∈ beforeQuotes rt cfg s event,
      (call.syncInput rt cfg event).risk.allowQuote = true →
        call.state.projector.KeptApart cfg.execution (call.syncInput rt cfg event) := by
  unfold SidesApart
  refine forall_congr' fun call => forall_congr' fun hcall => forall_congr' fun _ => ?_
  obtain ⟨spec, hspec⟩ := hspec call hcall
  have htick : RoundsApart (call.surface cfg).tickSize := by
    show RoundsApart ((call.state.pairSpec.map BitbankPairSpec.tickSize).getD _)
    rw [hspec]
    exact roundsApart_tickSize spec
  exact and_iff_left fun hcoarse => absurd htick hcoarse

/-- The new orders of a call are of one ladder. -/
theorem newApart_of_tickFits {call : AtQuotes} {event : Event} (hexp : StrictMono rt.exp)
    (hhalf : 0 < cfg.amm.halfSpreadBps) (hstep : 0 ≤ cfg.amm.stepBps)
    (hfits : ∀ fair ∈ call.fairState.fair, call.fairState.isValid = true →
      (call.surface cfg).tickSize < (call.surface cfg).gap rt (call.request cfg fair))
    (htick : RoundsApart (call.surface cfg).tickSize) :
    call.state.projector.NewApart cfg.execution (call.syncInput rt cfg event) := by
  intro bid hbid ask hask hbuy hsell _ _
  have hbid : bid ∈ call.state.quotes rt cfg call.fairState call.shockState :=
    (OrderProjector.mem_desired hbid).1
  have hask : ask ∈ call.state.quotes rt cfg call.fairState call.shockState :=
    (OrderProjector.mem_desired hask).1
  rcases @AtQuotes.quotes_eq rt cfg call with hquotes | ⟨fair, hvalid, hfair, hquotes⟩
  · rw [hquotes] at hbid
    simp at hbid
  · rw [hquotes] at hbid hask
    exact QuoteSurface.generate_apart hexp hhalf hstep (hfits fair hfair hvalid) htick hbid hask
      hbuy hsell

/-- A call leaves uncrossed orders uncrossed exactly when the sides stay apart in it. -/
theorem process_uncrossed_iff (hexp : StrictMono rt.exp) (hhalf : 0 < cfg.amm.halfSpreadBps)
    (hstep : 0 ≤ cfg.amm.stepBps) {s : Pipeline} {event : Event}
    (hfits : TickFits rt cfg s event) (huncrossed : s.projector.Uncrossed) :
    (process rt cfg s event).1.projector.Uncrossed ↔ SidesApart rt cfg s event := by
  obtain ⟨paid, hcall⟩ := process_projector rt cfg s event
  have hpaid := huncrossed.removeAll paid
  unfold SidesApart
  unfold TickFits at hfits
  cases hbefore : beforeQuotes rt cfg s event with
  | none =>
      rw [hbefore] at hcall
      simp only at hcall
      rw [hcall]
      exact iff_of_true hpaid (fun call hnone => absurd hnone (by simp))
  | some call =>
      rw [hbefore] at hcall hfits
      obtain ⟨hstart, hafter⟩ := hcall
      rw [← hstart] at hpaid
      rw [hafter, OrderProjector.uncrossed_syncOn_iff hpaid AtQuotes.nodup_keys_quotes]
      simp only [Option.mem_some_iff, forall_eq']
      refine forall_congr' fun _ => and_congr_right fun _ => ?_
      constructor
      · intro hnew _
        exact hnew
      · intro hnew
        by_cases htick : RoundsApart (call.surface cfg).tickSize
        · exact newApart_of_tickFits hexp hhalf hstep (hfits call rfl) htick
        · exact hnew htick

/--
**When the bot never crosses itself.**  Whatever the events, calls that raise among them: the
active buy orders are priced below the active sell orders after every call exactly when the
two sides stay apart in every call.
-/
theorem never_crosses_itself_iff (hexp : StrictMono rt.exp) (hhalf : 0 < cfg.amm.halfSpreadBps)
    (hstep : 0 ≤ cfg.amm.stepBps) {events : List Event}
    (hfits : Past.Each (fun past event => TickFits rt cfg (after rt cfg past) event) events) :
    Past.Each (fun past event => (after rt cfg (past ++ [event])).projector.Uncrossed) events ↔
      Past.Each (fun past event => SidesApart rt cfg (after rt cfg past) event) events := by
  induction events using List.reverseRecOn with
  | nil => exact iff_of_true Past.each_nil Past.each_nil
  | append_singleton events event ih =>
      rw [Past.each_concat] at hfits
      rw [Past.each_concat, Past.each_concat, ih hfits.1]
      refine and_congr_right fun hapart => ?_
      have huncrossed : (after rt cfg events).projector.Uncrossed := by
        have hall := (ih hfits.1).mpr hapart
        rcases List.eq_nil_or_concat events with rfl | ⟨past, last, rfl⟩
        · intro bid hbid
          simp [after, init] at hbid
        · rw [List.concat_eq_append] at hall ⊢
          exact (Past.each_concat.mp hall).2
      rw [after_concat]
      exact process_uncrossed_iff hexp hhalf hstep hfits.2 huncrossed

/-! ### A kept bid and a new ask

Both sides are quoted and then the fair price falls below the bid, which stays because it is
young.  A buy that takes the ask makes room for a new one, and the new one is priced from the
new fair.
-/

/-- One level ten basis points from the fair price, quoted on both sides, with a replace
interval. -/
def patientConfig (replaceIntervalMs : ℚ) : Config where
  execution := { minQuoteReplaceIntervalMs := replaceIntervalMs, quoteTtlMs := 30000 }
  market := { maxSpreadBps := 200, minDepth20bpsJpy := 0 }
  amm := { levels := 1, baseOrderSize := 2 / 1000, halfSpreadBps := 10, stepBps := 0,
           skewStrengthBps := 0, sizeSkewStrength := 0 }
  shock := { threshold := 1 / 100, temperature := 0, minimumWaitAfterShockMs := 0,
             oppositeSideActivationRatio := 1 }
  fillModel := { queueAheadMultiplier := 0, minRestingTimeMs := 0 }

/-- A pair, a book, a sell that brings the quotes out, a fall and a buy that takes the ask. -/
def fallThenBuy : List Event :=
  [pairSpecEvent 1000, snapshotEvent 1000 1 10000000 10000002, sellEvent 1000 10000000 (1 / 10),
    snapshotEvent 2000 2 9900000 10000000,
    marketEvent 2000 .absent (.trade { side := some .buy, price := 10010010, amount := 1 })]

theorem never_crosses_itself_without_interval :
    Past.Each (fun past event => SidesApart seriesRuntime (patientConfig 0)
      (after seriesRuntime (patientConfig 0) past) event) fallThenBuy :=
  (never_crosses_itself_iff strictMono_series (by decide +kernel) (by decide +kernel)
    (by decide +kernel)).mp (by decide +kernel)

/-- A kept bid stands above a new ask. -/
theorem crosses_itself_after_a_fall :
    ¬ ∀ (rt : Runtime) (cfg : Config) (events : List Event), StrictMono rt.exp →
        0 < cfg.amm.halfSpreadBps → 0 ≤ cfg.amm.stepBps →
        Past.Each (fun past event => TickFits rt cfg (after rt cfg past) event) events →
        Past.Each (fun past event => (after rt cfg (past ++ [event])).projector.Uncrossed)
          events := by
  intro h
  have hcrossed := h seriesRuntime (patientConfig 10000) fallThenBuy strictMono_series
    (by decide +kernel) (by decide +kernel) (by decide +kernel)
  have hnot : ¬ Past.Each (fun past event =>
      (after seriesRuntime (patientConfig 10000) (past ++ [event])).projector.Uncrossed)
        fallThenBuy := by
    decide +kernel
  exact hnot hcrossed

end Pipeline

end GhostAmm
