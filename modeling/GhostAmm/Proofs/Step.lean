/-
What one call of `process` does.

`process` threads one state through eight components, and can raise at three places.
`Course` has a case for each way a call can go, and `process_course` opens `process` for
all of them.  `Processed` is the account of a call that did not raise: for each component
what it was given and what it left, in terms of the states before and after the call and
of nothing in between.  Every invariant of the runs starts from it.

The fills are paid one after the other, and each payment is checked before the next
is made, so whether a call raises is decided by the balances the fills go through:
`successive` lists them.
-/
import GhostAmm.Model.Pipeline
import GhostAmm.Proofs.Fills
import GhostAmm.Proofs.Orders

namespace GhostAmm

/-- The states a fold goes through, without the first. -/
def successive {σ α : Type} (f : σ → α → σ) : σ → List α → List σ
  | _, [] => []
  | s, a :: rest => f s a :: successive f (f s a) rest

theorem successive_map {σ α β : Type} (f : σ → β → σ) (g : α → β) :
    ∀ (l : List α) (s : σ), successive f s (l.map g) = successive (fun s a => f s (g a)) s l := by
  intro l
  induction l with
  | nil => intro s; rfl
  | cons a rest ih =>
      intro s
      rw [List.map_cons, successive, successive, ih]

theorem foldl_mem_successive {σ α : Type} (f : σ → α → σ) : ∀ (l : List α) (s : σ), l ≠ [] →
    l.foldl f s ∈ successive f s l := by
  intro l
  induction l with
  | nil => intro s h; exact absurd rfl h
  | cons a rest ih =>
      intro s _
      rw [List.foldl_cons, successive]
      by_cases hrest : rest = []
      · rw [hrest]
        exact List.mem_cons_self
      · exact List.mem_cons_of_mem _ (ih _ hrest)

/-- What `apply_fill` does to the balances for a fill event. -/
def InventoryState.pay (self : InventoryState) (fill : FillPayload) : InventoryState :=
  self.fill fill.side fill.fillPrice fill.fillSize fill.fee

/-- The risk kernel after some fills. -/
def RiskKernel.recordFills (cfg : RiskConfig) (self : RiskKernel) (fills : List FillPayload) :
    RiskKernel :=
  fills.foldl (fun kernel fill =>
    kernel.recordFill cfg fill.side fill.fillTs fill.fillPrice fill.fillSize) self

namespace Pipeline

theorem after_concat (rt : Runtime) (cfg : Config) (events : List Event) (event : Event) :
    after rt cfg (events ++ [event]) = (process rt cfg (after rt cfg events) event).1 := by
  unfold after
  rw [List.foldl_append, List.foldl_cons, List.foldl_nil]

/-! ### Metadata and market data -/

/-- The book after the event. -/
def bookAfter (self : Pipeline) (event : Event) : OrderBook := (self.book.applyEvent event).1

/-- What the fair price engine makes of the event. -/
def fairOutcome (cfg : Config) (self : Pipeline) (event : Event) :
    Except Py.Error FairPriceState :=
  (fromMarketEvent cfg self.sources (self.bookAfter event) event event.tsExchange).2

/-- What `ingestMetadata` leaves alone. -/
theorem ingestMetadata_frame (cfg : Config) (self : Pipeline) (event : Event) :
    (self.ingestMetadata cfg event).inventory = self.inventory ∧
    (self.ingestMetadata cfg event).book = self.book ∧
    (self.ingestMetadata cfg event).sources = self.sources ∧
    (self.ingestMetadata cfg event).shock = self.shock ∧
    (self.ingestMetadata cfg event).projector = self.projector ∧
    (self.ingestMetadata cfg event).fillModel.orders = self.fillModel.orders := by
  unfold ingestMetadata
  cases event.body with
  | bitbankPairSpec payload =>
      simp only
      split <;> exact ⟨rfl, rfl, rfl, rfl, rfl, rfl⟩
  | bitbankStatus payload =>
      simp only
      split <;> exact ⟨rfl, rfl, rfl, rfl, rfl, rfl⟩
  | _ => exact ⟨rfl, rfl, rfl, rfl, rfl, rfl⟩

/-- `ingestMarket` changes the book and the risk kernel and nothing else. -/
theorem ingestMarket_eq (self : Pipeline) (event : Event) :
    ∃ risk, self.ingestMarket event
      = ({ self with book := (self.book.applyEvent event).1, risk := risk },
         (self.book.applyEvent event).2) := by
  unfold ingestMarket
  cases hbody : event.body with
  | trade payload =>
      have hbook : self.book.applyEvent event = (self.book, .ok ()) := by
        unfold OrderBook.applyEvent
        rw [hbody]
      rw [hbook]
      exact ⟨_, rfl⟩
  | _ => exact ⟨self.risk, rfl⟩

/-! ### The fills -/

/-- **A list of fills is paid unless one of the balances on the way is negative.** -/
theorem applyFills_result (cfg : Config) (fills : List FillPayload) : ∀ (self : Pipeline),
    (applyFills cfg self fills).2
      = if cfg.inventory.negativeBalancesAllowed = false ∧
          ∃ b ∈ successive InventoryState.pay self.inventory fills, b.isNegative = true
        then .error InventoryState.negativeBalances else .ok () := by
  induction fills with
  | nil => intro self; simp [applyFills, successive]
  | cons fill rest ih =>
      intro self
      have hpay : self.inventory.fill fill.side fill.fillPrice fill.fillSize fill.fee
          = self.inventory.pay fill := rfl
      unfold applyFills InventoryState.applyFill
      rw [successive, hpay]
      by_cases hneg : cfg.inventory.negativeBalancesAllowed = false ∧
          (self.inventory.pay fill).isNegative = true
      · rw [if_pos (by simp [hneg]), if_pos ⟨hneg.1, _, List.mem_cons_self, hneg.2⟩]
      · have hguard : ¬ (!cfg.inventory.negativeBalancesAllowed &&
            (self.inventory.pay fill).isNegative) = true := by
          intro h
          rw [Bool.and_eq_true, Bool.not_eq_true'] at h
          exact hneg h
        rw [if_neg hguard]
        simp only
        rw [ih]
        refine if_congr (and_congr_right fun hallowed => ?_) rfl rfl
        rw [List.exists_mem_cons_iff]
        exact ⟨Or.inr, fun h => h.resolve_left fun hb => hneg ⟨hallowed, hb⟩⟩

/-- What paying for fills changes: the balances, the risk kernel and the active orders. -/
def settled (cfg : Config) (self : Pipeline) (fills : List FillPayload) : Pipeline :=
  { self with
    inventory := fills.foldl InventoryState.pay self.inventory
    risk := self.risk.recordFills cfg.risk fills
    projector := self.projector.removeAll fills }

/-- **Fills are all paid, or stop at one of them, of which nothing but the payment is done.** -/
theorem applyFills_cases (cfg : Config) (fills : List FillPayload) : ∀ self : Pipeline,
    applyFills cfg self fills = (self.settled cfg fills, .ok ()) ∨
    ∃ paid fill rest, fills = paid ++ fill :: rest ∧
      applyFills cfg self fills = ({ self.settled cfg paid with
        inventory := (self.settled cfg paid).inventory.pay fill },
        .error InventoryState.negativeBalances) := by
  induction fills with
  | nil => intro self; exact Or.inl rfl
  | cons fill rest ih =>
      intro self
      unfold applyFills InventoryState.applyFill
      by_cases hguard : (!cfg.inventory.negativeBalancesAllowed &&
          (self.inventory.fill fill.side fill.fillPrice fill.fillSize fill.fee).isNegative) = true
      · rw [if_pos hguard]
        exact Or.inr ⟨[], fill, rest, rfl, rfl⟩
      · rw [if_neg hguard]
        rcases ih { self with
            inventory := self.inventory.pay fill
            risk := self.risk.recordFill cfg.risk fill.side fill.fillTs fill.fillPrice fill.fillSize
            projector := self.projector.removeFilled fill.orderId } with
          hall | ⟨paid, refused, unpaid, rfl, hstopped⟩
        · exact Or.inl hall
        · exact Or.inr ⟨fill :: paid, refused, unpaid, rfl, hstopped⟩

theorem applyFills_ok {cfg : Config} {fills : List FillPayload} {self after : Pipeline}
    (h : applyFills cfg self fills = (after, .ok ())) : after = self.settled cfg fills := by
  rcases applyFills_cases cfg fills self with hall | ⟨paid, fill, rest, -, hstopped⟩
  · exact (Prod.mk.inj (h.symm.trans hall)).1
  · rw [h] at hstopped
    simp at hstopped

theorem applyFills_error {cfg : Config} {fills : List FillPayload} {self after : Pipeline}
    {e : Py.Error} (h : applyFills cfg self fills = (after, .error e)) :
    e = InventoryState.negativeBalances ∧ ∃ paid fill rest, fills = paid ++ fill :: rest ∧
      after = { self.settled cfg paid with
        inventory := (self.settled cfg paid).inventory.pay fill } := by
  rcases applyFills_cases cfg fills self with hall | ⟨paid, fill, rest, hfills, hstopped⟩
  · rw [h] at hall
    simp at hall
  · obtain ⟨hafter, he⟩ := Prod.mk.inj (h.symm.trans hstopped)
    exact ⟨Except.error.inj he, paid, fill, rest, hfills, hafter⟩

/-! ### The orders -/

/-- How the fill model follows an event of the projector. -/
def follow (cfg : FillModelConfig) (book : OrderBook) (fillModel : ConservativeQueueFillModel)
    (event : Event) : ConservativeQueueFillModel :=
  match event.body with
  | .virtualOrderPlaced payload => fillModel.onVirtualOrder cfg payload book
  | .virtualOrderCanceled payload => fillModel.onCancel payload
  | _ => fillModel

/-- An event about an order that would have gone to the exchange. -/
def IsLive (event : Event) : Prop :=
  (∃ payload, event.body = .liveOrderIntent payload) ∨
    ∃ payload, event.body = .liveOrderBlocked payload

/-- What is added to the log for one event of the projector. -/
def observe (rt : Runtime) (cfg : Config) (decision : RiskDecision) (self : Pipeline)
    (out : Event) : List Event :=
  match out.body with
  | .virtualOrderPlaced payload => self.liveOrderObservationEvents rt cfg out payload decision
  | _ => []

/-- Each event of the projector is followed and observed, one after the other. -/
theorem trackOrders_cons (rt : Runtime) (cfg : Config) (decision : RiskDecision) (self : Pipeline)
    (out : Event) (rest : List Event) :
    trackOrders rt cfg decision self (out :: rest) =
      let after := trackOrders rt cfg decision
        { self with fillModel := follow cfg.fillModel self.book self.fillModel out } rest
      (after.1, observe rt cfg decision self out ++ after.2) := by
  rw [trackOrders]
  unfold follow observe
  cases out.body <;> rfl

theorem trackOrders_state (rt : Runtime) (cfg : Config) (decision : RiskDecision)
    (events : List Event) : ∀ self : Pipeline,
    (trackOrders rt cfg decision self events).1 = { self with
      fillModel := events.foldl (follow cfg.fillModel self.book) self.fillModel } := by
  induction events with
  | nil => intro self; rfl
  | cons event rest ih =>
      intro self
      rw [trackOrders_cons, List.foldl_cons]
      exact ih _

theorem trackOrders_observed (rt : Runtime) (cfg : Config) (decision : RiskDecision)
    (events : List Event) : ∀ self : Pipeline,
    (trackOrders rt cfg decision self events).2 =
      events.flatMap (observe rt cfg decision self) := by
  induction events with
  | nil => intro self; rfl
  | cons out rest ih =>
      intro self
      rw [trackOrders_cons, List.flatMap_cons]
      -- the tracked orders are the fill model's, and no observation looks at them
      exact congrArg (observe rt cfg decision self out ++ ·) (ih _)

theorem observe_live {rt : Runtime} {cfg : Config} {decision : RiskDecision} {self : Pipeline}
    {out : Event} : ∀ e ∈ observe rt cfg decision self out, IsLive e := by
  intro e he
  unfold observe at he
  split at he
  · unfold liveOrderObservationEvents at he
    simp only [List.mem_cons, List.not_mem_nil, or_false] at he
    rcases he with rfl | rfl
    · exact Or.inl ⟨_, rfl⟩
    · exact Or.inr ⟨_, rfl⟩
  · simp at he

/-- What `requote` decides on. -/
def riskInput (self : Pipeline) (event : Event) (fairState : FairPriceState)
    (shockState : ShockState) : RiskInput where
  book := self.book
  fairState := fairState
  shockState := shockState
  inventory := self.inventory
  pairSpec := self.pairSpec
  status := self.status
  nowMs := event.tsExchange

/-- What `sync` returns, it has moved to. -/
theorem sync_moves_of_eq {rt : Runtime} {cfg : ExecutionConfig} {market : Market} {nowMs : ℚ}
    {start projector : OrderProjector} {quotes : List Quote} {book : OrderBook}
    {decision : RiskDecision} {events : List Event}
    (h : start.sync rt cfg market quotes book decision nowMs = (projector, events)) :
    OrderProjector.Moves rt cfg market nowMs start events projector := by
  have hmoves : OrderProjector.Moves rt cfg market nowMs start
    (start.sync rt cfg market quotes book decision nowMs).2
    (start.sync rt cfg market quotes book decision nowMs).1 := OrderProjector.sync_moves _ _ _ _
  rw [h] at hmoves
  exact hmoves

/-- `requote` syncs the orders with the quotes under the decision it takes. -/
theorem requote_eq (rt : Runtime) (cfg : Config) (self : Pipeline) (event : Event)
    (fairState : FairPriceState) (shockState : ShockState) :
    ∃ decision projector projectorEvents riskEvent live,
      decision = (self.risk.evaluate cfg (self.riskInput event fairState shockState)).2 ∧
      self.projector.sync rt cfg.execution (market cfg) (self.quotes rt cfg fairState shockState)
        self.book decision event.tsExchange = (projector, projectorEvents) ∧
      self.requote rt cfg event fairState shockState
        = ({ self with
              risk := (self.risk.evaluate cfg (self.riskInput event fairState shockState)).1
              lastRisk := decision
              projector := projector
              fillModel := projectorEvents.foldl (follow cfg.fillModel self.book) self.fillModel },
            riskEvent :: (projectorEvents ++ live)) ∧
      (∃ payload, riskEvent.body = .riskState payload ∧ payload.decision = decision) ∧
      live = projectorEvents.flatMap (observe rt cfg decision self) := by
  unfold requote
  simp only [trackOrders_state]
  exact ⟨_, _, _, _, _, rfl, rfl, rfl, ⟨_, rfl, rfl⟩, trackOrders_observed rt cfg _ _ _⟩

/-- What `requote` changes and emits. -/
theorem requote_spec (rt : Runtime) (cfg : Config) (self : Pipeline) (event : Event)
    (fairState : FairPriceState) (shockState : ShockState) :
    ∃ projector projectorEvents riskEvent live,
      self.requote rt cfg event fairState shockState
        = ({ self with
              risk := (self.risk.evaluate cfg (self.riskInput event fairState shockState)).1
              lastRisk := (self.risk.evaluate cfg (self.riskInput event fairState shockState)).2
              projector := projector
              fillModel := projectorEvents.foldl (follow cfg.fillModel self.book) self.fillModel },
            riskEvent :: (projectorEvents ++ live)) ∧
      OrderProjector.Moves rt cfg.execution (market cfg) event.tsExchange self.projector
        projectorEvents projector ∧
      (∃ payload, riskEvent.body = .riskState payload ∧ payload.decision
        = (self.risk.evaluate cfg (self.riskInput event fairState shockState)).2) ∧
      live = projectorEvents.flatMap (observe rt cfg
        (self.risk.evaluate cfg (self.riskInput event fairState shockState)).2 self) := by
  obtain ⟨decision, projector, projectorEvents, riskEvent, live, rfl, hsync, hrequote, hrisk,
    hlive⟩ := requote_eq rt cfg self event fairState shockState
  refine ⟨projector, projectorEvents, riskEvent, live, hrequote, ?_, hrisk, hlive⟩
  exact sync_moves_of_eq hsync

/-! ### The ways a call can go -/

/-- The state once the metadata and the market have been taken in. -/
def onMarket (cfg : Config) (self : Pipeline) (event : Event) : Pipeline :=
  ((self.ingestMetadata cfg event).ingestMarket event).1

theorem ingestMarket_onMarket (cfg : Config) (s : Pipeline) (event : Event) :
    (s.ingestMetadata cfg event).ingestMarket event
      = (s.onMarket cfg event, (s.book.applyEvent event).2) := by
  obtain ⟨-, hbook, -⟩ := ingestMetadata_frame cfg s event
  obtain ⟨risk, hmarket⟩ := ingestMarket_eq (s.ingestMetadata cfg event) event
  unfold onMarket
  rw [hmarket, hbook]

/-- Of the rest only the book and the risk kernel hear of it. -/
theorem onMarket_eq (cfg : Config) (s : Pipeline) (event : Event) :
    s.onMarket cfg event = { s.ingestMetadata cfg event with
      inventory := s.inventory, book := s.bookAfter event, sources := s.sources, shock := s.shock,
      projector := s.projector, risk := (s.onMarket cfg event).risk } := by
  obtain ⟨hinventory, hbook, hsources, hshock, hprojector, -⟩ := ingestMetadata_frame cfg s event
  obtain ⟨risk, hmarket⟩ := ingestMarket_eq (s.ingestMetadata cfg event) event
  unfold onMarket bookAfter
  rw [hmarket, ← hinventory, ← hbook, ← hsources, ← hshock, ← hprojector]

/-- What the shock activator makes of the event. -/
def shockAt (rt : Runtime) (cfg : Config) (self : Pipeline) (event : Event)
    (fairState : FairPriceState) : ShockActivator × ShockState × Option Event :=
  self.shock.update rt cfg.shock event (self.bookAfter event) fairState

/-- The state when a call comes to its fills. -/
def atFills (rt : Runtime) (cfg : Config) (self : Pipeline) (event : Event)
    (fairState : FairPriceState) : Pipeline where
  inventory := self.inventory
  book := self.bookAfter event
  sources := (fromMarketEvent cfg self.sources (self.bookAfter event) event event.tsExchange).1
  risk := (self.onMarket cfg event).risk
  shock := (self.shockAt rt cfg event fairState).1
  projector := self.projector
  fillModel := ((self.ingestMetadata cfg event).fillModel.onMarketEvent rt cfg.fillModel event
    fairState).1
  pairSpec := (self.ingestMetadata cfg event).pairSpec
  status := (self.ingestMetadata cfg event).status
  lastFair := fairState
  lastShock := (self.shockAt rt cfg event fairState).2.1
  lastRisk := (self.ingestMetadata cfg event).lastRisk

/-- The fill events of a call. -/
def fillEventsAt (rt : Runtime) (cfg : Config) (self : Pipeline) (event : Event)
    (fairState : FairPriceState) : List Event :=
  ((self.ingestMetadata cfg event).fillModel.onMarketEvent rt cfg.fillModel event fairState).2

/-- The four ways a call can go, by where it raises. -/
inductive Course (rt : Runtime) (cfg : Config) (s : Pipeline) (event : Event) : Outcome → Prop
  | book {e : Py.Error} (h : (s.book.applyEvent event).2 = .error e) :
      Course rt cfg s event (s.onMarket cfg event, .error e)
  | fair {e : Py.Error} (h : s.fairOutcome cfg event = .error e) :
      Course rt cfg s event ({ s.onMarket cfg event with
        sources := (fromMarketEvent cfg s.sources (s.bookAfter event) event event.tsExchange).1 },
        .error e)
  | stopped {fairState : FairPriceState} {after : Pipeline} {e : Py.Error}
      (hfair : s.fairOutcome cfg event = .ok fairState)
      (h : applyFills cfg (s.atFills rt cfg event fairState)
        (fills (s.fillEventsAt rt cfg event fairState)) = (after, .error e)) :
      Course rt cfg s event (after, .error e)
  | returned {fairState : FairPriceState} {paid : Pipeline}
      (hbook : (s.book.applyEvent event).2 = .ok ())
      (hfair : s.fairOutcome cfg event = .ok fairState)
      (h : applyFills cfg (s.atFills rt cfg event fairState)
        (fills (s.fillEventsAt rt cfg event fairState)) = (paid, .ok ())) :
      Course rt cfg s event
        ((paid.requote rt cfg event fairState (s.shockAt rt cfg event fairState).2.1).1,
          .ok (markPriceEvents rt cfg event fairState ++
            (s.shockAt rt cfg event fairState).2.2.toList ++
            s.fillEventsAt rt cfg event fairState ++
            (paid.requote rt cfg event fairState (s.shockAt rt cfg event fairState).2.1).2))

/-- **What `process` does, opened once.** -/
theorem process_course (rt : Runtime) (cfg : Config) (s : Pipeline) (event : Event) :
    Course rt cfg s event (process rt cfg s event) := by
  have hframe := onMarket_eq cfg s event
  unfold process
  rw [ingestMarket_onMarket]
  cases hbook : (s.book.applyEvent event).2 with
  | error e => exact .book hbook
  | ok _ =>
      have hraised : ∀ e, s.fairOutcome cfg event = .error e → Course rt cfg s event _ :=
        fun _ h => .fair h
      rw [hframe] at hraised ⊢
      dsimp only at hraised ⊢
      generalize hfair : fromMarketEvent cfg s.sources (s.bookAfter event) event
        event.tsExchange = fair
      obtain ⟨sources, result⟩ := fair
      have houtcome : s.fairOutcome cfg event = result := congrArg Prod.snd hfair
      obtain rfl : (fromMarketEvent cfg s.sources (s.bookAfter event) event
        event.tsExchange).1 = sources := congrArg Prod.fst hfair
      cases result with
      | error e => exact hraised e houtcome
      | ok fairState =>
          dsimp only
          generalize happly : applyFills cfg _ _ = applied
          obtain ⟨after, result⟩ := applied
          cases result with
          | error e => exact .stopped houtcome happly
          | ok _ => exact .returned hbook houtcome happly

/-! ### The whole call -/

/-- A call of `process` on `event` that took `s` to `s'` and emitted `out`. -/
structure Processed (rt : Runtime) (cfg : Config) (s : Pipeline) (event : Event) (s' : Pipeline)
    (out : List Event) where
  fairState : FairPriceState
  shockState : ShockState
  shockEvent : Option Event
  traded : ConservativeQueueFillModel
  fillEvents : List Event
  kernel : RiskKernel
  riskEvent : Event
  projectorEvents : List Event
  live : List Event
  book : s.book.applyEvent event = (s'.book, .ok ())
  fair : fromMarketEvent cfg s.sources s'.book event event.tsExchange = (s'.sources, .ok fairState)
  shock : s.shock.update rt cfg.shock event s'.book fairState
    = (s'.shock, shockState, shockEvent)
  fills : ConservativeQueueFillModel.Traded cfg.fillModel (s.ingestMetadata cfg event).fillModel
    event fairState traded fillEvents
  solvent : ¬ (cfg.inventory.negativeBalancesAllowed = false ∧
    ∃ b ∈ successive InventoryState.pay s.inventory (GhostAmm.fills fillEvents),
      b.isNegative = true)
  inventory : s'.inventory = (GhostAmm.fills fillEvents).foldl InventoryState.pay s.inventory
  pairSpec : s'.pairSpec = (s.ingestMetadata cfg event).pairSpec
  status : s'.status = (s.ingestMetadata cfg event).status
  lastFair : s'.lastFair = fairState
  /-- The decision is taken on the state the call leaves, the orders apart. -/
  decision : s'.lastRisk = (kernel.evaluate cfg (s'.riskInput event fairState shockState)).2
  riskBody : ∃ payload, riskEvent.body = .riskState payload ∧ payload.decision = s'.lastRisk
  moves : OrderProjector.Moves rt cfg.execution (market cfg) event.tsExchange
    (s.projector.removeAll (GhostAmm.fills fillEvents)) projectorEvents s'.projector
  followed : s'.fillModel = projectorEvents.foldl (follow cfg.fillModel s'.book) traded
  observed : live = projectorEvents.flatMap (observe rt cfg s'.lastRisk s')
  out : out = markPriceEvents rt cfg event fairState ++ shockEvent.toList ++ fillEvents ++
    riskEvent :: (projectorEvents ++ live)

theorem Processed.liveBody {rt : Runtime} {cfg : Config} {s s' : Pipeline} {event : Event}
    {out : List Event} (step : Processed rt cfg s event s' out) : ∀ e ∈ step.live, IsLive e := by
  intro e he
  rw [step.observed] at he
  obtain ⟨_, -, he⟩ := List.mem_flatMap.mp he
  exact observe_live e he

/-- What a reading of single events makes of a call. -/
theorem Processed.filterMap_out {rt : Runtime} {cfg : Config} {s s' : Pipeline} {event : Event}
    {out : List Event} (step : Processed rt cfg s event s' out) {α : Type}
    (part : Event → Option α) :
    out.filterMap part
      = (markPriceEvents rt cfg event step.fairState ++ step.shockEvent.toList).filterMap part ++
        step.fillEvents.filterMap part ++ [step.riskEvent].filterMap part ++
        step.projectorEvents.filterMap part ++ step.live.filterMap part := by
  have hassoc : out = (markPriceEvents rt cfg event step.fairState ++ step.shockEvent.toList) ++
      step.fillEvents ++ [step.riskEvent] ++ step.projectorEvents ++ step.live := by
    simp [step.out]
  conv_lhs => rw [hassoc]
  rw [List.filterMap_append, List.filterMap_append, List.filterMap_append, List.filterMap_append]

/-- The orders are synced with the quotes, once what was filled is off the desk. -/
def Processed.Synced {rt : Runtime} {cfg : Config} {s s' : Pipeline} {event : Event}
    {out : List Event} (step : Processed rt cfg s event s' out) : Prop :=
  (s.projector.removeAll (GhostAmm.fills step.fillEvents)).sync rt cfg.execution (market cfg)
    (s'.quotes rt cfg step.fairState step.shockState) s'.book s'.lastRisk event.tsExchange
    = (s'.projector, step.projectorEvents)

/-- What a call of `process` that returns has done, and how the orders came about. -/
theorem process_synced {rt : Runtime} {cfg : Config} {s s' : Pipeline} {event : Event}
    {out : List Event} (h : process rt cfg s event = (s', .ok out)) :
    ∃ step : Processed rt cfg s event s' out, step.Synced := by
  have hcourse := process_course rt cfg s event
  rw [h] at hcourse
  cases hcourse with
  | @returned fairState paid hbook hfair happly =>
      obtain rfl := applyFills_ok happly
      have hsolvent := applyFills_result cfg
        (GhostAmm.fills (s.fillEventsAt rt cfg event fairState)) (s.atFills rt cfg event fairState)
      rw [happly] at hsolvent
      have hpaid : ¬ (cfg.inventory.negativeBalancesAllowed = false ∧
          ∃ b ∈ successive InventoryState.pay s.inventory
            (GhostAmm.fills (s.fillEventsAt rt cfg event fairState)), b.isNegative = true) := by
        intro hneg
        have hraised := hsolvent.trans (if_pos hneg)
        simp at hraised
      generalize hfilled : (s.atFills rt cfg event fairState).settled cfg
        (GhostAmm.fills (s.fillEventsAt rt cfg event fairState)) = filled
      obtain ⟨decision, projector, projectorEvents, riskEvent, live, hdecision, hsync, hrequote,
        hrisk, hlive⟩ := requote_eq rt cfg filled event fairState
          (s.shockAt rt cfg event fairState).2.1
      have hmoves := sync_moves_of_eq hsync
      rw [hrequote]
      subst hfilled
      exact ⟨{
        fairState := fairState, shockState := (s.shockAt rt cfg event fairState).2.1,
        shockEvent := (s.shockAt rt cfg event fairState).2.2,
        traded := (s.atFills rt cfg event fairState).fillModel,
        fillEvents := s.fillEventsAt rt cfg event fairState,
        kernel := ((s.atFills rt cfg event fairState).settled cfg
          (GhostAmm.fills (s.fillEventsAt rt cfg event fairState))).risk,
        riskEvent := riskEvent, projectorEvents := projectorEvents, live := live,
        book := Prod.ext rfl hbook, fair := Prod.ext rfl hfair, shock := rfl,
        fills := ConservativeQueueFillModel.onMarketEvent_spec rt cfg.fillModel
          (s.ingestMetadata cfg event).fillModel event fairState,
        solvent := hpaid, inventory := rfl, pairSpec := rfl, status := rfl, lastFair := rfl,
        decision := hdecision, riskBody := hrisk, moves := hmoves, followed := rfl,
        observed := hlive, out := rfl }, hsync⟩

/-- **What a call of `process` that returns has done.** -/
theorem process_ok {rt : Runtime} {cfg : Config} {s s' : Pipeline} {event : Event}
    {out : List Event} (h : process rt cfg s event = (s', .ok out)) :
    Nonempty (Processed rt cfg s event s' out) := by
  obtain ⟨step, -⟩ := process_synced h
  exact ⟨step⟩

end Pipeline

/-! ### A small market

A configuration in which quotes sit at the fair price, and events to feed it.  Its prices and the
sizes of a quote at its shock ask a runtime for `exp 0` alone, later sizes for the decay of the
activation too.
-/

/-- A runtime with the first terms of the exponential, which names events by their type and has no
environment. -/
def seriesRuntime : Runtime where
  exp := fun x => if 0 ≤ x then 1 + x + x ^ 2 / 2 else 1 / (1 - x + x ^ 2 / 2)
  deterministicEventId := fun _ _ _ _ body => body.eventType
  environ := fun _ => none

theorem strictMono_series : StrictMono seriesRuntime.exp := by
  intro x y hxy
  show (if 0 ≤ x then _ else _) < (if 0 ≤ y then _ else _)
  by_cases hx : 0 ≤ x
  · rw [if_pos hx, if_pos (hx.trans hxy.le)]
    nlinarith
  · have hneg : x < 0 := not_le.mp hx
    rw [if_neg hx]
    by_cases hy : 0 ≤ y
    · rw [if_pos hy]
      calc 1 / (1 - x + x ^ 2 / 2) < 1 := by
            rw [div_lt_one (by nlinarith)]
            nlinarith
        _ ≤ 1 + y + y ^ 2 / 2 := by nlinarith
    · have hneg' : y < 0 := not_le.mp hy
      rw [if_neg hy]
      refine one_div_lt_one_div_of_lt (by nlinarith) ?_
      nlinarith

theorem series_nonneg : ∀ x, 0 ≤ seriesRuntime.exp x := by
  intro x
  show 0 ≤ (if 0 ≤ x then 1 + x + x ^ 2 / 2 else 1 / (1 - x + x ^ 2 / 2))
  by_cases hx : 0 ≤ x
  · rw [if_pos hx]
    positivity
  · rw [if_neg hx]
    have hneg : x < 0 := not_le.mp hx
    have hpos : 0 < 1 - x + x ^ 2 / 2 := by nlinarith
    exact (one_div_pos.mpr hpos).le

/-- The shipped configuration, with flat quotes, early shocks and no queues. -/
def flatConfig : Config where
  amm := { baseOrderSize := 2 / 1000, halfSpreadBps := 0, stepBps := 0, skewStrengthBps := 0,
           sizeSkewStrength := 0 }
  shock := { threshold := 1 / 100, temperature := 0, minimumWaitAfterShockMs := 0 }
  fillModel := { queueAheadMultiplier := 0, minRestingTimeMs := 0 }

/-- A recorded event. -/
def marketEvent (ts : ℚ) (sequence : Sequence) (body : Body) : Event where
  eventId := ""
  tsExchange := ts
  tsLocal := ts
  venue := "bitbank"
  symbol := "BTC/JPY"
  sequence := sequence
  body := body

/-- A whole book of one bid and one ask. -/
def snapshotEvent (ts : ℚ) (sequence : ℤ) (bid ask : ℚ) : Event :=
  marketEvent ts (.int sequence) (.orderBookSnapshot
    { bids := [(.number bid, .number 1)], asks := [(.number ask, .number 1)] })

/-- A trade against the bids. -/
def sellEvent (ts price amount : ℚ) : Event :=
  marketEvent ts .absent (.trade { side := some .sell, price := price, amount := amount })

/-- A pair that is enabled and stopped on no side. -/
def pairSpecEvent (ts : ℚ) : Event :=
  marketEvent ts .absent (.bitbankPairSpec
    { name := "btc_jpy", unitAmount := 1 / 10000, limitMaxAmount := 1000, priceDigits := 0,
      amountDigits := 4, isEnabled := some true })

/-- A pair, a book, a sell that brings the bids out and a sell that meets them. -/
def quoteThenSell (amount : ℚ) : List Event :=
  [pairSpecEvent 1000, snapshotEvent 1000 1 10000000 10000002, sellEvent 1000 10000000 (1 / 10),
    sellEvent 1000 10000000 amount]

end GhostAmm
