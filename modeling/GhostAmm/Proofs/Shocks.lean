/-
Which shock an order answers.

The link from a forced flow to an order goes through four components.  The activator
remembers the last flow it announced (`Remembers`), a quote copies what the activator
reports, a placement copies the quote, and the fill model copies the placement
(`Copies`).  What makes the link say something is what lies between them: a side is only
quoted while it is active, and with no activation for the opposite side the active side
is the one the flow pushed against.
-/
import GhostAmm.Lib.Streams
import GhostAmm.Proofs.Gates
import GhostAmm.Proofs.Ladder
import GhostAmm.Proofs.OrderLog

namespace GhostAmm

/-! ### The announcements of a log -/

/-- The payload of a `forced_flow`. -/
def Event.forcedFlow? (e : Event) : Option ForcedFlowPayload :=
  match e.body with
  | .forcedFlow p => some p
  | _ => none

/-- The forced flows of a log, in order. -/
def announcements (log : List Event) : List (Event × ForcedFlowPayload) :=
  log.filterMap fun e => e.forcedFlow?.map fun payload => (e, payload)

/-- The most recent forced flow of a log. -/
def lastFlow (log : List Event) : Option (Event × ForcedFlowPayload) :=
  (announcements log).getLast?

theorem announcements_append (xs ys : List Event) :
    announcements (xs ++ ys) = announcements xs ++ announcements ys :=
  List.filterMap_append

theorem lastFlow_append (xs ys : List Event) :
    lastFlow (xs ++ ys) = (lastFlow ys).or (lastFlow xs) := by
  unfold lastFlow
  rw [announcements_append, List.getLast?_append]

/-- Where nothing is announced the last flow stays. -/
theorem lastFlow_none {events : List Event} (h : ∀ e ∈ events, e.forcedFlow? = none) :
    lastFlow events = none := by
  have hnone : announcements events = [] := by
    refine List.filterMap_eq_nil_iff.mpr fun e he => ?_
    rw [h e he]
    rfl
  unfold lastFlow
  rw [hnone]
  rfl

/-! ### What the activator reports -/

/-- What one `update` at `now` leaves, reports and announces. -/
structure ShockActivator.Updated (cfg : ShockConfig) (shock : ShockActivator) (now : ℚ)
    (shock' : ShockActivator) (state : ShockState) (shockEvent : Option Event) : Prop where
  /-- An announced flow is the one remembered. -/
  announced : ∀ flow ∈ shockEvent, ∃ payload, flow.forcedFlow? = some payload ∧
    flow.tsExchange = now ∧ shock'.lastShockTs = some now ∧
    shock'.lastShockEventId = some flow.eventId ∧ shock'.lastShockDirection = payload.direction
  /-- Without an announcement the memory stays. -/
  silent : shockEvent = none → shock'.lastShockTs = shock.lastShockTs ∧
    shock'.lastShockEventId = shock.lastShockEventId ∧
    shock'.lastShockDirection = shock.lastShockDirection
  eventId : state.lastShockEventId = shock'.lastShockEventId
  /-- An activation needs a remembered flow that is old enough. -/
  active : state.activation ≠ 0 → state.direction = shock'.lastShockDirection ∧
    ∃ ts, shock'.lastShockTs = some ts ∧ cfg.minimumWaitAfterShockMs ≤ now - ts
  sides : (state.bidActivation, state.askActivation)
    = sideActivations state.activation state.direction cfg.oppositeSideActivationRatio

namespace ShockActivator

/-- The activation, direction and reason that are reported while `self` is remembered. -/
def rebuild (rt : Runtime) (cfg : ShockConfig) (self : ShockActivator) (now forceRatio : ℚ)
    (fairState : FairPriceState) : ℚ × ShockDirection × String :=
  if fairState.isValid then
    match self.lastShockTs.map fun ts => now - ts with
    | none => (0, .neutral, "no_recent_shock")
    | some age =>
        if age < cfg.minimumWaitAfterShockMs then
          (0, self.lastShockDirection, "waiting_after_shock")
        else
          let raw := 1 / (1 + rt.exp (-cfg.temperature * (forceRatio - cfg.threshold)))
          let decay := rt.exp (-age / max cfg.activationDecayMs 1)
          (max 0 (min 1 (raw * decay)), self.lastShockDirection, "aftershock_rebuild")
  else (0, .neutral, Py.textOr fairState.reason "invalid_fair")

/-- Only a flow that is old enough activates anything. -/
theorem rebuild_active {rt : Runtime} {cfg : ShockConfig} {self : ShockActivator}
    {now forceRatio : ℚ} {fairState : FairPriceState}
    (h : (rebuild rt cfg self now forceRatio fairState).1 ≠ 0) :
    (rebuild rt cfg self now forceRatio fairState).2.1 = self.lastShockDirection ∧
      ∃ ts, self.lastShockTs = some ts ∧ cfg.minimumWaitAfterShockMs ≤ now - ts := by
  unfold rebuild at h ⊢
  by_cases hvalid : fairState.isValid = true
  · rw [if_pos hvalid] at h ⊢
    cases hts : self.lastShockTs with
    | none =>
        rw [hts] at h
        exact absurd rfl h
    | some ts =>
        rw [hts] at h
        dsimp only [Option.map_some] at h ⊢
        by_cases hwait : now - ts < cfg.minimumWaitAfterShockMs
        · rw [if_pos hwait] at h
          exact absurd rfl h
        · rw [if_neg hwait]
          exact ⟨rfl, ts, rfl, not_lt.mp hwait⟩
  · rw [if_neg hvalid] at h
    exact absurd rfl h

theorem update_rebuild (rt : Runtime) (cfg : ShockConfig) (self : ShockActivator)
    (event : Event) (book : OrderBook) (fairState : FairPriceState) :
    let updated := self.update rt cfg event book fairState
    let reported := rebuild rt cfg updated.1 event.tsExchange updated.2.1.forceRatio fairState
    updated.2.1.activation = reported.1 ∧ updated.2.1.direction = reported.2.1 :=
  ⟨rfl, rfl⟩

theorem update_spec (rt : Runtime) (cfg : ShockConfig) (self : ShockActivator) (event : Event)
    (book : OrderBook) (fairState : FairPriceState) :
    Updated cfg self event.tsExchange (self.update rt cfg event book fairState).1
      (self.update rt cfg event book fairState).2.1
      (self.update rt cfg event book fairState).2.2 := by
  refine ⟨fun flow hflow => ?_, fun hnone => ?_, rfl, fun hactive => ?_, rfl⟩
  · unfold update at hflow ⊢
    simp only at hflow ⊢
    split at hflow
    · rename_i hannounce
      rw [if_pos hannounce, ← Option.some.inj hflow]
      exact ⟨_, rfl, rfl, rfl, rfl, rfl⟩
    · simp at hflow
  · unfold update at hnone ⊢
    simp only at hnone ⊢
    rw [hnone]
    exact ⟨rfl, rfl, rfl⟩
  · obtain ⟨hactivation, hdirection⟩ := update_rebuild rt cfg self event book fairState
    rw [hactivation] at hactive
    rw [hdirection]
    exact rebuild_active hactive

end ShockActivator

/-- The activator remembers the last flow of the log. -/
def Remembers (shock : ShockActivator) (log : List Event) : Prop :=
  ∀ ts, shock.lastShockTs = some ts → ∃ flow payload, lastFlow log = some (flow, payload) ∧
    flow.tsExchange = ts ∧ shock.lastShockEventId = some flow.eventId ∧
    shock.lastShockDirection = payload.direction

theorem Remembers.update {cfg : ShockConfig} {shock shock' : ShockActivator} {now : ℚ}
    {state : ShockState} {shockEvent : Option Event} {log : List Event}
    (h : Remembers shock log) (hu : shock.Updated cfg now shock' state shockEvent) :
    Remembers shock' (log ++ shockEvent.toList) := by
  intro ts hts
  cases hevent : shockEvent with
  | none =>
      obtain ⟨hsame, hid, hdirection⟩ := hu.silent hevent
      rw [hsame] at hts
      rw [hid, hdirection, Option.toList_none, List.append_nil]
      exact h ts hts
  | some flow =>
      obtain ⟨payload, hpayload, hnow, hlast, hid, hdirection⟩ := hu.announced flow hevent
      refine ⟨flow, payload, ?_, ?_, hid, hdirection⟩
      · rw [lastFlow_append, Option.toList_some]
        simp [lastFlow, announcements, hpayload]
      · rw [hlast] at hts
        exact hnow.trans (Option.some.inj hts)

/-- With no activation for the opposite side, the active side is the one pushed against. -/
theorem ShockActivator.Updated.active_side {cfg : ShockConfig} {shock shock' : ShockActivator}
    {now : ℚ} {state : ShockState} {shockEvent : Option Event}
    (hu : shock.Updated cfg now shock' state shockEvent)
    (hratio : cfg.oppositeSideActivationRatio = 0) {side : Side}
    (h : side = .buy ∧ state.bidActivation ≠ 0 ∨ side = .sell ∧ state.askActivation ≠ 0) :
    state.activation ≠ 0 ∧ (side = .buy ∧ state.direction = .sellShock ∨
      side = .sell ∧ state.direction = .buyShock) := by
  obtain ⟨hbid, hask⟩ := Prod.mk.inj hu.sides
  rw [hbid, hask, hratio] at h
  cases hdirection : state.direction with
  | sellShock =>
      rw [hdirection] at h
      rcases h with ⟨hside, hactive⟩ | ⟨-, hopposite⟩
      · exact ⟨hactive, Or.inl ⟨hside, rfl⟩⟩
      · simp at hopposite
  | buyShock =>
      rw [hdirection] at h
      rcases h with ⟨-, hopposite⟩ | ⟨hside, hactive⟩
      · simp at hopposite
      · exact ⟨hactive, Or.inr ⟨hside, rfl⟩⟩
  | neutral =>
      rw [hdirection] at h
      simp at h

/-! ### What a quote says about its shock -/

namespace QuoteSurface

variable {rt : Runtime} {self : QuoteSurface} {request : Request} {quote : Quote}

/-- A side that is not active is not quoted, where there is a minimum size. -/
theorem floorQuoteSize_inactive {base factor minOrderSize maxOrderSize lotSize : ℚ}
    (hmin : 0 < minOrderSize) :
    floorQuoteSize (base * 0 * factor) minOrderSize maxOrderSize lotSize = none := by
  unfold floorQuoteSize
  rw [mul_zero, zero_mul, if_pos hmin]

/-- A quote is for an active side, and carries the shock of the request. -/
structure Answers (request : Request) (quote : Quote) : Prop where
  active : quote.side = .buy ∧ request.bidActivation ≠ 0 ∨
    quote.side = .sell ∧ request.askActivation ≠ 0
  shockEventId : quote.shockEventId = request.shockEventId
  shockDirection : quote.shockDirection = request.shockDirection

theorem answers_of_mem_generateLevel (hmin : 0 < self.minOrderSize) {level : ℕ}
    (h : quote ∈ self.generateLevel rt request level) : Answers request quote := by
  unfold generateLevel at h
  rcases List.mem_append.mp h with h | h
  · split at h
    · rename_i size hsize
      rw [List.mem_singleton.mp h]
      refine ⟨Or.inl ⟨rfl, fun hzero => ?_⟩, rfl, rfl⟩
      rw [hzero, floorQuoteSize_inactive hmin] at hsize
      simp at hsize
    · simp at h
  · split at h
    · rename_i size hsize
      rw [List.mem_singleton.mp h]
      refine ⟨Or.inr ⟨rfl, fun hzero => ?_⟩, rfl, rfl⟩
      rw [hzero, floorQuoteSize_inactive hmin] at hsize
      simp at hsize
    · simp at h

theorem answers_of_mem_generate (hmin : 0 < self.minOrderSize)
    (h : quote ∈ self.generate rt request) : Answers request quote := by
  obtain ⟨-, level, hlevel⟩ := mem_generate h
  exact answers_of_mem_generateLevel hmin hlevel

end QuoteSurface

/-- Every quote of the pipeline answers what the activator reports. -/
theorem Pipeline.mem_quotes {rt : Runtime} {cfg : Config} {s : Pipeline}
    {fairState : FairPriceState} {shockState : ShockState} {quote : Quote}
    (hmin : 0 < (QuoteSurface.fromConfig cfg.amm s.pairSpec).minOrderSize)
    (h : quote ∈ s.quotes rt cfg fairState shockState) :
    (quote.side = .buy ∧ shockState.bidActivation ≠ 0 ∨
      quote.side = .sell ∧ shockState.askActivation ≠ 0) ∧
    quote.shockEventId = shockState.lastShockEventId ∧
    quote.shockDirection = shockState.direction := by
  unfold quotes at h
  split at h
  · have hanswers := QuoteSurface.answers_of_mem_generate hmin h
    exact ⟨hanswers.active, hanswers.shockEventId, hanswers.shockDirection⟩
  · simp at h

/-! ### Placements -/

/-- An order that was placed in answer to the last flow of the log. -/
def AnswersLastFlow (cfg : Config) (log : List Event) (placed : Event) (order : PlacedPayload) :
    Prop :=
  ∃ flow payload, lastFlow log = some (flow, payload) ∧
    order.shockEventId = some flow.eventId ∧
    cfg.shock.minimumWaitAfterShockMs ≤ placed.tsExchange - flow.tsExchange ∧
    order.shockDirection = payload.direction ∧
    (order.side = .buy ∧ payload.direction = .sellShock ∨
      order.side = .sell ∧ payload.direction = .buyShock)

/-- The smallest size that may be quoted is positive, whichever pair spec is in force. -/
def PositiveMinimum (cfg : Config) (events : List Event) : Prop :=
  0 < cfg.amm.minOrderSizeFallback ∧
    ∀ spec ∈ events.filterMap Event.pairSpec?, 0 < spec.unitAmount

theorem PositiveMinimum.of_append {cfg : Config} {xs ys : List Event}
    (h : PositiveMinimum cfg (xs ++ ys)) : PositiveMinimum cfg xs := by
  refine ⟨h.1, fun spec hspec => h.2 spec ?_⟩
  rw [List.filterMap_append]
  exact List.mem_append_left _ hspec

namespace Pipeline

variable {rt : Runtime} {cfg : Config} {s s' : Pipeline} {event : Event} {out : List Event}

theorem Processed.updated (step : Processed rt cfg s event s' out) :
    s.shock.Updated cfg.shock event.tsExchange s'.shock step.shockState step.shockEvent := by
  have hspec := ShockActivator.update_spec rt cfg.shock s.shock event s'.book step.fairState
  rw [step.shock] at hspec
  exact hspec

/-- The announcement comes first, and the orders are placed after it. -/
theorem Processed.out_split (step : Processed rt cfg s event s' out) :
    ∃ head tail, out = head ++ tail ∧ lastFlow head = lastFlow step.shockEvent.toList ∧
      (∀ e ∈ head, e.placed? = none) ∧ (∀ e ∈ tail, e.forcedFlow? = none) ∧
      ∀ e ∈ tail, e ∈ step.projectorEvents ∨ e.placed? = none := by
  obtain ⟨riskPayload, hrisk, -⟩ := step.riskBody
  refine ⟨markPriceEvents rt cfg event step.fairState ++ step.shockEvent.toList,
    step.fillEvents ++ step.riskEvent :: (step.projectorEvents ++ step.live), ?_, ?_,
    fun e he => (step.quiet_head e he).1, fun e he => ?_, fun e he => ?_⟩
  · exact step.out.trans (List.append_assoc _ _ _)
  · rw [lastFlow_append]
    have hmark : lastFlow (markPriceEvents rt cfg event step.fairState) = none := by
      refine lastFlow_none fun e he => ?_
      unfold markPriceEvents at he
      split at he
      · rw [List.mem_singleton.mp he]
        rfl
      · simp at he
    rw [hmark, Option.or_none]
  · unfold Event.forcedFlow?
    simp only [List.mem_append, List.mem_cons] at he
    rcases he with he | rfl | he | he
    · obtain ⟨payload, hbody⟩ := step.fills.body e he
      rw [hbody]
    · rw [hrisk]
    · rcases step.moves.body e he with ⟨payload, hbody⟩ | ⟨payload, hbody⟩ <;> rw [hbody]
    · rcases step.liveBody e he with ⟨payload, hbody⟩ | ⟨payload, hbody⟩ <;> rw [hbody]
  · simp only [List.mem_append, List.mem_cons] at he
    rcases he with he | rfl | he | he
    · obtain ⟨payload, hbody⟩ := step.fills.body e he
      unfold Event.placed?
      rw [hbody]
      exact Or.inr rfl
    · exact Or.inr (step.quiet_risk _ (List.mem_singleton_self _)).1
    · exact Or.inl he
    · exact Or.inr (step.liveBody e he).quiet.1

/-- What is placed carries what the activator reports, and takes an active side. -/
theorem Processed.placement (step : Processed rt cfg s event s' out) (hsynced : step.Synced)
    (hmin : 0 < (QuoteSurface.fromConfig cfg.amm s'.pairSpec).minOrderSize) {e : Event}
    (he : e ∈ step.projectorEvents) {order : PlacedPayload} (ho : e.placed? = some order) :
    e.tsExchange = event.tsExchange ∧
    (order.side = .buy ∧ step.shockState.bidActivation ≠ 0 ∨
      order.side = .sell ∧ step.shockState.askActivation ≠ 0) ∧
    order.shockEventId = step.shockState.lastShockEventId ∧
    order.shockDirection = step.shockState.direction := by
  obtain ⟨quote, hquote, hplaced⟩ := OrderProjector.placed_sync hsynced he ho
  obtain ⟨n, rfl⟩ := hplaced.payload
  exact ⟨hplaced.time, mem_quotes hmin (OrderProjector.mem_desired hquote).1⟩

/-- **A call keeps the activator's memory, and what it places answers the last flow.** -/
theorem Processed.answers (step : Processed rt cfg s event s' out) (hsynced : step.Synced)
    (hratio : cfg.shock.oppositeSideActivationRatio = 0)
    (hmin : 0 < (QuoteSurface.fromConfig cfg.amm s'.pairSpec).minOrderSize) {log : List Event}
    (hlog : Remembers s.shock log) :
    Remembers s'.shock (log ++ out) ∧
    ∀ before e after, out = before ++ e :: after → ∀ order, e.placed? = some order →
      AnswersLastFlow cfg (log ++ before) e order := by
  have hupdated := step.updated
  have hremembers := hlog.update hupdated
  obtain ⟨head, tail, hout, hhead, hfirst, htail, horders⟩ := step.out_split
  -- from the announcement on the last flow is the one remembered
  have hlast : ∀ mid, (∀ e ∈ mid, e.forcedFlow? = none) →
      lastFlow (log ++ (head ++ mid)) = lastFlow (log ++ step.shockEvent.toList) := by
    intro mid hmid
    rw [lastFlow_append, lastFlow_append head, lastFlow_none hmid, Option.none_or, hhead,
      ← lastFlow_append]
  refine ⟨fun ts hts => ?_, ?_⟩
  · rw [hout, hlast tail htail]
    exact hremembers ts hts
  · rw [hout]
    show Past.Each (fun before e => ∀ order, e.placed? = some order →
      AnswersLastFlow cfg (log ++ before) e order) (head ++ tail)
    refine Past.each_append.mpr ⟨?_, ?_⟩
    · rintro before e after rfl order ho
      rw [hfirst e (by simp)] at ho
      simp at ho
    · rintro before e after htailEq order ho
      have he : e ∈ step.projectorEvents := by
        rcases horders e (by simp [htailEq]) with he | hnone
        · exact he
        · rw [hnone] at ho
          simp at ho
      obtain ⟨htime, hside, hid, hdirection⟩ := step.placement hsynced hmin he ho
      obtain ⟨hactive, hagainst⟩ := hupdated.active_side hratio hside
      obtain ⟨hreported, ts, hts, hwait⟩ := hupdated.active hactive
      obtain ⟨flow, payload, hflow, hflowTs, hflowId, hflowDirection⟩ := hremembers ts hts
      have hpushed : step.shockState.direction = payload.direction :=
        hreported.trans hflowDirection
      refine ⟨flow, payload, ?_, ?_, ?_, hdirection.trans hpushed, hpushed ▸ hagainst⟩
      · rw [hlast before fun e he => htail e (by simp [htailEq, he])]
        exact hflow
      · rw [hid, hupdated.eventId]
        exact hflowId
      · rw [htime, hflowTs]
        exact hwait

end Pipeline

/-! ### Fills -/

/-- Every tracked order remembers the shock its placement carries. -/
def Copies (orders : Py.Table TrackedOrder.orderId) (log : List Event) : Prop :=
  ∀ t ∈ orders.rows, ∃ order ∈ placements log, order.orderId = t.orderId ∧
    order.shockEventId = t.shockEventId

namespace Copies

variable {orders : Py.Table TrackedOrder.orderId} {log : List Event}

theorem append (h : Copies orders log) (events : List Event) : Copies orders (log ++ events) := by
  intro t ht
  obtain ⟨order, horder, hsame⟩ := h t ht
  rw [placements_append]
  exact ⟨order, List.mem_append_left _ horder, hsame⟩

/-- A trade changes queues and sizes only. -/
theorem trade {cfg : FillModelConfig} {m m' : ConservativeQueueFillModel} {event : Event}
    {fairState : FairPriceState} {events : List Event} (h : Copies m.orders log)
    (ht : ConservativeQueueFillModel.Traded cfg m event fairState m' events) :
    Copies m'.orders log := by
  intro t hmem
  obtain ⟨order, hrow, q, x, rfl⟩ := ht.of_mem hmem
  exact h order hrow

/-- The fill model takes what it knows of an order from its placement. -/
theorem follow {m : ConservativeQueueFillModel} (h : Copies m.orders log) (cfg : FillModelConfig)
    (book : OrderBook) (e : Event) :
    Copies (Pipeline.follow cfg book m e).orders (log ++ [e]) := by
  unfold Pipeline.follow
  cases hbody : e.body with
  | virtualOrderPlaced payload =>
      intro t ht
      rcases Py.Table.mem_put.mp ht with rfl | ⟨hold, -⟩
      · refine ⟨payload, ?_, rfl, rfl⟩
        rw [placements_append]
        exact List.mem_append_right _ (by simp [placements, Event.placed?, hbody])
      · exact h.append [e] t hold
  | virtualOrderCanceled payload =>
      intro t ht
      exact h.append [e] t (Py.Table.mem_erase.mp ht).1
  | _ => exact h.append [e]

theorem follows (cfg : FillModelConfig) (book : OrderBook) : ∀ (events : List Event)
    {m : ConservativeQueueFillModel} {log : List Event}, Copies m.orders log →
      Copies (events.foldl (Pipeline.follow cfg book) m).orders (log ++ events) := by
  intro events
  induction events with
  | nil =>
      intro m log h
      exact h.append []
  | cons e rest ih =>
      intro m log h
      have hrest := ih (h.follow cfg book e)
      rw [List.append_assoc, List.singleton_append] at hrest
      exact hrest

theorem process {rt : Runtime} {cfg : Config} {s s' : Pipeline} {event : Event}
    {out : List Event} (h : Copies s.fillModel.orders log)
    (hs : Pipeline.process rt cfg s event = (s', .ok out)) :
    Copies s'.fillModel.orders (log ++ out) := by
  obtain ⟨step⟩ := Pipeline.process_ok hs
  obtain ⟨-, -, -, -, -, horders⟩ := Pipeline.ingestMetadata_frame cfg s event
  rw [← horders] at h
  have htraded := (h.trade step.fills).append
    (Pipeline.markPriceEvents rt cfg event step.fairState ++ step.shockEvent.toList ++
      step.fillEvents ++ [step.riskEvent])
  have hfollowed := (follows cfg.fillModel s'.book step.projectorEvents htraded).append step.live
  rw [step.followed]
  refine Eq.mp (congrArg _ ?_) hfollowed
  refine Eq.trans ?_ (congrArg (log ++ ·) step.out).symm
  simp

end Copies

/-! ### Runs -/

section Runs

variable {rt : Runtime} {cfg : Config} {steps : List (Machine.Step Pipeline Event (List Event))}
  {s : Pipeline}

theorem copies_run (h : Machine.Run (Pipeline.process rt cfg) (Pipeline.init cfg) steps s) :
    Copies s.fillModel.orders (emittedOf steps) := by
  induction h with
  | nil =>
      intro t ht
      simp [Pipeline.init, ConservativeQueueFillModel.fromConfig] at ht
  | snoc _ hs ih =>
      unfold emittedOf
      rw [List.flatMap_append, List.flatMap_singleton]
      exact Copies.process ih hs

/-- The smallest quote of a run is that of its latest pair spec, or the fallback. -/
theorem minOrderSize_pos (hmin : PositiveMinimum cfg (steps.map Machine.Step.input))
    (h : Machine.Run (Pipeline.process rt cfg) (Pipeline.init cfg) steps s) :
    0 < (QuoteSurface.fromConfig cfg.amm s.pairSpec).minOrderSize := by
  show 0 < (s.pairSpec.map BitbankPairSpec.unitAmount).getD cfg.amm.minOrderSizeFallback
  rw [(latest_run h).1]
  unfold latestSpec
  cases hlast : ((steps.map Machine.Step.input).filterMap Event.pairSpec?).getLast? with
  | none => exact hmin.1
  | some spec => exact hmin.2 spec (List.mem_of_getLast? hlast)

theorem answers_run (hratio : cfg.shock.oppositeSideActivationRatio = 0)
    (h : Machine.Run (Pipeline.process rt cfg) (Pipeline.init cfg) steps s) :
    PositiveMinimum cfg (steps.map Machine.Step.input) →
    Remembers s.shock (emittedOf steps) ∧
    ∀ before e after, emittedOf steps = before ++ e :: after → ∀ order,
      e.placed? = some order → AnswersLastFlow cfg before e order := by
  induction h with
  | nil =>
      intro _
      refine ⟨fun ts hts => ?_, fun before e after hlog => ?_⟩
      · simp [Pipeline.init] at hts
      · simp [emittedOf] at hlog
  | @snoc steps s s' event out hrun hs ih =>
      intro hmin
      have hmin' := minOrderSize_pos hmin (hrun.snoc hs)
      rw [List.map_append] at hmin
      obtain ⟨hremembers, hanswers⟩ := ih hmin.of_append
      obtain ⟨step, hsynced⟩ := Pipeline.process_synced hs
      obtain ⟨hmemory, hnew⟩ := step.answers hsynced hratio hmin' hremembers
      have hemitted : emittedOf (steps ++ [⟨s, event, out, s'⟩]) = emittedOf steps ++ out := by
        simp [emittedOf]
      rw [hemitted]
      exact ⟨hmemory, Past.each_append.mpr ⟨hanswers, hnew⟩⟩

/-- **Shock attribution.**  Every order answers the last forced flow announced before it: it
carries that flow's identity, comes no sooner than the configured wait after it, and takes the
side the flow pushed against.  Every fill carries the shock of the order it fills. -/
theorem shock_attribution (hratio : cfg.shock.oppositeSideActivationRatio = 0)
    (hmin : PositiveMinimum cfg (steps.map Machine.Step.input))
    (h : Machine.Run (Pipeline.process rt cfg) (Pipeline.init cfg) steps s) :
    (∀ before e after, emittedOf steps = before ++ e :: after → ∀ order,
      e.placed? = some order → AnswersLastFlow cfg before e order) ∧
    ∀ xs r ys, steps = xs ++ r :: ys → ∀ fill ∈ fills r.output,
      (∃ order ∈ placements (emittedOf xs), order.orderId = fill.orderId) ∧
      ∀ order ∈ placements (emittedOf steps), order.orderId = fill.orderId →
        fill.shockEventId = order.shockEventId := by
  refine ⟨(answers_run hratio h hmin).2, ?_⟩
  intro xs r ys hsteps fill hfill
  subst hsteps
  obtain ⟨hbefore, hs⟩ := h.split
  obtain ⟨step⟩ := Pipeline.process_ok hs
  rw [step.fills_out] at hfill
  obtain ⟨⟨tracked, x⟩, hreached, rfl⟩ := List.mem_map.mp hfill
  obtain ⟨hrow, -⟩ := ConservativeQueueFillModel.of_mem_reachedBy hreached
  obtain ⟨order, horder, hid, hshock⟩ := copies_run hbefore tracked hrow
  refine ⟨⟨order, horder, hid⟩, fun other hother hsame => ?_⟩
  -- identities are never reused, so this is the placement the fill model copied
  have hall : order ∈ placements (emittedOf (xs ++ r :: ys)) := by
    unfold emittedOf
    rw [List.flatMap_append, placements_append]
    exact List.mem_append_left _ horder
  have hunique := List.inj_on_of_nodup_map (tracks_run h).nodup_placements hall hother
    (hid.trans hsame.symm)
  rw [← hunique]
  exact hshock.symm

/-- Seven bids after a sell, and a fill of one. -/
theorem shock_attribution_seven_bids :
    let steps := Machine.stepsOf (Pipeline.exec seriesRuntime flatConfig (quoteThenSell (1 / 1000)))
    (placements (emittedOf steps)).length = 7 ∧ (fills (emittedOf steps)).length = 1 ∧
    (∀ before e after, emittedOf steps = before ++ e :: after → ∀ order,
      e.placed? = some order → AnswersLastFlow flatConfig before e order) ∧
    ∀ xs r ys, steps = xs ++ r :: ys → ∀ fill ∈ fills r.output,
      (∃ order ∈ placements (emittedOf xs), order.orderId = fill.orderId) ∧
      ∀ order ∈ placements (emittedOf steps), order.orderId = fill.orderId →
        fill.shockEventId = order.shockEventId := by
  refine ⟨by decide +kernel, by decide +kernel, shock_attribution rfl ?_
    (Machine.run_exec (by decide +kernel))⟩
  exact ⟨by decide +kernel, by decide +kernel⟩

end Runs

end GhostAmm
