/-
What a trade does to the resting orders.

The loop over the eligible orders carries the flow along and changes the tracked
orders as it goes.  What it does is a waterfall: `reachedBy` lists the orders a trade
reaches and how much of each, in closed form and before anything is filled, and
`onMarketEvent_spec` says that the emitted fills are exactly those, that a reached
order keeps what is left of it or goes, and that every other order stays.

Nothing below this file looks into `consume` again.
-/
import GhostAmm.Lib.Waterfall
import GhostAmm.Model.FillModel

namespace GhostAmm

/-! ### One order -/

/-- What a trade with this flow fills of an order; not positive when it stays dry. -/
abbrev TrackedOrder.share (flow : ℚ) (order : TrackedOrder) : ℚ :=
  Waterfall.share TrackedOrder.queueAhead TrackedOrder.remainingSize flow order

/-- The queue a flow leaves in front of an order. -/
def TrackedOrder.queueLeft (flow : ℚ) (order : TrackedOrder) : ℚ :=
  order.queueAhead - min (max 0 order.queueAhead) (max 0 flow)

/-- The order a flow leaves, if it leaves any of it. -/
def TrackedOrder.after (flow : ℚ) (order : TrackedOrder) : Option TrackedOrder :=
  let x := order.share flow
  let queued := { order with queueAhead := order.queueLeft flow }
  if 0 < x then
    if order.remainingSize - x ≤ dust then none
    else some { queued with remainingSize := order.remainingSize - x }
  else some queued

/-- The payload of the fill of `x` of an order. -/
def fillPayload (makerFeeBps : ℚ) (event : Event) (fairState : FairPriceState)
    (order : TrackedOrder) (x : ℚ) : FillPayload where
  orderId := order.orderId
  side := order.side
  fillPrice := order.price
  fillSize := x
  fillTs := event.tsExchange
  fee := order.price * x * makerFeeBps / 10000
  feeAsset := "quote"
  makerFeeBps := makerFeeBps
  queueAheadEstimate := min order.queueAhead 0
  fairAtFill := fairState.fair
  fairAfter1s := none
  fairAfter5s := none
  fairAfter30s := none
  activation := order.activation
  shockEventId := order.shockEventId
  shockDirection := order.shockDirection
  shockAgeMs := order.shockAgeMs

/-- Without a flow an order stays as it is. -/
theorem TrackedOrder.after_of_nonpos {flow : ℚ} (h : flow ≤ 0) (order : TrackedOrder) :
    order.after flow = some order := by
  have hdry : ¬ 0 < order.share flow := not_lt.mpr (Waterfall.share_nonpos h order)
  unfold TrackedOrder.after TrackedOrder.queueLeft
  rw [max_eq_left h, min_eq_right (le_max_left _ _), sub_zero]
  simp only [if_neg hdry]

namespace ConservativeQueueFillModel

/-- Write down what is left of an order. -/
def record (orders : Py.Table TrackedOrder.orderId) (orderId : String) :
    Option TrackedOrder → Py.Table TrackedOrder.orderId
  | some order => orders.put order
  | none => orders.erase orderId

/-- The fill of an order that a flow reaches. -/
def fillOf (rt : Runtime) (self : ConservativeQueueFillModel) (order : TrackedOrder) (flow : ℚ)
    (event : Event) (fairState : FairPriceState) : List Event :=
  if 0 < order.share flow then
    [fillEvent rt order (order.share flow) self.makerFeeBps (order.queueLeft flow)
      (self.counter + 1) event fairState]
  else []

/-- The model when a flow has passed an order. -/
def passed (self : ConservativeQueueFillModel) (order : TrackedOrder) (flow : ℚ) :
    ConservativeQueueFillModel :=
  { self with
    orders := record self.orders order.orderId (order.after flow)
    counter := self.counter + if 0 < order.share flow then 1 else 0 }

/-- `consume`, through the three functions that describe it. -/
theorem consume_eq (rt : Runtime) (self : ConservativeQueueFillModel) (order : TrackedOrder)
    {flow : ℚ} (h : 0 < flow) (event : Event) (fairState : FairPriceState) :
    self.consume rt order flow event fairState
      = (self.passed order flow, self.fillOf rt order flow event fairState,
         Waterfall.leftover TrackedOrder.queueAhead TrackedOrder.remainingSize flow order) := by
  have hreduction : (if 0 < order.queueAhead then min order.queueAhead flow else 0)
      = min (max 0 order.queueAhead) flow := by
    split
    · rename_i hq
      rw [max_eq_right hq.le]
    · rename_i hq
      rw [max_eq_left (not_lt.mp hq), min_eq_left h.le]
  have hqueue : order.queueAhead - min (max 0 order.queueAhead) flow = order.queueLeft flow := by
    unfold TrackedOrder.queueLeft
    rw [max_eq_right h.le]
  unfold consume passed
  simp only [hreduction, hqueue]
  by_cases hcover : flow ≤ max 0 order.queueAhead
  · -- the queue takes the whole flow
    have hflow : flow - min (max 0 order.queueAhead) flow = 0 := by
      rw [min_eq_right hcover, sub_self]
    have hdry : order.share flow ≤ 0 := (min_le_right _ _).trans (sub_nonpos.mpr hcover)
    rw [if_pos (Or.inr hflow.le)]
    simp only [fillOf, TrackedOrder.after, if_neg (not_lt.mpr hdry), record, Waterfall.leftover,
      max_eq_left hdry, sub_zero, add_zero]
  · have hover : max 0 order.queueAhead < flow := not_le.mp hcover
    have hflow : flow - min (max 0 order.queueAhead) flow = flow - max 0 order.queueAhead := by
      rw [min_eq_left hover.le]
    have hgone : ¬ 0 < order.queueLeft flow := by
      rw [← hqueue, min_eq_left hover.le, not_lt]
      exact sub_nonpos.mpr (le_max_right _ _)
    have hpos : ¬ flow - max 0 order.queueAhead ≤ 0 := not_le.mpr (sub_pos.mpr hover)
    have hshare : min order.remainingSize (flow - max 0 order.queueAhead) = order.share flow := rfl
    rw [hflow, if_neg (not_or.mpr ⟨hgone, hpos⟩), hshare]
    by_cases hdry : order.share flow ≤ 0
    · rw [if_pos hdry]
      simp only [fillOf, TrackedOrder.after, if_neg (not_lt.mpr hdry), record, Waterfall.leftover,
        max_eq_left hdry, min_eq_left hover.le, sub_zero, add_zero]
    · have hwet : 0 < order.share flow := not_le.mp hdry
      rw [if_neg hdry]
      simp only [fillOf, TrackedOrder.after, if_pos hwet, Waterfall.leftover,
        max_eq_right hwet.le, min_eq_left hover.le]
      split <;> rfl

theorem fill?_fillEvent (rt : Runtime) (order : TrackedOrder) {flow : ℚ}
    (h : 0 < order.share flow) (makerFeeBps : ℚ) (counter : ℕ) (event : Event)
    (fairState : FairPriceState) :
    (fillEvent rt order (order.share flow) makerFeeBps (order.queueLeft flow) counter event
        fairState).fill?
      = some (fillPayload makerFeeBps event fairState order (order.share flow)) := by
  have hover : max 0 order.queueAhead < flow := sub_pos.mp (h.trans_le (min_le_right _ _))
  have hflow : 0 ≤ flow := (le_max_left _ _).trans hover.le
  have hqueue : order.queueLeft flow = min order.queueAhead 0 := by
    unfold TrackedOrder.queueLeft
    rw [max_eq_right hflow, min_eq_left hover.le]
    rcases le_total 0 order.queueAhead with hq | hq
    · rw [max_eq_right hq, min_eq_right hq, sub_self]
    · rw [max_eq_left hq, min_eq_left hq, sub_zero]
  show some _ = some _
  rw [hqueue]
  rfl

/-! ### The loop -/

theorem TrackedOrder.orderId_of_after {flow : ℚ} {order left : TrackedOrder}
    (h : order.after flow = some left) : left.orderId = order.orderId := by
  simp only [TrackedOrder.after] at h
  split at h
  · split at h
    · simp at h
    · rw [← Option.some.inj h]
  · rw [← Option.some.inj h]

theorem get?_record_self (orders : Py.Table TrackedOrder.orderId) (order : TrackedOrder)
    (flow : ℚ) :
    (record orders order.orderId (order.after flow)).get? order.orderId = order.after flow := by
  cases h : order.after flow with
  | none => exact Py.Table.get?_erase_self _ _
  | some left =>
      rw [← TrackedOrder.orderId_of_after h]
      exact Py.Table.get?_put_self _ _

theorem get?_record_ne (orders : Py.Table TrackedOrder.orderId) (order : TrackedOrder) (flow : ℚ)
    {id : String} (hid : id ≠ order.orderId) :
    (record orders order.orderId (order.after flow)).get? id = orders.get? id := by
  cases h : order.after flow with
  | none => exact Py.Table.get?_erase_ne _ hid
  | some left =>
      rw [← TrackedOrder.orderId_of_after h] at hid
      exact Py.Table.get?_put_ne _ hid

/-- The orders of a list that a flow reaches. -/
abbrev reachedIn (flow : ℚ) (orders : List TrackedOrder) : List (TrackedOrder × ℚ) :=
  Waterfall.reached TrackedOrder.queueAhead TrackedOrder.remainingSize flow orders

/-- What the orders in front of an order take of a flow. -/
abbrev ahead (orders : List TrackedOrder) : ℚ :=
  (orders.map (Waterfall.capacity TrackedOrder.queueAhead TrackedOrder.remainingSize)).sum

theorem fills_fillOf (rt : Runtime) (self : ConservativeQueueFillModel) (order : TrackedOrder)
    (flow : ℚ) (event : Event) (fairState : FairPriceState) :
    fills (self.fillOf rt order flow event fairState)
      = (if 0 < order.share flow then [(order, order.share flow)] else []).map
          fun p => fillPayload self.makerFeeBps event fairState p.1 p.2 := by
  unfold fillOf fills
  by_cases h : 0 < order.share flow
  · rw [if_pos h, if_pos h, List.filterMap_cons, fill?_fillEvent rt order h]
    rfl
  · rw [if_neg h, if_neg h]
    rfl

/-- Without a flow the loop is over. -/
theorem consumeAll_of_nonpos (rt : Runtime) (event : Event) (fairState : FairPriceState)
    (l : List TrackedOrder) (self : ConservativeQueueFillModel) {flow : ℚ} (h : flow ≤ 0) :
    consumeAll rt event fairState l self flow = (self, []) := by
  cases l with
  | nil => rfl
  | cons order rest => exact if_pos h

/-- A flow passes the first order, and what it leaves goes on. -/
theorem consumeAll_cons (rt : Runtime) (event : Event) (fairState : FairPriceState)
    (order : TrackedOrder) (rest : List TrackedOrder) (self : ConservativeQueueFillModel)
    {flow : ℚ} (h : 0 < flow) :
    consumeAll rt event fairState (order :: rest) self flow =
      let after := consumeAll rt event fairState rest (self.passed order flow)
        (Waterfall.leftover TrackedOrder.queueAhead TrackedOrder.remainingSize flow order)
      (after.1, self.fillOf rt order flow event fairState ++ after.2) := by
  have hstep := consume_eq rt self order h event fairState
  refine (if_neg (not_le.mpr h)).trans ?_
  rw [hstep]

/-- The fee is not the loop's business. -/
theorem consumeAll_makerFeeBps (rt : Runtime) (event : Event) (fairState : FairPriceState)
    (l : List TrackedOrder) : ∀ (self : ConservativeQueueFillModel) (flow : ℚ),
    (consumeAll rt event fairState l self flow).1.makerFeeBps = self.makerFeeBps := by
  induction l with
  | nil => intro self flow; rfl
  | cons order rest ih =>
      intro self flow
      by_cases h : flow ≤ 0
      · rw [consumeAll_of_nonpos rt event fairState _ self h]
      · rw [consumeAll_cons rt event fairState order rest self (not_le.mp h)]
        exact ih _ _

/-- The emitted fills are the closed form's. -/
theorem fills_consumeAll (rt : Runtime) (event : Event) (fairState : FairPriceState)
    (l : List TrackedOrder) : ∀ (self : ConservativeQueueFillModel) (flow : ℚ),
    fills (consumeAll rt event fairState l self flow).2
      = (reachedIn flow l).map fun p =>
          fillPayload self.makerFeeBps event fairState p.1 p.2 := by
  induction l with
  | nil => intro self flow; rfl
  | cons order rest ih =>
      intro self flow
      by_cases h : flow ≤ 0
      · rw [consumeAll_of_nonpos rt event fairState _ self h, reachedIn,
          Waterfall.reached_of_nonpos h]
        rfl
      · rw [consumeAll_cons rt event fairState order rest self (not_le.mp h)]
        show fills (_ ++ _) = _
        unfold fills
        rw [List.filterMap_append]
        have hrest := ih (self.passed order flow)
          (Waterfall.leftover TrackedOrder.queueAhead TrackedOrder.remainingSize flow order)
        unfold fills at hrest
        rw [hrest, reachedIn, Waterfall.reached_leftover, reachedIn, Waterfall.reached_cons,
          List.map_append]
        congr 1
        exact fills_fillOf rt self order flow event fairState

/-- Whatever the loop emits is a fill. -/
theorem body_consumeAll (rt : Runtime) (event : Event) (fairState : FairPriceState)
    (l : List TrackedOrder) : ∀ (self : ConservativeQueueFillModel) (flow : ℚ),
    ∀ e ∈ (consumeAll rt event fairState l self flow).2,
      ∃ payload, e.body = .virtualFill payload := by
  induction l with
  | nil => intro self flow e he; exact absurd he List.not_mem_nil
  | cons order rest ih =>
      intro self flow e he
      by_cases h : flow ≤ 0
      · rw [consumeAll_of_nonpos rt event fairState _ self h] at he
        simp at he
      · rw [consumeAll_cons rt event fairState order rest self (not_le.mp h)] at he
        rcases List.mem_append.mp he with he | he
        · unfold fillOf at he
          split at he
          · rw [List.mem_singleton.mp he]
            exact ⟨_, rfl⟩
          · simp at he
        · exact ih _ _ e he

/-- An order that is not in the list is left alone. -/
theorem get?_consumeAll_of_not_mem (rt : Runtime) (event : Event) (fairState : FairPriceState)
    {id : String} (l : List TrackedOrder) : ∀ (self : ConservativeQueueFillModel) (flow : ℚ),
    id ∉ l.map TrackedOrder.orderId →
    (consumeAll rt event fairState l self flow).1.orders.get? id = self.orders.get? id := by
  induction l with
  | nil => intro self flow _; rfl
  | cons order rest ih =>
      intro self flow hid
      simp only [List.map_cons, List.mem_cons, not_or] at hid
      by_cases h : flow ≤ 0
      · rw [consumeAll_of_nonpos rt event fairState _ self h]
      · rw [consumeAll_cons rt event fairState order rest self (not_le.mp h)]
        exact (ih _ _ hid.2).trans (get?_record_ne _ _ _ hid.1)

/-- An order in the list ends as the flow that gets to it leaves it. -/
theorem get?_consumeAll (rt : Runtime) (event : Event) (fairState : FairPriceState)
    {order : TrackedOrder} {ys : List TrackedOrder} (xs : List TrackedOrder) :
    ∀ (self : ConservativeQueueFillModel) (flow : ℚ),
    ((xs ++ order :: ys).map TrackedOrder.orderId).Nodup →
    self.orders.get? order.orderId = some order →
    (consumeAll rt event fairState (xs ++ order :: ys) self flow).1.orders.get? order.orderId
      = order.after (flow - ahead xs) := by
  induction xs with
  | nil =>
      intro self flow hnodup hself
      have hys : order.orderId ∉ ys.map TrackedOrder.orderId := (List.nodup_cons.mp hnodup).1
      show (consumeAll rt event fairState (order :: ys) self flow).1.orders.get? _ = _
      rw [show flow - ahead [] = flow from sub_zero flow]
      by_cases h : flow ≤ 0
      · rw [consumeAll_of_nonpos rt event fairState _ self h, TrackedOrder.after_of_nonpos h]
        exact hself
      · rw [consumeAll_cons rt event fairState order ys self (not_le.mp h)]
        exact (get?_consumeAll_of_not_mem rt event fairState ys _ _ hys).trans
          (get?_record_self _ _ _)
  | cons x rest ih =>
      intro self flow hnodup hself
      have hne : order.orderId ≠ x.orderId := by
        intro heq
        refine (List.nodup_cons.mp hnodup).1 ?_
        rw [← heq]
        exact List.mem_map_of_mem (by simp)
      have hahead : flow - ahead (x :: rest)
          = flow - Waterfall.capacity TrackedOrder.queueAhead TrackedOrder.remainingSize x
            - ahead rest := by
        unfold ahead
        rw [List.map_cons, List.sum_cons, sub_sub]
      rw [List.cons_append]
      by_cases h : flow ≤ 0
      · have hcap : 0 ≤ ahead (x :: rest) := Waterfall.capacities_nonneg (x :: rest)
        rw [consumeAll_of_nonpos rt event fairState _ self h,
          TrackedOrder.after_of_nonpos (by linarith)]
        exact hself
      · rw [consumeAll_cons rt event fairState x _ self (not_le.mp h), hahead]
        refine (ih _ _ (List.nodup_cons.mp hnodup).2 ?_).trans ?_
        · exact (get?_record_ne _ _ _ hne).trans hself
        · rw [Waterfall.leftover_eq]
          generalize flow - Waterfall.capacity _ _ x = left
          by_cases hleft : left ≤ 0
          · have hcap : 0 ≤ ahead rest := Waterfall.capacities_nonneg rest
            rw [max_eq_left hleft, TrackedOrder.after_of_nonpos (by linarith),
              TrackedOrder.after_of_nonpos (by linarith)]
          · rw [max_eq_right (not_le.mp hleft).le]

/-! ### A market event -/

/-- The orders an event fills, best first, with how much of each. -/
def reachedBy (cfg : FillModelConfig) (self : ConservativeQueueFillModel) (event : Event) :
    List (TrackedOrder × ℚ) :=
  match event.body with
  | .trade trade => reachedIn trade.amount (self.eligibleOrders cfg trade event.tsExchange)
  | _ => []

/-- What `on_market_event` does: `model` becomes `after` and `events` are emitted. -/
structure Traded (cfg : FillModelConfig) (model : ConservativeQueueFillModel) (event : Event)
    (fairState : FairPriceState) (after : ConservativeQueueFillModel) (events : List Event) :
    Prop where
  makerFeeBps : after.makerFeeBps = model.makerFeeBps
  fills : fills events = (model.reachedBy cfg event).map fun p =>
    fillPayload model.makerFeeBps event fairState p.1 p.2
  body : ∀ e ∈ events, ∃ payload, e.body = .virtualFill payload
  /-- A reached order keeps what is left of it, or goes. -/
  reached : ∀ order x, (order, x) ∈ model.reachedBy cfg event →
    if order.remainingSize - x ≤ dust then after.orders.get? order.orderId = none
    else ∃ q, after.orders.get? order.orderId
      = some { order with queueAhead := q, remainingSize := order.remainingSize - x }
  /-- An order that is not reached stays, though the queue in front of it may shrink. -/
  dry : ∀ order ∈ model.orders.rows, (∀ x, (order, x) ∉ model.reachedBy cfg event) →
    ∃ q, after.orders.get? order.orderId = some { order with queueAhead := q }
  /-- Nothing new is tracked. -/
  fresh : ∀ id, model.orders.get? id = none → after.orders.get? id = none

/-- A trade reaches the eligible orders, one after the other. -/
theorem reachedBy_trade (cfg : FillModelConfig) (self : ConservativeQueueFillModel) {event : Event}
    {trade : TradePayload} (hbody : event.body = .trade trade) :
    self.reachedBy cfg event
      = reachedIn trade.amount (self.eligibleOrders cfg trade event.tsExchange) := by
  unfold reachedBy
  rw [hbody]

/-- A trade is consumed by the eligible orders. -/
theorem onMarketEvent_trade (rt : Runtime) (cfg : FillModelConfig)
    (self : ConservativeQueueFillModel) {event : Event} (fairState : FairPriceState)
    {trade : TradePayload} (hbody : event.body = .trade trade) :
    self.onMarketEvent rt cfg event fairState
      = consumeAll rt event fairState (self.eligibleOrders cfg trade event.tsExchange) self
          trade.amount := by
  unfold onMarketEvent
  rw [hbody]

theorem mem_eligibleOrders {cfg : FillModelConfig} {self : ConservativeQueueFillModel}
    {trade : TradePayload} {nowMs : ℚ} {order : TrackedOrder} :
    order ∈ self.eligibleOrders cfg trade nowMs ↔
      order ∈ self.orders.rows ∧ isEligible cfg trade nowMs order = true := by
  unfold eligibleOrders
  rw [List.mem_insertionSort, List.mem_filter]

theorem nodup_eligibleOrders (cfg : FillModelConfig) (self : ConservativeQueueFillModel)
    (trade : TradePayload) (nowMs : ℚ) :
    ((self.eligibleOrders cfg trade nowMs).map TrackedOrder.orderId).Nodup := by
  have hperm := List.perm_insertionSort (fun a b => hasPriority trade.side a b = true)
    (self.orders.rows.filter (isEligible cfg trade nowMs))
  refine ((hperm.map TrackedOrder.orderId).nodup_iff).mpr ?_
  exact self.orders.nodup.sublist (List.Sublist.map _ List.filter_sublist)

theorem nodup_reachedBy (cfg : FillModelConfig) (self : ConservativeQueueFillModel)
    (event : Event) : ((self.reachedBy cfg event).map fun p => p.1.orderId).Nodup := by
  unfold reachedBy
  split
  · rename_i trade _
    have hsub := @Waterfall.reached_sublist _ _ _ _ TrackedOrder.queueAhead
      TrackedOrder.remainingSize (self.eligibleOrders cfg trade event.tsExchange) trade.amount
    have hids := hsub.map TrackedOrder.orderId
    rw [List.map_map] at hids
    exact (nodup_eligibleOrders cfg self trade event.tsExchange).sublist hids
  · exact List.nodup_nil

/-- The trade and the tracked order behind a reached order. -/
theorem of_mem_reachedBy {cfg : FillModelConfig} {self : ConservativeQueueFillModel}
    {event : Event} {order : TrackedOrder} {x : ℚ} (h : (order, x) ∈ self.reachedBy cfg event) :
    order ∈ self.orders.rows ∧ 0 < x ∧ x ≤ order.remainingSize ∧
      ∃ trade, event.body = .trade trade ∧
        isEligible cfg trade event.tsExchange order = true := by
  unfold reachedBy at h
  split at h
  · rename_i trade hbody
    obtain ⟨hrow, helig⟩ := mem_eligibleOrders.mp (Waterfall.mem_of_mem_reached h)
    exact ⟨hrow, Waterfall.pos_of_mem_reached h, Waterfall.le_size_of_mem_reached h, trade, hbody,
      helig⟩
  · simp at h

section Trade

variable (rt : Runtime) (cfg : FillModelConfig) (self : ConservativeQueueFillModel)
  (event : Event) (fairState : FairPriceState) (trade : TradePayload)

/-- The orders after a trade of `trade.amount` at the time of `event`. -/
private abbrev ordersAfter : Py.Table TrackedOrder.orderId :=
  (consumeAll rt event fairState (self.eligibleOrders cfg trade event.tsExchange) self
    trade.amount).1.orders

private theorem ordersAfter_eligible {order : TrackedOrder} {xs ys : List TrackedOrder}
    (hl : self.eligibleOrders cfg trade event.tsExchange = xs ++ order :: ys) :
    (ordersAfter rt cfg self event fairState trade).get? order.orderId
      = order.after (trade.amount - ahead xs) := by
  have hnodup := nodup_eligibleOrders cfg self trade event.tsExchange
  have hrow : order ∈ self.eligibleOrders cfg trade event.tsExchange := by
    rw [hl]
    simp
  have hself : self.orders.get? order.orderId = some order :=
    Py.Table.get?_eq_some.mpr ⟨(mem_eligibleOrders.mp hrow).1, rfl⟩
  unfold ordersAfter
  rw [hl] at hnodup ⊢
  exact get?_consumeAll rt event fairState xs self trade.amount hnodup hself

private theorem ordersAfter_other {id : String}
    (h : ∀ order ∈ self.eligibleOrders cfg trade event.tsExchange, order.orderId ≠ id) :
    (ordersAfter rt cfg self event fairState trade).get? id = self.orders.get? id := by
  refine get?_consumeAll_of_not_mem rt event fairState _ _ _ fun hmem => ?_
  obtain ⟨order, ho, heq⟩ := List.mem_map.mp hmem
  exact h order ho heq

private theorem ordersAfter_reached {order : TrackedOrder} {x : ℚ}
    (hx : (order, x) ∈ reachedIn trade.amount (self.eligibleOrders cfg trade event.tsExchange)) :
    if order.remainingSize - x ≤ dust then
      (ordersAfter rt cfg self event fairState trade).get? order.orderId = none
    else ∃ q, (ordersAfter rt cfg self event fairState trade).get? order.orderId
      = some { order with queueAhead := q, remainingSize := order.remainingSize - x } := by
  obtain ⟨xs, ys, hl, hshare, hpos⟩ := Waterfall.mem_reached.mp hx
  rw [ordersAfter_eligible rt cfg self event fairState trade hl]
  simp only [TrackedOrder.after]
  rw [show order.share (trade.amount - ahead xs) = x from hshare.symm, if_pos hpos]
  by_cases hdust : order.remainingSize - x ≤ dust
  · rw [if_pos hdust, if_pos hdust]
  · rw [if_neg hdust, if_neg hdust]
    exact ⟨_, rfl⟩

private theorem ordersAfter_dry {order : TrackedOrder} (hrow : order ∈ self.orders.rows)
    (hdry : ∀ x, (order, x) ∉
      reachedIn trade.amount (self.eligibleOrders cfg trade event.tsExchange)) :
    ∃ q, (ordersAfter rt cfg self event fairState trade).get? order.orderId
      = some { order with queueAhead := q } := by
  by_cases ho : order ∈ self.eligibleOrders cfg trade event.tsExchange
  · obtain ⟨xs, ys, hl⟩ := List.append_of_mem ho
    have hshare : ¬ 0 < order.share (trade.amount - ahead xs) := fun hpos =>
      hdry _ (Waterfall.mem_reached.mpr ⟨xs, ys, hl, rfl, hpos⟩)
    rw [ordersAfter_eligible rt cfg self event fairState trade hl]
    simp only [TrackedOrder.after, if_neg hshare]
    exact ⟨_, rfl⟩
  · have hother : ∀ other ∈ self.eligibleOrders cfg trade event.tsExchange,
        other.orderId ≠ order.orderId := by
      intro other hmem heq
      have hsame := Py.Table.eq_of_key_eq (mem_eligibleOrders.mp hmem).1 hrow heq
      exact ho (hsame ▸ hmem)
    rw [ordersAfter_other rt cfg self event fairState trade hother]
    exact ⟨order.queueAhead, Py.Table.get?_eq_some.mpr ⟨hrow, rfl⟩⟩

end Trade

/-- **The fills of an event are the orders it reaches, and only they change in size.** -/
theorem onMarketEvent_spec (rt : Runtime) (cfg : FillModelConfig)
    (self : ConservativeQueueFillModel) (event : Event) (fairState : FairPriceState) :
    Traded cfg self event fairState (self.onMarketEvent rt cfg event fairState).1
      (self.onMarketEvent rt cfg event fairState).2 := by
  cases hbody : event.body with
  | trade trade =>
      have hreached := reachedBy_trade cfg self hbody
      rw [onMarketEvent_trade rt cfg self fairState hbody]
      refine ⟨?_, ?_, ?_, ?_, ?_, ?_⟩
      · exact consumeAll_makerFeeBps rt event fairState _ _ _
      · rw [hreached]
        exact fills_consumeAll rt event fairState _ _ _
      · exact body_consumeAll rt event fairState _ _ _
      · intro order x hx
        rw [hreached] at hx
        exact ordersAfter_reached rt cfg self event fairState trade hx
      · intro order hrow hdry
        rw [hreached] at hdry
        exact ordersAfter_dry rt cfg self event fairState trade hrow hdry
      · intro id hid
        have hother : ∀ order ∈ self.eligibleOrders cfg trade event.tsExchange,
            order.orderId ≠ id := fun order ho =>
          Py.Table.get?_eq_none.mp hid order (mem_eligibleOrders.mp ho).1
        exact (ordersAfter_other rt cfg self event fairState trade hother).trans hid
  | _ =>
      -- no other event touches an order
      have hreached : self.reachedBy cfg event = [] := by
        unfold reachedBy
        rw [hbody]
      have hmodel : self.onMarketEvent rt cfg event fairState = (self, []) := by
        unfold onMarketEvent
        rw [hbody]
      rw [hmodel]
      refine ⟨rfl, ?_, ?_, ?_, ?_, fun _ h => h⟩
      · rw [hreached]
        rfl
      · intro e he
        simp at he
      · intro order x hx
        rw [hreached] at hx
        simp at hx
      · intro order hrow _
        exact ⟨order.queueAhead, Py.Table.get?_eq_some.mpr ⟨hrow, rfl⟩⟩

/-- What is tracked after an event was tracked before it, with another queue and another size. -/
theorem Traded.of_mem {cfg : FillModelConfig} {model after : ConservativeQueueFillModel}
    {event : Event} {fairState : FairPriceState} {events : List Event}
    (ht : Traded cfg model event fairState after events) {t : TrackedOrder}
    (h : t ∈ after.orders.rows) :
    ∃ order ∈ model.orders.rows, ∃ q x,
      t = { order with queueAhead := q, remainingSize := x } := by
  have hget : after.orders.get? t.orderId = some t := Py.Table.get?_eq_some.mpr ⟨h, rfl⟩
  cases hid : model.orders.get? t.orderId with
  | none =>
      rw [ht.fresh _ hid] at hget
      simp at hget
  | some order =>
      obtain ⟨hrow, heq⟩ := Py.Table.get?_eq_some.mp hid
      refine ⟨order, hrow, ?_⟩
      rw [← heq] at hget
      by_cases hreached : ∃ x, (order, x) ∈ model.reachedBy cfg event
      · obtain ⟨x, hx⟩ := hreached
        have hafter := ht.reached order x hx
        split at hafter
        · rw [hafter] at hget
          simp at hget
        · obtain ⟨q, hq⟩ := hafter
          exact ⟨q, _, (Option.some.inj (hq.symm.trans hget)).symm⟩
      · obtain ⟨q, hq⟩ := ht.dry order hrow fun x hx => hreached ⟨x, hx⟩
        exact ⟨q, order.remainingSize, (Option.some.inj (hq.symm.trans hget)).symm⟩

/-! ### One order at a market event -/

/-- How much of an order a log fills. -/
def filledSize (orderId : String) (log : List Event) : ℚ :=
  (((fills log).filter fun fill => decide (fill.orderId = orderId)).map FillPayload.fillSize).sum

/-- What a waterfall gives one of its orders. -/
private theorem sizes_reachedIn {order : TrackedOrder} {xs ys : List TrackedOrder} {flow : ℚ}
    (hnodup : ((xs ++ order :: ys).map TrackedOrder.orderId).Nodup) :
    (((reachedIn flow (xs ++ order :: ys)).filter fun p =>
        decide (p.1.orderId = order.orderId)).map Prod.snd).sum
      = max 0 (order.share (flow - ahead xs)) := by
  have hother : ∀ (l : List TrackedOrder) (f : ℚ), order.orderId ∉ l.map TrackedOrder.orderId →
      (reachedIn f l).filter (fun p => decide (p.1.orderId = order.orderId)) = [] := by
    intro l f hl
    rw [List.filter_eq_nil_iff]
    intro p hp
    have hmem := Waterfall.mem_of_mem_reached hp
    have hne : p.1.orderId ≠ order.orderId := fun h => hl (h ▸ List.mem_map_of_mem hmem)
    simpa using hne
  rw [List.map_append, List.map_cons, List.nodup_append] at hnodup
  obtain ⟨-, htail, hdisjoint⟩ := hnodup
  have hxs : order.orderId ∉ xs.map TrackedOrder.orderId := fun h =>
    hdisjoint _ h _ (by simp) rfl
  unfold reachedIn at hother ⊢
  rw [Waterfall.reached_append, Waterfall.reached_cons, List.filter_append, List.filter_append,
    hother xs flow hxs, hother ys _ (List.nodup_cons.mp htail).1, List.append_nil,
    List.nil_append]
  by_cases hpos : 0 < order.share (flow - ahead xs)
  · rw [if_pos hpos, max_eq_right hpos.le]
    simp
  · rw [if_neg hpos, max_eq_left (not_lt.mp hpos)]
    simp

theorem filledSize_onMarketEvent (rt : Runtime) (cfg : FillModelConfig)
    (self : ConservativeQueueFillModel) (event : Event) (fairState : FairPriceState)
    (orderId : String) :
    filledSize orderId (self.onMarketEvent rt cfg event fairState).2
      = (((self.reachedBy cfg event).filter fun p =>
          decide (p.1.orderId = orderId)).map Prod.snd).sum := by
  unfold filledSize
  rw [(onMarketEvent_spec rt cfg self event fairState).fills, List.filter_map, List.map_map]
  rfl

/-- A trade does to an eligible order what the flow does that the orders before it leave. -/
theorem onMarketEvent_eligible (rt : Runtime) {cfg : FillModelConfig}
    {self : ConservativeQueueFillModel} {event : Event} (fairState : FairPriceState)
    {trade : TradePayload} (hbody : event.body = .trade trade) {order : TrackedOrder}
    {xs ys : List TrackedOrder}
    (hl : self.eligibleOrders cfg trade event.tsExchange = xs ++ order :: ys) :
    (self.onMarketEvent rt cfg event fairState).1.orders.get? order.orderId
        = order.after (trade.amount - ahead xs) ∧
      filledSize order.orderId (self.onMarketEvent rt cfg event fairState).2
        = max 0 (order.share (trade.amount - ahead xs)) := by
  constructor
  · have hafter := ordersAfter_eligible rt cfg self event fairState trade hl
    rw [onMarketEvent_trade rt cfg self fairState hbody]
    exact hafter
  · have hnodup := nodup_eligibleOrders cfg self trade event.tsExchange
    rw [hl] at hnodup
    rw [filledSize_onMarketEvent, reachedBy_trade cfg self hbody]
    show (((reachedIn trade.amount (self.eligibleOrders cfg trade event.tsExchange)).filter
      _).map _).sum = _
    rw [hl]
    exact sizes_reachedIn hnodup

/-- An order that is not eligible is left alone. -/
theorem onMarketEvent_ineligible (rt : Runtime) {cfg : FillModelConfig}
    {self : ConservativeQueueFillModel} {event : Event} (fairState : FairPriceState)
    {order : TrackedOrder} (hrow : order ∈ self.orders.rows)
    (h : ∀ trade, event.body = .trade trade →
      isEligible cfg trade event.tsExchange order = false) :
    (self.onMarketEvent rt cfg event fairState).1.orders.get? order.orderId = some order ∧
      filledSize order.orderId (self.onMarketEvent rt cfg event fairState).2 = 0 := by
  have hself : self.orders.get? order.orderId = some order :=
    Py.Table.get?_eq_some.mpr ⟨hrow, rfl⟩
  constructor
  · unfold onMarketEvent
    cases hbody : event.body with
    | trade trade =>
        refine (ordersAfter_other rt cfg self event fairState trade fun other ho heq => ?_).trans
          hself
        obtain ⟨horow, helig⟩ := mem_eligibleOrders.mp ho
        rw [Py.Table.eq_of_key_eq horow hrow heq, h trade hbody] at helig
        simp at helig
    | _ => exact hself
  · have hnone : (self.reachedBy cfg event).filter
        (fun p => decide (p.1.orderId = order.orderId)) = [] := by
      rw [List.filter_eq_nil_iff]
      intro p hp hid
      obtain ⟨hprow, -, -, trade, hbody, helig⟩ := of_mem_reachedBy hp
      rw [Py.Table.eq_of_key_eq hprow hrow (by simpa using hid), h trade hbody] at helig
      simp at helig
    rw [filledSize_onMarketEvent, hnone]
    rfl

/--
What a market event does to one tracked order: it is what some flow does, and the flow is no
more than the amount of an eligible trade.
-/
theorem onMarketEvent_order (rt : Runtime) (cfg : FillModelConfig)
    (self : ConservativeQueueFillModel) (event : Event) (fairState : FairPriceState)
    {order : TrackedOrder} (hrow : order ∈ self.orders.rows) :
    ∃ flow, (self.onMarketEvent rt cfg event fairState).1.orders.get? order.orderId
        = order.after flow ∧
      filledSize order.orderId (self.onMarketEvent rt cfg event fairState).2
        = max 0 (order.share flow) ∧
      (0 < flow → ∃ trade, event.body = .trade trade ∧
        isEligible cfg trade event.tsExchange order = true ∧ flow ≤ trade.amount) := by
  by_cases helig : ∃ trade, event.body = .trade trade ∧
      order ∈ self.eligibleOrders cfg trade event.tsExchange
  · obtain ⟨trade, hbody, hmem⟩ := helig
    obtain ⟨xs, ys, hl⟩ := List.append_of_mem hmem
    obtain ⟨hafter, hfilled⟩ := onMarketEvent_eligible rt fairState hbody hl
    have hahead : 0 ≤ ahead xs := Waterfall.capacities_nonneg xs
    exact ⟨trade.amount - ahead xs, hafter, hfilled, fun _ =>
      ⟨trade, hbody, (mem_eligibleOrders.mp hmem).2, by linarith⟩⟩
  · obtain ⟨hafter, hfilled⟩ := onMarketEvent_ineligible rt fairState hrow fun trade hbody => by
      by_contra h
      exact helig ⟨trade, hbody, mem_eligibleOrders.mpr ⟨hrow, by simpa using h⟩⟩
    refine ⟨0, ?_, ?_, fun h => absurd h (lt_irrefl 0)⟩
    · rw [hafter, TrackedOrder.after_of_nonpos le_rfl]
    · rw [hfilled, max_eq_left (Waterfall.share_nonpos le_rfl order)]

/-- An order that is not tracked is not filled. -/
theorem filledSize_of_untracked (rt : Runtime) (cfg : FillModelConfig)
    (self : ConservativeQueueFillModel) (event : Event) (fairState : FairPriceState)
    {orderId : String} (h : self.orders.get? orderId = none) :
    filledSize orderId (self.onMarketEvent rt cfg event fairState).2 = 0 := by
  have hnone : (self.reachedBy cfg event).filter
      (fun p => decide (p.1.orderId = orderId)) = [] := by
    rw [List.filter_eq_nil_iff]
    intro p hp hid
    obtain ⟨hprow, -⟩ := of_mem_reachedBy hp
    exact Py.Table.get?_eq_none.mp h p.1 hprow (by simpa using hid)
  rw [filledSize_onMarketEvent, hnone]
  rfl

end ConservativeQueueFillModel

end GhostAmm
