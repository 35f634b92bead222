/-
A longer queue never fills more.

Two fill models get the same calls and differ only in how long the queues are taken to be.
They drift apart: an order that waits longer is filled later, and what it takes then is missing
behind it.  What stays is that every order has at most as much left in front of it and of itself
(`rest`) in the model with the shorter queues.  One trade keeps that, because what an order gets
is the trade less what stands before it, and everything that stands before it has no more left
either.  An order that the first model has dropped was filled up to the dust, so the second
cannot be ahead of it by more.
-/
import GhostAmm.Proofs.Priority
import GhostAmm.Proofs.Queue

namespace GhostAmm

/-! ### What is left of an order -/

/-- What has to be traded before an order is gone: its queue and the order itself. -/
def TrackedOrder.rest (order : TrackedOrder) : ℚ := order.queueAhead + order.remainingSize

/-- A tracked order of which `filled` of `size` is filled. -/
structure Resting (size filled : ℚ) (order : TrackedOrder) : Prop where
  nonneg : 0 ≤ filled
  queue : 0 ≤ order.queueAhead
  above : dust < order.remainingSize
  /-- Nothing is filled before the queue is gone. -/
  waiting : 0 < order.queueAhead → order.remainingSize = size
  sum : filled + order.remainingSize = size

theorem dust_pos : 0 < dust := by
  unfold dust
  positivity

namespace Resting

variable {size filled flow : ℚ} {order left : TrackedOrder}

theorem capacity_eq (h : Resting size filled order) :
    Waterfall.capacity TrackedOrder.queueAhead TrackedOrder.remainingSize order = order.rest := by
  unfold Waterfall.capacity TrackedOrder.rest
  rw [max_eq_right h.queue, max_eq_right (dust_pos.trans h.above).le]

/-- A flow covers the queue and fills the order up to what is left of both. -/
theorem covered_add_share (h : Resting size filled order) :
    min order.queueAhead (max 0 flow) + max 0 (order.share flow)
      = min order.rest (max 0 flow) := by
  have hpoured := @Waterfall.poured_eq _ _ _ _ TrackedOrder.queueAhead
    TrackedOrder.remainingSize _ flow order
  unfold Waterfall.poured at hpoured
  rw [h.capacity_eq, max_eq_right h.queue] at hpoured
  exact hpoured

/-- An order that a flow reaches has its whole queue covered. -/
theorem covered (h : Resting size filled order) (hshare : 0 < order.share flow) :
    min order.queueAhead (max 0 flow) = order.queueAhead := by
  have hpast : max 0 order.queueAhead < flow := sub_pos.mp (hshare.trans_le (min_le_right _ _))
  rw [max_eq_right h.queue] at hpast
  exact min_eq_left (hpast.le.trans (le_max_right _ _))

/-- What a flow leaves of the queue. -/
theorem queueLeft_eq (h : Resting size filled order) :
    order.queueLeft flow = order.queueAhead - min order.queueAhead (max 0 flow) := by
  unfold TrackedOrder.queueLeft
  rw [max_eq_right h.queue]

/-- A flow that reaches the order leaves no queue. -/
theorem survives_reached (h : Resting size filled order) (hshare : 0 < order.share flow)
    (habove : dust < order.remainingSize - order.share flow) :
    let left : TrackedOrder := { order with
      queueAhead := order.queueLeft flow, remainingSize := order.remainingSize - order.share flow }
    Resting size (filled + order.share flow) left ∧
      left.rest = order.rest - min order.rest (max 0 flow) := by
  intro left
  have hsum := h.sum
  have hcovered := h.covered hshare
  have htaken : _ + max 0 (order.share flow) = _ := h.covered_add_share
  rw [hcovered, max_eq_right hshare.le] at htaken
  have hzero : order.queueLeft flow = 0 := by
    rw [h.queueLeft_eq, hcovered, sub_self]
  refine ⟨⟨add_nonneg h.nonneg hshare.le, hzero.ge, habove, ?_, ?_⟩, ?_⟩
  · intro hpos
    exact absurd hzero hpos.ne'
  · show filled + order.share flow + (order.remainingSize - order.share flow) = size
    linarith
  · show order.queueLeft flow + (order.remainingSize - order.share flow) = _
    rw [hzero, ← htaken]
    unfold TrackedOrder.rest
    ring

/-- A flow that does not reach the order shortens its queue. -/
theorem survives_dry (h : Resting size filled order) (hdry : order.share flow ≤ 0) :
    let left : TrackedOrder := { order with queueAhead := order.queueLeft flow }
    Resting size filled left ∧ left.rest = order.rest - min order.rest (max 0 flow) := by
  intro left
  have htaken : _ + max 0 (order.share flow) = _ := h.covered_add_share
  rw [max_eq_left hdry, add_zero] at htaken
  have hqueue : order.queueLeft flow = _ := h.queueLeft_eq
  refine ⟨⟨h.nonneg, ?_, h.above, ?_, h.sum⟩, ?_⟩
  · show 0 ≤ order.queueLeft flow
    rw [hqueue]
    exact sub_nonneg.mpr (min_le_left _ _)
  · intro hpos
    refine h.waiting (lt_of_lt_of_le (show 0 < order.queueLeft flow from hpos) ?_)
    rw [hqueue]
    exact sub_le_self _ (le_min h.queue (le_max_left _ _))
  · show order.queueLeft flow + order.remainingSize = _
    rw [hqueue, ← htaken]
    unfold TrackedOrder.rest
    ring

/-- An order that survives a flow rests with so much less. -/
theorem survives (h : Resting size filled order) (hafter : order.after flow = some left) :
    Resting size (filled + max 0 (order.share flow)) left ∧
      left.rest = order.rest - min order.rest (max 0 flow) := by
  simp only [TrackedOrder.after] at hafter
  by_cases hshare : 0 < order.share flow
  · rw [if_pos hshare] at hafter
    split at hafter
    · simp at hafter
    · rename_i habove
      rw [max_eq_right hshare.le, ← Option.some.inj hafter]
      exact h.survives_reached hshare (not_le.mp habove)
  · rw [if_neg hshare] at hafter
    rw [max_eq_left (not_lt.mp hshare), add_zero, ← Option.some.inj hafter]
    exact h.survives_dry (not_lt.mp hshare)

/-- An order that a flow takes away was filled up to the dust. -/
theorem vanishes (h : Resting size filled order) (hafter : order.after flow = none) :
    size - dust ≤ filled + max 0 (order.share flow) ∧
      filled + max 0 (order.share flow) ≤ size ∧
      order.rest - min order.rest (max 0 flow) ≤ dust := by
  have htaken : min order.queueAhead (max 0 flow) + max 0 (order.share flow)
      = min order.rest (max 0 flow) := h.covered_add_share
  have hsum := h.sum
  simp only [TrackedOrder.after] at hafter
  by_cases hshare : 0 < order.share flow
  · rw [if_pos hshare] at hafter
    split at hafter
    · rename_i hdust
      have hle : order.share flow ≤ order.remainingSize := min_le_left _ _
      rw [h.covered hshare] at htaken
      rw [max_eq_right hshare.le] at htaken ⊢
      unfold TrackedOrder.rest at htaken ⊢
      exact ⟨by linarith, by linarith, by linarith⟩
    · simp at hafter
  · rw [if_neg hshare] at hafter
    simp at hafter

/-- Whatever a flow does, no more than the order is filled. -/
theorem filled_le (h : Resting size filled order) :
    filled + max 0 (order.share flow) ≤ size := by
  have hsum := h.sum
  have hshare : max 0 (order.share flow) ≤ order.remainingSize :=
    max_le (dust_pos.trans h.above).le (min_le_left _ _)
  linarith

theorem dust_lt_rest (h : Resting size filled order) : dust < order.rest :=
  lt_of_lt_of_le h.above (le_add_of_nonneg_left h.queue)

end Resting

/-! ### One order in two models -/

/-- What both models know of an order from its placement. -/
def SamePlacement (a b : TrackedOrder) : Prop :=
  a.orderId = b.orderId ∧ a.side = b.side ∧ a.price = b.price ∧ a.createdAt = b.createdAt

theorem SamePlacement.isEligible_eq {a b : TrackedOrder} (h : SamePlacement a b)
    {cfg cfg' : FillModelConfig} (hrested : cfg'.minRestingTimeMs = cfg.minRestingTimeMs)
    (trade : TradePayload) (nowMs : ℚ) :
    ConservativeQueueFillModel.isEligible cfg' trade nowMs b
      = ConservativeQueueFillModel.isEligible cfg trade nowMs a := by
  obtain ⟨-, hside, hprice, hcreated⟩ := h
  unfold ConservativeQueueFillModel.isEligible
  rw [hrested, hside, hprice, hcreated]

theorem SamePlacement.sortKey_eq {a b : TrackedOrder} (h : SamePlacement a b)
    (taker : Option Side) :
    ConservativeQueueFillModel.sortKey taker b = ConservativeQueueFillModel.sortKey taker a := by
  obtain ⟨hid, -, hprice, hcreated⟩ := h
  unfold ConservativeQueueFillModel.sortKey ConservativeQueueFillModel.sortPrice
  rw [hid, hprice, hcreated]

/-- A flow does not move an order. -/
theorem SamePlacement.after {order order' left left' : TrackedOrder}
    {flow flow' : ℚ} (hsame : SamePlacement order order') (hafter : order.after flow = some left)
    (hafter' : order'.after flow' = some left') : SamePlacement left left' := by
  obtain ⟨hid, hside, hprice, hcreated⟩ := hsame
  obtain ⟨hs, hp, hc, -⟩ := ConservativeQueueFillModel.after_frame hafter
  obtain ⟨hs', hp', hc', -⟩ := ConservativeQueueFillModel.after_frame hafter'
  have hi := ConservativeQueueFillModel.TrackedOrder.orderId_of_after hafter
  have hi' := ConservativeQueueFillModel.TrackedOrder.orderId_of_after hafter'
  exact ⟨(hi.trans hid).trans hi'.symm, (hs.trans hside).trans hs'.symm,
    (hp.trans hprice).trans hp'.symm, (hc.trans hcreated).trans hc'.symm⟩

/-- An order in the model with the shorter queues and in the one with the longer. -/
inductive Paired : Option TrackedOrder → ℚ → Option TrackedOrder → ℚ → Prop
  | both {size filled filled' : ℚ} {order order' : TrackedOrder} :
      Resting size filled order → Resting size filled' order' → SamePlacement order order' →
      order.rest ≤ order'.rest → Paired (some order) filled (some order') filled'
  | second {size filled filled' : ℚ} {order' : TrackedOrder} : size - dust ≤ filled →
      Resting size filled' order' → Paired none filled (some order') filled'
  | neither {filled filled' : ℚ} : filled' ≤ filled + dust → Paired none filled none filled'

namespace Paired

variable {order? order?' : Option TrackedOrder} {filled filled' flow flow' : ℚ}

/-- The model with the longer queues is ahead by no more than the dust. -/
theorem bound (h : Paired order? filled order?' filled') : filled' ≤ filled + dust := by
  cases h with
  | @both size _ _ order order' hrest hrest' _ hle =>
      have hsum := hrest.sum
      have hsum' := hrest'.sum
      have hdust := dust_pos
      by_cases hqueue : 0 < order'.queueAhead
      · -- the second order still waits, so nothing of it is filled
        have hwhole := hrest'.waiting hqueue
        have hnonneg := hrest.nonneg
        linarith
      · have hqueue0 := hrest.queue
        unfold TrackedOrder.rest at hle
        linarith
  | @second size _ _ order' hfilled hrest' =>
      have hsum' := hrest'.sum
      have habove := hrest'.above
      have hdust := dust_pos
      linarith
  | neither hle => exact hle

/-- Where less is left and more flows, less is left. -/
theorem rest_left_le {order order' : TrackedOrder} (hle : order.rest ≤ order'.rest)
    (hflow : flow' ≤ flow) :
    order.rest - min order.rest (max 0 flow) ≤ order'.rest - min order'.rest (max 0 flow') := by
  have hbelow : max 0 flow' ≤ max 0 flow := max_le_max_left 0 hflow
  rcases le_total order.rest (max 0 flow) with h | h
  · rw [min_eq_left h, sub_self]
    exact sub_nonneg.mpr (min_le_left _ _)
  · rw [min_eq_right h, min_eq_right ((hbelow.trans h).trans hle)]
    linarith

/-- An order in both models, when the flow in the second is the smaller one. -/
theorem flow_both {size : ℚ} {order order' : TrackedOrder} (hrest : Resting size filled order)
    (hrest' : Resting size filled' order') (hsame : SamePlacement order order')
    (hle : order.rest ≤ order'.rest) (hflow : flow' ≤ flow) :
    Paired (order.after flow) (filled + max 0 (order.share flow)) (order'.after flow')
      (filled' + max 0 (order'.share flow')) := by
  have hmono := rest_left_le hle hflow
  cases hafter : order.after flow with
  | none =>
      obtain ⟨hgone, -, -⟩ := hrest.vanishes hafter
      cases hafter' : order'.after flow' with
      | none =>
          have hmost : filled' + max 0 (order'.share flow') ≤ size := hrest'.filled_le
          exact .neither (by linarith)
      | some left' => exact .second hgone (hrest'.survives hafter').1
  | some left =>
      obtain ⟨hleft, hlrest⟩ := hrest.survives hafter
      cases hafter' : order'.after flow' with
      | none =>
          -- the second order has at least as much left, so it stays too
          obtain ⟨-, -, hdust⟩ := hrest'.vanishes hafter'
          have habove := hleft.dust_lt_rest
          rw [hlrest] at habove
          exact absurd (habove.trans_le (hmono.trans hdust)) (lt_irrefl _)
      | some left' =>
          obtain ⟨hleft', hlrest'⟩ := hrest'.survives hafter'
          exact .both hleft hleft' (hsame.after hafter hafter')
            (by rw [hlrest, hlrest']; exact hmono)

/-- An order that only the second model still holds. -/
theorem flow_second {size : ℚ} {order' : TrackedOrder} (hfilled : size - dust ≤ filled)
    (hrest' : Resting size filled' order') :
    Paired none filled (order'.after flow') (filled' + max 0 (order'.share flow')) := by
  cases hafter' : order'.after flow' with
  | none =>
      have hmost := (hrest'.vanishes hafter').2.1
      exact .neither (by linarith)
  | some left' => exact .second hfilled (hrest'.survives hafter').1

end Paired

/-! ### What stands before an order -/

namespace ConservativeQueueFillModel

variable {cfg : FillModelConfig} {self self' : ConservativeQueueFillModel}
  {trade : TradePayload} {nowMs : ℚ} {order order' : TrackedOrder}

/-- The eligible orders before an order. -/
def before (cfg : FillModelConfig) (self : ConservativeQueueFillModel) (trade : TradePayload)
    (nowMs : ℚ) (order : TrackedOrder) : List TrackedOrder :=
  self.orders.rows.filter fun o =>
    decide (sortKey trade.side o < sortKey trade.side order) && isEligible cfg trade nowMs o

/-- What the sort puts before an order takes in what the orders with a smaller key take in. -/
theorem ahead_eq_before {xs ys : List TrackedOrder}
    (hl : self.eligibleOrders cfg trade nowMs = xs ++ order :: ys) :
    ahead xs = ahead (before cfg self trade nowMs order) := by
  have hsorted := pairwise_eligibleOrders cfg self trade nowMs
  have hnodup := nodup_eligibleOrders cfg self trade nowMs
  rw [hl, List.pairwise_append] at hsorted
  rw [hl, List.map_append, List.map_cons, List.nodup_append] at hnodup
  have hfront : ∀ o ∈ xs, sortKey trade.side o < sortKey trade.side order := by
    intro o ho
    refine lt_of_le_of_ne (hsorted.2.2 o ho order List.mem_cons_self) fun heq => ?_
    exact hnodup.2.2 _ (List.mem_map_of_mem ho) order.orderId (by simp)
      (congrArg (fun key => (ofLex (ofLex key).2).2) heq)
  have hback : ∀ o ∈ order :: ys, ¬ sortKey trade.side o < sortKey trade.side order := by
    intro o ho
    rcases List.mem_cons.mp ho with rfl | ho
    · exact lt_irrefl _
    · exact not_lt.mpr ((List.pairwise_cons.mp hsorted.2.1).1 o ho)
  have hxs : (self.eligibleOrders cfg trade nowMs).filter
      (fun o => decide (sortKey trade.side o < sortKey trade.side order)) = xs := by
    rw [hl, List.filter_append, List.filter_eq_self.mpr fun o ho => decide_eq_true (hfront o ho),
      List.filter_eq_nil_iff.mpr fun o ho => by simpa using hback o ho, List.append_nil]
  have hperm := (List.perm_insertionSort (fun a b => hasPriority trade.side a b = true)
    (self.orders.rows.filter (isEligible cfg trade nowMs))).filter
    fun o => decide (sortKey trade.side o < sortKey trade.side order)
  rw [List.filter_filter] at hperm
  unfold ahead before
  rw [← hxs]
  exact (hperm.map _).sum_eq

/-- The flow that gets to an order: what the orders before it leave of a trade that may fill it. -/
def flowTo (cfg : FillModelConfig) (self : ConservativeQueueFillModel) (event : Event)
    (order : TrackedOrder) : ℚ :=
  match event.body with
  | .trade trade =>
      if isEligible cfg trade event.tsExchange order then
        trade.amount - ahead (before cfg self trade event.tsExchange order)
      else 0
  | _ => 0

/-- A market event does to every order what the flow does that gets to it. -/
theorem onMarketEvent_flowTo (rt : Runtime) {event : Event} (fairState : FairPriceState)
    (hrow : order ∈ self.orders.rows) :
    (self.onMarketEvent rt cfg event fairState).1.orders.get? order.orderId
        = order.after (flowTo cfg self event order) ∧
      filledSize order.orderId (self.onMarketEvent rt cfg event fairState).2
        = max 0 (order.share (flowTo cfg self event order)) := by
  by_cases helig : ∃ trade, event.body = .trade trade ∧
      isEligible cfg trade event.tsExchange order = true
  · obtain ⟨trade, hbody, helig⟩ := helig
    obtain ⟨xs, ys, hl⟩ := List.append_of_mem (mem_eligibleOrders.mpr ⟨hrow, helig⟩)
    have hflow : flowTo cfg self event order = trade.amount - ahead xs := by
      unfold flowTo
      rw [hbody, ahead_eq_before hl]
      exact if_pos helig
    rw [hflow]
    exact onMarketEvent_eligible rt fairState hbody hl
  · have hflow : flowTo cfg self event order = 0 := by
      unfold flowTo
      split
      · rename_i trade hbody
        exact if_neg fun h => helig ⟨trade, hbody, h⟩
      · rfl
    rw [hflow, TrackedOrder.after_of_nonpos le_rfl,
      max_eq_left (Waterfall.share_nonpos le_rfl order)]
    refine onMarketEvent_ineligible rt fairState hrow fun trade hbody => ?_
    simpa using fun h => helig ⟨trade, hbody, h⟩

/-! ### Two models on the same calls -/

/-- Every order stands in the two models as in `Paired`. -/
def InStep (self self' : ConservativeQueueFillModel) (log log' : List Event) : Prop :=
  ∀ id, Paired (self.orders.get? id) (filledSize id log) (self'.orders.get? id)
    (filledSize id log')

namespace InStep

variable {rt : Runtime} {cfg' : FillModelConfig} {log log' : List Event}

/-- An order of the first model has its partner in the second. -/
theorem partner (h : InStep self self' log log') (hrow : order ∈ self.orders.rows) :
    ∃ order' ∈ self'.orders.rows, SamePlacement order order' ∧
      Waterfall.capacity TrackedOrder.queueAhead TrackedOrder.remainingSize order
        ≤ Waterfall.capacity TrackedOrder.queueAhead TrackedOrder.remainingSize order' := by
  have hpaired := h order.orderId
  rw [Py.Table.get?_eq_some.mpr ⟨hrow, rfl⟩] at hpaired
  generalize hpartner : self'.orders.get? order.orderId = partner at hpaired
  cases hpaired with
  | @both _ _ _ _ order' hrest hrest' hsame hle =>
      refine ⟨order', (Py.Table.get?_eq_some.mp hpartner).1, hsame, ?_⟩
      rw [hrest.capacity_eq, hrest'.capacity_eq]
      exact hle

/-- What stands before an order is no more in the first model. -/
theorem ahead_before_le (h : InStep self self' log log')
    (hrested : cfg'.minRestingTimeMs = cfg.minRestingTimeMs) (hsame : SamePlacement order order') :
    ahead (before cfg self trade nowMs order) ≤ ahead (before cfg' self' trade nowMs order') := by
  unfold ahead before
  refine Py.Table.sum_le_sum
    (self.orders.nodup.sublist (List.Sublist.map _ List.filter_sublist))
    (fun o _ => Waterfall.capacity_nonneg o) fun o ho => ?_
  rw [List.mem_filter, Bool.and_eq_true, decide_eq_true_eq] at ho
  obtain ⟨hrow, hkey, helig⟩ := ho
  obtain ⟨o', hrow', hplaced, hle⟩ := h.partner hrow
  refine ⟨o', ?_, hplaced.1.symm, hle⟩
  rw [List.mem_filter, Bool.and_eq_true, decide_eq_true_eq, hplaced.sortKey_eq,
    hsame.sortKey_eq, hplaced.isEligible_eq hrested]
  exact ⟨hrow', hkey, helig⟩

/-- The flow to an order is no less in the first model. -/
theorem flowTo_le (h : InStep self self' log log')
    (hrested : cfg'.minRestingTimeMs = cfg.minRestingTimeMs) (hsame : SamePlacement order order')
    (event : Event) : flowTo cfg' self' event order' ≤ flowTo cfg self event order := by
  unfold flowTo
  split
  · rename_i trade _
    rw [hsame.isEligible_eq hrested]
    split
    · have hle : ahead (before cfg self trade event.tsExchange order)
          ≤ ahead (before cfg' self' trade event.tsExchange order') :=
        h.ahead_before_le hrested hsame
      linarith
    · exact le_rfl
  · exact le_rfl

/-- **A trade keeps two models in step.** -/
theorem marketEvent (h : InStep self self' log log')
    (hrested : cfg'.minRestingTimeMs = cfg.minRestingTimeMs) (event : Event)
    (fairState : FairPriceState) :
    InStep (self.onMarketEvent rt cfg event fairState).1
      (self'.onMarketEvent rt cfg' event fairState).1
      (log ++ (self.onMarketEvent rt cfg event fairState).2)
      (log' ++ (self'.onMarketEvent rt cfg' event fairState).2) := by
  intro id
  rw [filledSize_append, filledSize_append]
  have hpaired := h id
  generalize hfirst : self.orders.get? id = first at hpaired
  generalize hsecond : self'.orders.get? id = second at hpaired
  have hgone : self.orders.get? id = none →
      (self.onMarketEvent rt cfg event fairState).1.orders.get? id = none ∧
        filledSize id (self.onMarketEvent rt cfg event fairState).2 = 0 := fun hnone =>
    ⟨(onMarketEvent_spec rt cfg self event fairState).fresh id hnone,
      filledSize_of_untracked rt cfg self event fairState hnone⟩
  cases hpaired with
  | @both _ _ _ order order' hrest hrest' hsame hle =>
      obtain ⟨hrow, rfl⟩ := Py.Table.get?_eq_some.mp hfirst
      obtain ⟨hrow', hid⟩ := Py.Table.get?_eq_some.mp hsecond
      obtain ⟨hafter, hfilled⟩ := onMarketEvent_flowTo rt fairState hrow
      obtain ⟨hafter', hfilled'⟩ := onMarketEvent_flowTo rt fairState hrow'
      rw [hid] at hafter' hfilled'
      rw [hafter, hfilled, hafter', hfilled']
      exact Paired.flow_both hrest hrest' hsame hle (h.flowTo_le hrested hsame event)
  | @second _ _ _ order' hmost hrest' =>
      obtain ⟨hrow', hid⟩ := Py.Table.get?_eq_some.mp hsecond
      obtain ⟨hafter', hfilled'⟩ := onMarketEvent_flowTo rt fairState hrow'
      rw [hid] at hafter' hfilled'
      obtain ⟨hnone, hzero⟩ := hgone hfirst
      rw [hnone, hzero, add_zero, hafter', hfilled']
      exact Paired.flow_second hmost hrest'
  | neither hle =>
      obtain ⟨hnone, hzero⟩ := hgone hfirst
      rw [hnone, hzero, add_zero,
        (onMarketEvent_spec rt cfg' self' event fairState).fresh id hsecond,
        filledSize_of_untracked rt cfg' self' event fairState hsecond, add_zero]
      exact .neither hle

/-- A call that leaves an order alone in both models. -/
theorem untouched {id : String} (h : InStep self self' log log')
    {model model' : ConservativeQueueFillModel}
    (hfirst : model.orders.get? id = self.orders.get? id)
    (hsecond : model'.orders.get? id = self'.orders.get? id) :
    Paired (model.orders.get? id) (filledSize id (log ++ [])) (model'.orders.get? id)
      (filledSize id (log' ++ [])) := by
  rw [List.append_nil, List.append_nil, hfirst, hsecond]
  exact h id

/-- A placement waits behind the longer queue in the second model. -/
theorem place (h : InStep self self' log log') {payload : PlacedPayload} {book : OrderBook}
    (hmult : 0 ≤ cfg.queueAheadMultiplier)
    (hle : cfg.queueAheadMultiplier ≤ cfg'.queueAheadMultiplier) (hsize : dust < payload.size)
    (hfresh : filledSize payload.orderId log = 0) (hfresh' : filledSize payload.orderId log' = 0) :
    InStep (self.onVirtualOrder cfg payload book) (self'.onVirtualOrder cfg' payload book)
      (log ++ []) (log' ++ []) := by
  intro id
  by_cases hid : id = payload.orderId
  · have hfirst : (self.onVirtualOrder cfg payload book).orders.get? payload.orderId
        = some (trackedOf cfg payload book) :=
      Py.Table.get?_put_self self.orders (trackedOf cfg payload book)
    have hsecond : (self'.onVirtualOrder cfg' payload book).orders.get? payload.orderId
        = some (trackedOf cfg' payload book) :=
      Py.Table.get?_put_self self'.orders (trackedOf cfg' payload book)
    have hroom : 0 ≤ max (book.queueAt payload.side payload.price) payload.size :=
      le_max_of_le_right (dust_pos.trans hsize).le
    have hqueue : 0 ≤ queueBehind cfg payload book := mul_nonneg hmult hroom
    have hqueues : queueBehind cfg payload book ≤ queueBehind cfg' payload book :=
      mul_le_mul_of_nonneg_right hle hroom
    have hahead := trackedOf_queueAhead hmult payload book
    have hahead' := trackedOf_queueAhead (hmult.trans hle) payload book
    rw [List.append_nil, List.append_nil, hid, hfirst, hsecond, hfresh, hfresh']
    refine @Paired.both payload.size _ _ _ _ ⟨le_rfl, ?_, hsize, fun _ => rfl, zero_add _⟩
      ⟨le_rfl, ?_, hsize, fun _ => rfl, zero_add _⟩ ⟨rfl, rfl, rfl, rfl⟩ ?_
    · rw [hahead]
      exact hqueue
    · rw [hahead']
      exact hqueue.trans hqueues
    · unfold TrackedOrder.rest
      rw [hahead, hahead']
      exact add_le_add_left hqueues _
  · exact h.untouched (Py.Table.get?_put_ne _ hid) (Py.Table.get?_put_ne _ hid)

/-- A cancel takes the order from both models. -/
theorem cancel (h : InStep self self' log log') (payload : CanceledPayload) :
    InStep (self.onCancel payload) (self'.onCancel payload) (log ++ []) (log' ++ []) := by
  intro id
  by_cases hid : id = payload.orderId
  · have hfirst : (self.onCancel payload).orders.get? id = none := by
      rw [hid]
      exact Py.Table.get?_erase_self _ _
    have hsecond : (self'.onCancel payload).orders.get? id = none := by
      rw [hid]
      exact Py.Table.get?_erase_self _ _
    rw [List.append_nil, List.append_nil, hfirst, hsecond]
    exact .neither (h id).bound
  · exact h.untouched (Py.Table.get?_erase_ne _ hid) (Py.Table.get?_erase_ne _ hid)

end InStep

/-! ### Runs -/

/-- The settings with another multiplier. -/
def withMultiplier (cfg : FillModelConfig) (m : ℚ) : FillModelConfig :=
  { cfg with queueAheadMultiplier := m }

section Runs

variable {rt : Runtime} {m m' : ℚ} {s s' : ConservativeQueueFillModel}
  {steps steps' : List (Machine.Step ConservativeQueueFillModel FillCall (List Event))}

/-- The orders a run places depend on its calls alone. -/
theorem placedBy_eq (h : steps.map Machine.Step.input = steps'.map Machine.Step.input) :
    placedBy steps = placedBy steps' := by
  unfold placedBy
  have hmap : ∀ l : List (Machine.Step ConservativeQueueFillModel FillCall (List Event)),
      l.filterMap (fun r => r.input.placed?)
        = (l.map Machine.Step.input).filterMap FillCall.placed? := by
    intro l
    rw [List.filterMap_map]
    rfl
  rw [hmap, hmap, h]

/-- One more call keeps two runs in step. -/
theorem InStep.call {xs ys : List (Machine.Step ConservativeQueueFillModel FillCall (List Event))}
    {c : FillCall} {t t' : ConservativeQueueFillModel} {out out' : List Event} (hmult : 0 ≤ m)
    (hle : m ≤ m') (h : InStep s s' (emittedBy xs) (emittedBy ys))
    (hs : s.call rt (withMultiplier cfg m) c = (t, .ok out))
    (hs' : s'.call rt (withMultiplier cfg m') c = (t', .ok out'))
    (hsize : ∀ payload, c.placed? = some payload → dust < payload.size ∧
      filledSize payload.orderId (emittedBy xs) = 0 ∧
      filledSize payload.orderId (emittedBy ys) = 0) :
    InStep t t' (emittedBy (xs ++ [⟨s, c, out, t⟩])) (emittedBy (ys ++ [⟨s', c, out', t'⟩])) := by
  unfold emittedBy at *
  rw [List.flatMap_append, List.flatMap_singleton, List.flatMap_append, List.flatMap_singleton]
  cases c with
  | onVirtualOrder payload book =>
      obtain ⟨rfl, hout⟩ := Prod.mk.inj hs
      obtain ⟨rfl, hout'⟩ := Prod.mk.inj hs'
      obtain rfl := Except.ok.inj hout
      obtain rfl := Except.ok.inj hout'
      obtain ⟨habove, hfresh, hfresh'⟩ := hsize payload rfl
      exact h.place hmult hle habove hfresh hfresh'
  | onCancel payload =>
      obtain ⟨rfl, hout⟩ := Prod.mk.inj hs
      obtain ⟨rfl, hout'⟩ := Prod.mk.inj hs'
      obtain rfl := Except.ok.inj hout
      obtain rfl := Except.ok.inj hout'
      exact h.cancel payload
  | onMarketEvent event fairState =>
      obtain ⟨rfl, hout⟩ := Prod.mk.inj hs
      obtain ⟨rfl, hout'⟩ := Prod.mk.inj hs'
      obtain rfl := Except.ok.inj hout
      obtain rfl := Except.ok.inj hout'
      exact h.marketEvent rfl event fairState

/-- **Two runs on the same calls stay in step.** -/
theorem inStep_run (hmult : 0 ≤ m) (hle : m ≤ m')
    (h : Machine.Run (call rt (withMultiplier cfg m)) (fromConfig (withMultiplier cfg m)) steps s)
    (h' : Machine.Run (call rt (withMultiplier cfg m')) (fromConfig (withMultiplier cfg m')) steps'
      s') (hinputs : steps.map Machine.Step.input = steps'.map Machine.Step.input) :
    ((placedBy steps).map PlacedPayload.orderId).Nodup →
      (∀ payload ∈ placedBy steps, dust < payload.size) →
      InStep s s' (emittedBy steps) (emittedBy steps') := by
  refine Machine.Run.lockstep (P := fun xs ys t t' =>
    ((placedBy xs).map PlacedPayload.orderId).Nodup →
      (∀ payload ∈ placedBy xs, dust < payload.size) →
      InStep t t' (emittedBy xs) (emittedBy ys)) ?_ ?_ h h' hinputs
  · intro _ _ id
    exact .neither (by linarith [dust_pos])
  · intro xs ys t t' c out out' u u' hrun hrun' hin ih hs hs' hids hsizes
    have hsplit : ∀ r : Machine.Step ConservativeQueueFillModel FillCall (List Event),
        placedBy (xs ++ [r]) = placedBy xs ++ placedBy [r] := fun r => List.filterMap_append
    rw [hsplit] at hids hsizes
    rw [List.map_append, List.nodup_append] at hids
    have hbefore := ih hids.1 fun p hp => hsizes p (List.mem_append_left _ hp)
    refine hbefore.call hmult hle hs hs' fun payload hplace => ?_
    have hlast : payload ∈ placedBy [⟨t, c, out, u⟩] :=
      List.mem_filterMap.mpr ⟨_, List.mem_singleton_self _, hplace⟩
    have hnew : payload.orderId ∉ (placedBy xs).map PlacedPayload.orderId := fun hmem =>
      hids.2.2 _ hmem _ (List.mem_map_of_mem hlast) rfl
    refine ⟨hsizes payload (List.mem_append_right _ hlast), (unplaced_run hrun hnew).2, ?_⟩
    rw [placedBy_eq hin] at hnew
    exact (unplaced_run hrun' hnew).2

/--
**Pessimism is monotone.**  Two fill models that differ in the queue multiplier get the same
calls: at every point the one with the larger multiplier has filled no more of any order than
the other, apart from the dust that a filled order leaves behind.
-/
theorem pessimism_monotone (hmult : 0 ≤ m) (hle : m ≤ m')
    (h : Machine.Run (call rt (withMultiplier cfg m)) (fromConfig (withMultiplier cfg m)) steps s)
    (h' : Machine.Run (call rt (withMultiplier cfg m')) (fromConfig (withMultiplier cfg m')) steps'
      s') (hinputs : steps.map Machine.Step.input = steps'.map Machine.Step.input)
    (hids : ((placedBy steps).map PlacedPayload.orderId).Nodup)
    (hsizes : ∀ payload ∈ placedBy steps, dust < payload.size) :
    ∀ n orderId, filledSize orderId (emittedBy (steps'.take n))
      ≤ filledSize orderId (emittedBy (steps.take n)) + dust := by
  intro n orderId
  obtain ⟨t, hrun⟩ := h.take n
  obtain ⟨t', hrun'⟩ := h'.take n
  have hin : (steps.take n).map Machine.Step.input = (steps'.take n).map Machine.Step.input := by
    rw [List.map_take, List.map_take, hinputs]
  have hfront : (placedBy (steps.take n)).Sublist (placedBy steps) :=
    (List.take_sublist n steps).filterMap _
  exact ((inStep_run hmult hle hrun hrun' hin (hids.sublist (hfront.map _)))
    (fun p hp => hsizes p (hfront.subset hp)) orderId).bound

end Runs

/-- A bid for one behind two at its price, a sell of two and a sell of a half. -/
private def bidBehindTwo : List FillCall :=
  [.onVirtualOrder
      { orderId := "order-1", side := .buy, price := 100, size := 1, postOnly := true,
        createdAt := 0, expiresAt := 3000, reason := "ghost_amm_quote", quoteLevel := 0,
        activation := 1, shockEventId := none, shockDirection := .neutral, shockAgeMs := none,
        inventorySkew := 0, fairPriceAtCreation := 101 }
      { bids := Py.Table.ofList [(100, 2)] },
    .onMarketEvent ⟨"trade-1", 500, 500, "bitbank", "BTC/JPY", .absent,
      .trade ⟨some .sell, 100, 2⟩⟩ ⟨none, 0, none, false, none, [], none⟩,
    .onMarketEvent ⟨"trade-2", 600, 600, "bitbank", "BTC/JPY", .absent,
      .trade ⟨some .sell, 99, 1 / 2⟩⟩ ⟨none, 0, none, false, none, [], none⟩]

/-- The run of these calls under a multiplier. -/
private abbrev bidBehindTwoUnder (m : ℚ) :
    ConservativeQueueFillModel ×
      Except Py.Error (List (Machine.Step ConservativeQueueFillModel FillCall (List Event))) :=
  Machine.exec (call ⟨fun _ => 0, fun _ _ _ _ _ => "", fun _ => none⟩ (withMultiplier {} m))
    (fromConfig (withMultiplier {} m)) bidBehindTwo

/-- Half of the bid is filled behind one queue, and nothing of it behind one and a half. -/
theorem pessimism_monotone_bid_behind_two :
    filledSize "order-1" (emittedBy (Machine.stepsOf (bidBehindTwoUnder 1))) = 1 / 2 ∧
      filledSize "order-1" (emittedBy (Machine.stepsOf (bidBehindTwoUnder (3 / 2)))) = 0 ∧
      ∀ n orderId,
        filledSize orderId (emittedBy ((Machine.stepsOf (bidBehindTwoUnder (3 / 2))).take n))
          ≤ filledSize orderId (emittedBy ((Machine.stepsOf (bidBehindTwoUnder 1)).take n))
            + dust :=
  ⟨by decide +kernel, by decide +kernel, pessimism_monotone (by decide +kernel)
    (by decide +kernel) (Machine.run_exec (by decide +kernel))
    (Machine.run_exec (by decide +kernel)) rfl (by decide +kernel) (by decide +kernel)⟩

end ConservativeQueueFillModel

end GhostAmm
