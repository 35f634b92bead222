/-
Which orders a trade serves first.

The eligible orders are sorted, so whatever an order gets it gets from the flow that every
order sorted before it has left.  That is all of price priority and of flow conservation: a
flow that gets past an order has filled it (`gone_of_flow_past`), and what the orders take in
together is the flow up to their whole capacity.

Between orders at one price the sort looks at the age and then at the identity as text.  That
is the order in which they were placed when replay time never steps back and the counters
inside the identities have one length; `timePriority_iff` says exactly when a state of a run
serves its orders in the order of placement.
-/
import GhostAmm.Proofs.OrderLog

namespace GhostAmm

namespace ConservativeQueueFillModel

/-! ### The order the eligible orders stand in -/

/-- The price as `_eligible_orders` sorts by it: lower is better. -/
def sortPrice (taker : Option Side) (order : TrackedOrder) : ℚ :=
  if taker = some .sell then -order.price else order.price

/-- The whole sort key. -/
def sortKey (taker : Option Side) (order : TrackedOrder) : ℚ ×ₗ ℚ ×ₗ String :=
  toLex (sortPrice taker order, toLex (order.createdAt, order.orderId))

theorem hasPriority_iff {taker : Option Side} {a b : TrackedOrder} :
    hasPriority taker a b = true ↔ sortKey taker a ≤ sortKey taker b := by
  unfold sortKey
  rw [Prod.Lex.toLex_le_toLex, Prod.Lex.toLex_le_toLex]
  simp [hasPriority, sortPrice]

theorem pairwise_eligibleOrders (cfg : FillModelConfig) (self : ConservativeQueueFillModel)
    (trade : TradePayload) (nowMs : ℚ) :
    (self.eligibleOrders cfg trade nowMs).Pairwise fun a b =>
      sortKey trade.side a ≤ sortKey trade.side b := by
  have htotal : Std.Total fun a b => hasPriority trade.side a b = true :=
    ⟨fun a b => by rw [hasPriority_iff, hasPriority_iff]; exact le_total _ _⟩
  have htrans : IsTrans TrackedOrder fun a b => hasPriority trade.side a b = true :=
    ⟨fun a b c => by
      rw [hasPriority_iff, hasPriority_iff, hasPriority_iff]
      exact le_trans⟩
  exact (List.pairwise_insertionSort _ _).imp hasPriority_iff.mp

/-- The price of an order is strictly better than that of another one. -/
def BetterPrice (taker : Option Side) (a b : TrackedOrder) : Prop :=
  if taker = some .sell then b.price < a.price else a.price < b.price

/-- An order with a smaller key stands before one with a larger key. -/
theorem mem_front {cfg : FillModelConfig} {self : ConservativeQueueFillModel}
    {trade : TradePayload} {nowMs : ℚ} {a b : TrackedOrder} {xs ys : List TrackedOrder}
    (hl : self.eligibleOrders cfg trade nowMs = xs ++ b :: ys)
    (ha : a ∈ self.eligibleOrders cfg trade nowMs)
    (hkey : sortKey trade.side a < sortKey trade.side b) : a ∈ xs := by
  have hsorted := pairwise_eligibleOrders cfg self trade nowMs
  rw [hl] at ha hsorted
  have hback := (List.pairwise_cons.mp (List.pairwise_append.mp hsorted).2.1).1
  rcases List.mem_append.mp ha with ha | ha
  · exact ha
  · rcases List.mem_cons.mp ha with rfl | ha
    · exact absurd hkey (lt_irrefl _)
    · exact absurd hkey (not_lt.mpr (hback a ha))

/-! ### What an order gets -/

/-- What the queue of an order lost; a removed order has none left. -/
def queueTaken (after : ConservativeQueueFillModel) (order : TrackedOrder) : ℚ :=
  match after.orders.get? order.orderId with
  | some left => order.queueAhead - left.queueAhead
  | none => order.queueAhead

/-- An order has its queue or its size reduced. -/
def Served (after : ConservativeQueueFillModel) (out : List Event) (order : TrackedOrder) :
    Prop :=
  0 < queueTaken after order ∨ 0 < filledSize order.orderId out

/-- An order is completely filled and no longer tracked. -/
def Gone (after : ConservativeQueueFillModel) (out : List Event) (order : TrackedOrder) :
    Prop :=
  after.orders.get? order.orderId = none ∧ filledSize order.orderId out = order.remainingSize

section Trade

variable {rt : Runtime} {cfg : FillModelConfig} {self : ConservativeQueueFillModel}
  {event : Event} {fairState : FairPriceState} {trade : TradePayload}
  {order : TrackedOrder} {xs ys : List TrackedOrder}

/-- The queue a flow leaves, through `queueTaken`. -/
theorem queueTaken_of_after {after : ConservativeQueueFillModel} {flow : ℚ}
    (h : after.orders.get? order.orderId = order.after flow) :
    queueTaken after order
      = if 0 < order.share flow ∧ order.remainingSize - order.share flow ≤ dust then
          order.queueAhead
        else min (max 0 order.queueAhead) (max 0 flow) := by
  have hleft : order.queueAhead - order.queueLeft flow
      = min (max 0 order.queueAhead) (max 0 flow) := sub_sub_cancel _ _
  unfold queueTaken
  rw [h]
  simp only [TrackedOrder.after]
  by_cases hpos : 0 < order.share flow
  · by_cases hdust : order.remainingSize - order.share flow ≤ dust
    · rw [if_pos hpos, if_pos hdust, if_pos ⟨hpos, hdust⟩]
    · rw [if_pos hpos, if_neg hdust, if_neg fun h => hdust h.2]
      exact hleft
  · rw [if_neg hpos, if_neg fun h => hpos h.1]
    exact hleft

/-- What an eligible order takes in is what the flow pours on it. -/
theorem queueTaken_add_filledSize (hbody : event.body = .trade trade)
    (hl : self.eligibleOrders cfg trade event.tsExchange = xs ++ order :: ys)
    (hqueue : 0 ≤ order.queueAhead) :
    queueTaken (self.onMarketEvent rt cfg event fairState).1 order
        + filledSize order.orderId (self.onMarketEvent rt cfg event fairState).2
      = Waterfall.poured TrackedOrder.queueAhead TrackedOrder.remainingSize
          (trade.amount - ahead xs) order := by
  obtain ⟨hafter, hfilled⟩ := onMarketEvent_eligible rt fairState hbody hl
  rw [queueTaken_of_after hafter, hfilled]
  unfold Waterfall.poured
  congr 1
  by_cases hgone : 0 < order.share (trade.amount - ahead xs) ∧
      order.remainingSize - order.share (trade.amount - ahead xs) ≤ dust
  · have hpast : max 0 order.queueAhead < trade.amount - ahead xs :=
      sub_pos.mp (hgone.1.trans_le (min_le_right _ _))
    rw [if_pos hgone, min_eq_left (hpast.le.trans (le_max_right _ _)), max_eq_right hqueue]
  · rw [if_neg hgone]

/-- An order is served if it has anything left and a flow gets to it. -/
theorem served_iff (hbody : event.body = .trade trade)
    (hl : self.eligibleOrders cfg trade event.tsExchange = xs ++ order :: ys) :
    Served (self.onMarketEvent rt cfg event fairState).1
        (self.onMarketEvent rt cfg event fairState).2 order ↔
      0 < trade.amount - ahead xs ∧ (0 < order.queueAhead ∨ 0 < order.remainingSize) := by
  obtain ⟨hafter, hfilled⟩ := onMarketEvent_eligible rt fairState hbody hl
  unfold Served
  rw [queueTaken_of_after hafter, hfilled]
  generalize trade.amount - ahead xs = flow
  by_cases hflow : 0 < flow
  · by_cases hqueue : 0 < order.queueAhead
    · refine iff_of_true (Or.inl ?_) ⟨hflow, Or.inl hqueue⟩
      split
      · exact hqueue
      · exact lt_min (lt_max_of_lt_right hqueue) (lt_max_of_lt_right hflow)
    · have hshare : order.share flow = min order.remainingSize flow := by
        show min order.remainingSize (flow - max 0 order.queueAhead) = _
        rw [max_eq_left (not_lt.mp hqueue), sub_zero]
      have hcover : min (max 0 order.queueAhead) (max 0 flow) = 0 := by
        rw [max_eq_left (not_lt.mp hqueue), min_eq_left (le_max_left _ _)]
      rw [hshare, hcover]
      by_cases hsize : 0 < order.remainingSize
      · exact iff_of_true (Or.inr (lt_max_of_lt_right (lt_min hsize hflow)))
          ⟨hflow, Or.inr hsize⟩
      · have hdry : ¬ 0 < min order.remainingSize flow := fun h => hsize (lt_min_iff.mp h).1
        rw [if_neg fun h => hdry h.1, max_eq_left (not_lt.mp hdry)]
        simp [hqueue, hsize]
  · have hdry : order.share flow ≤ 0 := Waterfall.share_nonpos (not_lt.mp hflow) order
    rw [if_neg fun h => not_lt.mpr hdry h.1, max_eq_left (not_lt.mp hflow), max_eq_left hdry,
      min_eq_right (le_max_left _ _)]
    simp [hflow]

/-- A flow that gets past an order has filled it. -/
theorem gone_of_flow_past (hbody : event.body = .trade trade)
    (hl : self.eligibleOrders cfg trade event.tsExchange = xs ++ order :: ys)
    (hsize : 0 < order.remainingSize)
    (hflow : Waterfall.capacity TrackedOrder.queueAhead TrackedOrder.remainingSize order
      ≤ trade.amount - ahead xs) :
    Gone (self.onMarketEvent rt cfg event fairState).1
      (self.onMarketEvent rt cfg event fairState).2 order := by
  obtain ⟨hafter, hfilled⟩ := onMarketEvent_eligible rt fairState hbody hl
  have hshare : order.share (trade.amount - ahead xs) = order.remainingSize := by
    unfold Waterfall.capacity at hflow
    rw [max_eq_right hsize.le] at hflow
    exact min_eq_left (by linarith)
  refine ⟨?_, ?_⟩
  · rw [hafter]
    simp only [TrackedOrder.after]
    rw [hshare, if_pos hsize, if_pos (by rw [sub_self]; unfold dust; positivity)]
  · rw [hfilled, hshare, max_eq_right hsize.le]

/-- What stands before a place, by an order before it. -/
theorem ahead_append_cons (as bs : List TrackedOrder) (other : TrackedOrder) :
    ahead (as ++ other :: bs) = ahead as
      + (Waterfall.capacity TrackedOrder.queueAhead TrackedOrder.remainingSize other
        + ahead bs) := by
  unfold ahead
  rw [List.map_append, List.sum_append, List.map_cons, List.sum_cons]

/-- Whoever stands before a served order is gone. -/
theorem gone_of_served {other : TrackedOrder} (hbody : event.body = .trade trade)
    (hl : self.eligibleOrders cfg trade event.tsExchange = xs ++ order :: ys)
    (hother : other ∈ xs) (hsize : 0 < other.remainingSize)
    (h : Served (self.onMarketEvent rt cfg event fairState).1
      (self.onMarketEvent rt cfg event fairState).2 order) :
    Gone (self.onMarketEvent rt cfg event fairState).1
      (self.onMarketEvent rt cfg event fairState).2 other := by
  obtain ⟨hflow, -⟩ := (served_iff hbody hl).mp h
  obtain ⟨as, bs, rfl⟩ := List.append_of_mem hother
  have hsplit : self.eligibleOrders cfg trade event.tsExchange
      = as ++ other :: (bs ++ order :: ys) := by
    rw [hl]
    simp
  have hbs : 0 ≤ ahead bs := Waterfall.capacities_nonneg bs
  refine gone_of_flow_past hbody hsplit hsize ?_
  rw [ahead_append_cons] at hflow
  linarith

/-! ### Flow conservation -/

/-- A sum over the eligible orders does not mind how they stand. -/
theorem sum_filter_isEligible (v : TrackedOrder → ℚ) (nowMs : ℚ) :
    ((self.eligibleOrders cfg trade nowMs).map v).sum
      = ((self.orders.rows.filter (isEligible cfg trade nowMs)).map v).sum :=
  ((List.perm_insertionSort _ _).map v).sum_eq

/-- A sum over the orders that only eligible ones contribute to. -/
theorem sum_eligibleOrders {v : TrackedOrder → ℚ}
    (h : ∀ o ∈ self.orders.rows, isEligible cfg trade event.tsExchange o = false → v o = 0) :
    (self.orders.rows.map v).sum
      = ((self.eligibleOrders cfg trade event.tsExchange).map v).sum := by
  have hperm := List.filter_append_perm (isEligible cfg trade event.tsExchange) self.orders.rows
  have hrest : ((self.orders.rows.filter fun o =>
      !isEligible cfg trade event.tsExchange o).map v).sum = 0 := by
    refine List.sum_eq_zero fun y hy => ?_
    obtain ⟨o, ho, rfl⟩ := List.mem_map.mp hy
    rw [List.mem_filter, Bool.not_eq_true'] at ho
    exact h o ho.1 ho.2
  rw [← (hperm.map v).sum_eq, List.map_append, List.sum_append, hrest, add_zero,
    sum_filter_isEligible]

/-- The fills of a trade, summed over the eligible orders. -/
theorem sum_fills (hbody : event.body = .trade trade) :
    ((fills (self.onMarketEvent rt cfg event fairState).2).map FillPayload.fillSize).sum
      = ((self.eligibleOrders cfg trade event.tsExchange).map fun o =>
          filledSize o.orderId (self.onMarketEvent rt cfg event fairState).2).sum := by
  rw [(onMarketEvent_spec rt cfg self event fairState).fills, List.map_map,
    reachedBy_trade cfg self hbody]
  exact Waterfall.sum_reached _ _ fun xs o ys hl =>
    (onMarketEvent_eligible rt fairState hbody hl).2

/-- A trade changes no order that it cannot reach. -/
theorem onMarketEvent_unchanged (hbody : event.body = .trade trade) {o : TrackedOrder}
    (ho : o ∈ self.orders.rows) (helig : isEligible cfg trade event.tsExchange o = false) :
    (self.onMarketEvent rt cfg event fairState).1.orders.get? o.orderId = some o ∧
      filledSize o.orderId (self.onMarketEvent rt cfg event fairState).2 = 0 := by
  refine onMarketEvent_ineligible rt fairState ho fun other hother => ?_
  rw [hbody] at hother
  rw [← Body.trade.inj hother]
  exact helig

/-- What a trade takes from the queues, summed over the eligible orders. -/
theorem sum_queueTaken (hbody : event.body = .trade trade) :
    (self.orders.rows.map (queueTaken (self.onMarketEvent rt cfg event fairState).1)).sum
      = ((self.eligibleOrders cfg trade event.tsExchange).map
          (queueTaken (self.onMarketEvent rt cfg event fairState).1)).sum := by
  refine sum_eligibleOrders fun o ho helig => ?_
  obtain ⟨hsame, -⟩ := @onMarketEvent_unchanged rt cfg self event fairState trade hbody o ho helig
  unfold queueTaken
  rw [hsame]
  exact sub_self _

/-- What the eligible orders can take in. -/
theorem sum_capacity (hqueues : ∀ o ∈ self.orders.rows, 0 ≤ o.queueAhead)
    (hsizes : ∀ o ∈ self.orders.rows, 0 < o.remainingSize) (nowMs : ℚ) :
    ((self.eligibleOrders cfg trade nowMs).map
        (Waterfall.capacity TrackedOrder.queueAhead TrackedOrder.remainingSize)).sum
      = ((self.orders.rows.filter (isEligible cfg trade nowMs)).map fun o =>
          o.queueAhead + o.remainingSize).sum := by
  rw [sum_filter_isEligible]
  refine congrArg List.sum (List.map_congr_left fun o ho => ?_)
  have hrow := (List.mem_filter.mp ho).1
  unfold Waterfall.capacity
  rw [max_eq_right (hqueues o hrow), max_eq_right (hsizes o hrow).le]

/-- A better price is sorted first. -/
theorem sortKey_lt_of_betterPrice {taker : Option Side} {better o : TrackedOrder}
    (h : BetterPrice taker better o) : sortKey taker better < sortKey taker o := by
  refine Prod.Lex.toLex_lt_toLex.mpr (Or.inl ?_)
  unfold BetterPrice at h
  unfold sortPrice
  split at h
  · rename_i hsell
    rw [if_pos hsell, if_pos hsell]
    exact neg_lt_neg h
  · rename_i hsell
    rw [if_neg hsell, if_neg hsell]
    exact h

/--
**Flow conservation and price priority.**  A trade takes from the queues and the orders
together what it has, up to what the eligible orders can take in; it changes no other order;
and it serves no order while one at a strictly better price is still there.
-/
theorem flow_conservation (rt : Runtime) (cfg : FillModelConfig)
    (self : ConservativeQueueFillModel) (event : Event) (fairState : FairPriceState)
    (trade : TradePayload) (hbody : event.body = .trade trade) (hamount : 0 ≤ trade.amount)
    (hqueues : ∀ o ∈ self.orders.rows, 0 ≤ o.queueAhead)
    (hsizes : ∀ o ∈ self.orders.rows, 0 < o.remainingSize) :
    (self.orders.rows.map
        (queueTaken (self.onMarketEvent rt cfg event fairState).1)).sum
      + ((fills (self.onMarketEvent rt cfg event fairState).2).map FillPayload.fillSize).sum
      = min trade.amount
          ((self.orders.rows.filter (isEligible cfg trade event.tsExchange)).map fun o =>
            o.queueAhead + o.remainingSize).sum ∧
    (∀ o ∈ self.orders.rows, isEligible cfg trade event.tsExchange o = false →
      (self.onMarketEvent rt cfg event fairState).1.orders.get? o.orderId = some o ∧
        filledSize o.orderId (self.onMarketEvent rt cfg event fairState).2 = 0) ∧
    ∀ o ∈ self.orders.rows, isEligible cfg trade event.tsExchange o = true →
      Served (self.onMarketEvent rt cfg event fairState).1
        (self.onMarketEvent rt cfg event fairState).2 o →
      ∀ better ∈ self.orders.rows, isEligible cfg trade event.tsExchange better = true →
        BetterPrice trade.side better o →
        Gone (self.onMarketEvent rt cfg event fairState).1
          (self.onMarketEvent rt cfg event fairState).2 better := by
  refine ⟨?_, fun o ho helig => onMarketEvent_unchanged hbody ho helig, ?_⟩
  · rw [sum_queueTaken hbody, sum_fills hbody, ← List.sum_map_add,
      ← sum_capacity hqueues hsizes, min_comm]
    refine (Waterfall.sum_poured _ trade.amount fun xs o ys hl => ?_).trans
      (by rw [max_eq_right hamount])
    have hrow : o ∈ self.eligibleOrders cfg trade event.tsExchange := by
      rw [hl]
      simp
    exact queueTaken_add_filledSize hbody hl (hqueues o (mem_eligibleOrders.mp hrow).1)
  · intro o ho helig hserved better hbetter hbelig hprice
    obtain ⟨xs, ys, hl⟩ := List.append_of_mem (mem_eligibleOrders.mpr ⟨ho, helig⟩)
    have hfront := mem_front hl (mem_eligibleOrders.mpr ⟨hbetter, hbelig⟩)
      (sortKey_lt_of_betterPrice hprice)
    exact gone_of_served hbody hl hfront (hsizes better hbetter) hserved

end Trade

/-- A bid at a price, for one behind a queue of one. -/
private def bidAt (orderId : String) (price : ℚ) : TrackedOrder where
  orderId := orderId
  side := .buy
  price := price
  remainingSize := 1
  createdAt := 0
  queueAhead := 1
  fairAtCreation := 102
  activation := 1

private def twoBids : ConservativeQueueFillModel where
  makerFeeBps := 0
  orders := Py.Table.ofList [bidAt "low" 100, bidAt "high" 101]

private def sellOfThree : Event :=
  ⟨"trade-1", 500, 500, "bitbank", "BTC/JPY", .absent, .trade ⟨some .sell, 99, 3⟩⟩

private abbrev soldInto : ConservativeQueueFillModel × List Event :=
  twoBids.onMarketEvent ⟨fun _ => 0, fun _ _ _ _ _ => "", fun _ => none⟩ {} sellOfThree
    ⟨none, 0, none, false, none, [], none⟩

/-- Three sold into two bids: all three are taken, and the better bid is gone. -/
theorem flow_conservation_two_bids :
    (twoBids.orders.rows.map (queueTaken soldInto.1)).sum
        + ((fills soldInto.2).map FillPayload.fillSize).sum = 3 ∧
      Gone soldInto.1 soldInto.2 (bidAt "high" 101) := by
  obtain ⟨hflow, -, hpriority⟩ := flow_conservation
    ⟨fun _ => 0, fun _ _ _ _ _ => "", fun _ => none⟩ {} twoBids sellOfThree
    ⟨none, 0, none, false, none, [], none⟩ ⟨some .sell, 99, 3⟩ rfl (by decide +kernel)
    (by decide +kernel) (by decide +kernel)
  refine ⟨hflow.trans (by decide +kernel), ?_⟩
  exact hpriority (bidAt "low" 100) (by decide +kernel) (by decide +kernel)
    (by unfold Served; decide +kernel) (bidAt "high" 101) (by decide +kernel) (by decide +kernel)
    (by unfold BetterPrice; decide +kernel)

/-! ### Time priority -/

/-- The log places one order before another. -/
def PlacedBefore (log : List Event) (a b : TrackedOrder) : Prop :=
  [a.orderId, b.orderId].Sublist ((placements log).map PlacedPayload.orderId)

/-- One order stands before another one at its price. -/
def StandsBefore (a b : TrackedOrder) : Prop :=
  a.createdAt < b.createdAt ∨ (a.createdAt = b.createdAt ∧ a.orderId < b.orderId)

/-- A trade serves no order while an earlier one of the same side and price is still there. -/
def ServesInOrder (rt : Runtime) (cfg : FillModelConfig) (self : ConservativeQueueFillModel)
    (log : List Event) (event : Event) (fairState : FairPriceState) (trade : TradePayload) :
    Prop :=
  ∀ a ∈ self.orders.rows, ∀ b ∈ self.orders.rows,
    isEligible cfg trade event.tsExchange a = true →
    isEligible cfg trade event.tsExchange b = true →
    a.side = b.side → a.price = b.price → PlacedBefore log a b →
    Served (self.onMarketEvent rt cfg event fairState).1
      (self.onMarketEvent rt cfg event fairState).2 b →
    Gone (self.onMarketEvent rt cfg event fairState).1
      (self.onMarketEvent rt cfg event fairState).2 a

instance (log : List Event) (a b : TrackedOrder) : Decidable (PlacedBefore log a b) :=
  inferInstanceAs (Decidable (List.Sublist _ _))

instance (a b : TrackedOrder) : Decidable (StandsBefore a b) :=
  inferInstanceAs (Decidable (_ ∨ _))

instance (after : ConservativeQueueFillModel) (out : List Event) (order : TrackedOrder) :
    Decidable (Served after out order) :=
  inferInstanceAs (Decidable (_ ∨ _))

instance (after : ConservativeQueueFillModel) (out : List Event) (order : TrackedOrder) :
    Decidable (Gone after out order) :=
  inferInstanceAs (Decidable (_ ∧ _))

instance (rt : Runtime) (cfg : FillModelConfig) (self : ConservativeQueueFillModel)
    (log : List Event) (event : Event) (fairState : FairPriceState) (trade : TradePayload) :
    Decidable (ServesInOrder rt cfg self log event fairState trade) := by
  unfold ServesInOrder
  infer_instance

/-- At one price the sort goes by age and identity. -/
theorem sortKey_lt_iff {taker : Option Side} {a b : TrackedOrder} (hprice : a.price = b.price) :
    sortKey taker a < sortKey taker b ↔ StandsBefore a b := by
  have hsame : sortPrice taker a = sortPrice taker b := by
    unfold sortPrice
    rw [hprice]
  unfold sortKey StandsBefore
  rw [Prod.Lex.toLex_lt_toLex, Prod.Lex.toLex_lt_toLex]
  simp [hsame]

section Order

variable {rt : Runtime} {cfg : FillModelConfig} {self : ConservativeQueueFillModel}
  {event : Event} {fairState : FairPriceState} {trade : TradePayload} {log : List Event}
  {a b : TrackedOrder}

/-- Orders that stand as they were placed are served as they were placed. -/
theorem gone_of_standsBefore (hbody : event.body = .trade trade)
    (ha : a ∈ self.eligibleOrders cfg trade event.tsExchange)
    (hb : b ∈ self.eligibleOrders cfg trade event.tsExchange) (hprice : a.price = b.price)
    (hsize : 0 < a.remainingSize) (hstands : StandsBefore a b)
    (h : Served (self.onMarketEvent rt cfg event fairState).1
      (self.onMarketEvent rt cfg event fairState).2 b) :
    Gone (self.onMarketEvent rt cfg event fairState).1
      (self.onMarketEvent rt cfg event fairState).2 a := by
  obtain ⟨xs, ys, hl⟩ := List.append_of_mem hb
  exact gone_of_served hbody hl (mem_front hl ha ((sortKey_lt_iff hprice).mpr hstands)) hsize h

/-- What is gone had something to fill, and a flow that got to it. -/
theorem of_gone {xs ys : List TrackedOrder} (hbody : event.body = .trade trade)
    (hl : self.eligibleOrders cfg trade event.tsExchange = xs ++ a :: ys)
    (h : Gone (self.onMarketEvent rt cfg event fairState).1
      (self.onMarketEvent rt cfg event fairState).2 a) :
    0 < a.remainingSize ∧ 0 < trade.amount - ahead xs := by
  obtain ⟨hafter, -⟩ := onMarketEvent_eligible rt fairState hbody hl
  have hnone := hafter.symm.trans h.1
  by_cases hpos : 0 < a.share (trade.amount - ahead xs)
  · have hpast : max 0 a.queueAhead < trade.amount - ahead xs :=
      sub_pos.mp (hpos.trans_le (min_le_right _ _))
    exact ⟨hpos.trans_le (min_le_left _ _), (le_max_left _ _).trans_lt hpast⟩
  · simp only [TrackedOrder.after, if_neg hpos] at hnone
    simp at hnone

/-- A trade that serves one order at its price and none behind it. -/
def probe (cfg : FillModelConfig) (a b : TrackedOrder) (amount : ℚ) : Event where
  eventId := ""
  tsExchange := max a.createdAt b.createdAt + cfg.minRestingTimeMs
  tsLocal := 0
  venue := ""
  symbol := ""
  sequence := .absent
  body := .trade ⟨some b.side.opposite, b.price, amount⟩

theorem isEligible_probe {o : TrackedOrder} (hside : o.side = b.side) (hprice : o.price = b.price)
    (hcreated : o.createdAt ≤ max a.createdAt b.createdAt) (amount : ℚ) :
    isEligible cfg ⟨some b.side.opposite, b.price, amount⟩ (probe cfg a b amount).tsExchange o
      = true := by
  have hrested : ¬ (probe cfg a b amount).tsExchange - o.createdAt < cfg.minRestingTimeMs := by
    show ¬ max a.createdAt b.createdAt + cfg.minRestingTimeMs - o.createdAt < cfg.minRestingTimeMs
    rw [not_lt]
    linarith
  unfold isEligible
  rw [if_neg hrested, hside, hprice]
  cases b.side <;> simp [Side.opposite]

/-- What is sorted before an order at its price stands before it. -/
theorem standsBefore_of_mem_front {nowMs : ℚ} {xs ys : List TrackedOrder}
    (hl : self.eligibleOrders cfg trade nowMs = xs ++ b :: ys) (ha : a ∈ xs)
    (hprice : a.price = b.price) (hne : a.orderId ≠ b.orderId) : StandsBefore a b := by
  have hsorted := pairwise_eligibleOrders cfg self trade nowMs
  rw [hl, List.pairwise_append] at hsorted
  have hle := hsorted.2.2 a ha b List.mem_cons_self
  refine (sortKey_lt_iff hprice).mp (lt_of_le_of_ne hle fun heq => ?_)
  exact hne (congrArg (fun key => (ofLex (ofLex key).2).2) heq)

/-- A flow that ends at an order leaves what is sorted behind it. -/
theorem not_gone_of_mem_back {xs ys : List TrackedOrder} (hbody : event.body = .trade trade)
    (hl : self.eligibleOrders cfg trade event.tsExchange = xs ++ b :: ys) (ha : a ∈ ys)
    (hflow : trade.amount = ahead xs
      + Waterfall.capacity TrackedOrder.queueAhead TrackedOrder.remainingSize b) :
    ¬ Gone (self.onMarketEvent rt cfg event fairState).1
      (self.onMarketEvent rt cfg event fairState).2 a := by
  intro hgone
  obtain ⟨as, bs, rfl⟩ := List.append_of_mem ha
  have hla : self.eligibleOrders cfg trade event.tsExchange = (xs ++ b :: as) ++ a :: bs := by
    rw [hl]
    simp
  have hpast := (of_gone hbody hla hgone).2
  have has : 0 ≤ ahead as := Waterfall.capacities_nonneg as
  rw [ahead_append_cons, ← add_assoc] at hpast
  linarith

/-- If every trade serves two orders in order, the first has a size and stands before the second. -/
theorem standsBefore_of_servesInOrder (ha : a ∈ self.orders.rows) (hb : b ∈ self.orders.rows)
    (hside : a.side = b.side) (hprice : a.price = b.price) (hne : a.orderId ≠ b.orderId)
    (hplaced : PlacedBefore log a b) (hroom : 0 < b.queueAhead ∨ 0 < b.remainingSize)
    (h : ∀ event trade, event.body = .trade trade →
      ServesInOrder rt cfg self log event fairState trade) :
    0 < a.remainingSize ∧ StandsBefore a b := by
  -- a trade that fills what stands before `b`, then `b`, and nothing behind it
  let taker (amount : ℚ) : TradePayload := ⟨some b.side.opposite, b.price, amount⟩
  have haelig : ∀ amount,
      isEligible cfg (taker amount) (probe cfg a b amount).tsExchange a = true :=
    fun amount => isEligible_probe hside hprice (le_max_left _ _) amount
  have hbelig : ∀ amount,
      isEligible cfg (taker amount) (probe cfg a b amount).tsExchange b = true :=
    fun amount => isEligible_probe rfl rfl (le_max_right _ _) amount
  have hsame : ∀ amount, self.eligibleOrders cfg (taker amount) (probe cfg a b amount).tsExchange
      = self.eligibleOrders cfg (taker 0) (probe cfg a b 0).tsExchange := fun _ => rfl
  obtain ⟨xs, ys, hl⟩ := List.append_of_mem (mem_eligibleOrders.mpr ⟨hb, hbelig 0⟩)
  let amount := ahead xs
    + Waterfall.capacity TrackedOrder.queueAhead TrackedOrder.remainingSize b
  have hlb : self.eligibleOrders cfg (taker amount) (probe cfg a b amount).tsExchange
      = xs ++ b :: ys := (hsame amount).trans hl
  have hcap : 0 < Waterfall.capacity TrackedOrder.queueAhead TrackedOrder.remainingSize b := by
    unfold Waterfall.capacity
    rcases hroom with hqueue | hsize
    · exact add_pos_of_pos_of_nonneg (lt_max_of_lt_right hqueue) (le_max_left _ _)
    · exact add_pos_of_nonneg_of_pos (le_max_left _ _) (lt_max_of_lt_right hsize)
  have hflow : (taker amount).amount - ahead xs
      = Waterfall.capacity TrackedOrder.queueAhead TrackedOrder.remainingSize b :=
    add_sub_cancel_left _ _
  have hserved : Served (self.onMarketEvent rt cfg (probe cfg a b amount) fairState).1
      (self.onMarketEvent rt cfg (probe cfg a b amount) fairState).2 b :=
    (served_iff rfl hlb).mpr ⟨hflow.symm ▸ hcap, hroom⟩
  have hgone := h (probe cfg a b amount) (taker amount) rfl a ha b hb (haelig amount)
    (hbelig amount) hside hprice hplaced hserved
  have hmem : a ∈ xs ++ b :: ys := hlb ▸ mem_eligibleOrders.mpr ⟨ha, haelig amount⟩
  rcases List.mem_append.mp hmem with hfront | hback
  · refine ⟨?_, standsBefore_of_mem_front hlb hfront hprice hne⟩
    obtain ⟨as, bs, rfl⟩ := List.append_of_mem hfront
    have hla : self.eligibleOrders cfg (taker amount) (probe cfg a b amount).tsExchange
        = as ++ a :: (bs ++ b :: ys) := by
      rw [hlb]
      simp
    exact (of_gone rfl hla hgone).1
  · rcases List.mem_cons.mp hback with rfl | hback
    · exact absurd rfl hne
    · exact absurd hgone (not_gone_of_mem_back rfl hlb hback rfl)

end Order

end ConservativeQueueFillModel

section Runs

open ConservativeQueueFillModel

variable {rt : Runtime} {cfg : Config} {steps : List (Machine.Step Pipeline Event (List Event))}
  {s : Pipeline}

/--
**Time priority, and when it holds.**  A state of a run serves orders of one side and price in
the order in which they were placed, whatever trade comes, if and only if the sort puts them in
that order and the earlier ones have something to fill.
-/
theorem timePriority_iff (h : Machine.Run (Pipeline.process rt cfg) (Pipeline.init cfg) steps s) :
    (∀ event fairState trade, event.body = .trade trade →
      ServesInOrder rt cfg.fillModel s.fillModel (emittedOf steps) event fairState trade) ↔
    ∀ a ∈ s.fillModel.orders.rows, ∀ b ∈ s.fillModel.orders.rows, a.side = b.side →
      a.price = b.price → PlacedBefore (emittedOf steps) a b →
      (0 < b.queueAhead ∨ 0 < b.remainingSize) → 0 < a.remainingSize ∧ StandsBefore a b := by
  constructor
  · intro hserves a ha b hb hside hprice hplaced hroom
    have hnodup := (tracks_run h).nodup_placements.sublist hplaced
    have hne : a.orderId ≠ b.orderId := by
      simpa using hnodup
    exact standsBefore_of_servesInOrder ha hb hside hprice hne hplaced hroom
      fun event trade hbody => hserves event ⟨none, 0, none, false, none, [], none⟩ trade hbody
  · intro hstands event fairState trade hbody a ha b hb haelig hbelig hside hprice hplaced hserved
    have hmem := mem_eligibleOrders.mpr ⟨hb, hbelig⟩
    obtain ⟨xs, ys, hl⟩ := List.append_of_mem hmem
    obtain ⟨hsize, hbefore⟩ := hstands a ha b hb hside hprice hplaced ((served_iff hbody hl).mp
      hserved).2
    exact gone_of_standsBefore hbody (mem_eligibleOrders.mpr ⟨ha, haelig⟩) hmem hprice hsize
      hbefore hserved

/-- Two bids at one price, placed one after the other: a sell of one serves the first. -/
theorem timePriority_iff_two_bids :
    let result := Pipeline.exec seriesRuntime flatConfig (quoteThenSell (1 / 2000))
    ServesInOrder seriesRuntime flatConfig.fillModel result.1.fillModel
      (emittedOf (Machine.stepsOf result)) (sellEvent 1000 10000000 (1 / 1000))
      ⟨none, 0, none, false, none, [], none⟩ ⟨some .sell, 10000000, 1 / 1000⟩ :=
  (timePriority_iff (Machine.run_exec (by decide +kernel))).mpr (by decide +kernel) _ _ _ rfl

/-- A bid placed at 4000 is filled in part; then trading stops, and goes on at 2000. -/
private def timeSteppingBack : List Event :=
  [pairSpecEvent 1000, snapshotEvent 1000 1 10000000 10000002, sellEvent 1000 10000000 (1 / 10),
    pairSpecEvent 4000, sellEvent 4000 10000000 (1 / 2000),
    marketEvent 4000 .absent (.bitbankPairSpec
      { name := "btc_jpy", unitAmount := 1 / 10000, limitMaxAmount := 1000, priceDigits := 0,
        amountDigits := 4, isEnabled := some false }),
    pairSpecEvent 2000]

/-- A bid placed at 2000 is served while the one placed before it, at 4000, still waits. -/
theorem timePriority_fails_stepping_back :
    let result := Pipeline.exec seriesRuntime flatConfig timeSteppingBack
    let steps := Machine.stepsOf result
    Machine.Run (Pipeline.process seriesRuntime flatConfig) (Pipeline.init flatConfig) steps
      result.1 ∧
    (fills (result.1.fillModel.onMarketEvent seriesRuntime flatConfig.fillModel
      (sellEvent 4000 10000000 (1 / 1000)) ⟨none, 0, none, false, none, [], none⟩).2).map
        FillPayload.orderId = ["v-2000-000026", "v-2000-000027"] ∧
    ¬ ServesInOrder seriesRuntime flatConfig.fillModel result.1.fillModel (emittedOf steps)
      (sellEvent 4000 10000000 (1 / 1000)) ⟨none, 0, none, false, none, [], none⟩
      ⟨some .sell, 10000000, 1 / 1000⟩ :=
  ⟨Machine.run_exec (by decide +kernel), by decide +kernel, by decide +kernel⟩

end Runs

end GhostAmm
