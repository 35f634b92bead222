/-
How much an order can be filled, given what was traded.

An order stands behind a queue of `Q`, and the trades that could reach it amount to `V`.  A
trade is shared between many orders, so an order sees some flow that is no more than the
trade; the flow covers what is left of the queue before it fills anything.  While an order is
tracked, its fills and the part of its queue that is gone are together no more than the trades
offered to it, and once it has a fill its queue is gone (`Ledger`).  So its fills never exceed
`V - Q`, whatever other orders are placed, canceled and filled in between.
-/
import GhostAmm.Lib.Machine
import GhostAmm.Proofs.Fills

namespace GhostAmm

/-- A call on the fill model. -/
inductive FillCall where
  | onVirtualOrder (payload : PlacedPayload) (book : OrderBook)
  | onCancel (payload : CanceledPayload)
  | onMarketEvent (event : Event) (fairState : FairPriceState)

/-- The order a call places. -/
def FillCall.placed? : FillCall → Option PlacedPayload
  | .onVirtualOrder payload _ => some payload
  | _ => none

/-- A trade that could reach an order: from the other side, at or through its price, and after
its resting time. -/
def PlacedPayload.MeetsTrade (cfg : FillModelConfig) (payload : PlacedPayload)
    (trade : TradePayload) (nowMs : ℚ) : Prop :=
  trade.side = some payload.side.opposite ∧
    (match payload.side with
      | .buy => trade.price ≤ payload.price
      | .sell => payload.price ≤ trade.price) ∧
    cfg.minRestingTimeMs ≤ nowMs - payload.createdAt

instance (cfg : FillModelConfig) (payload : PlacedPayload) (trade : TradePayload) (nowMs : ℚ) :
    Decidable (payload.MeetsTrade cfg trade nowMs) := by
  unfold PlacedPayload.MeetsTrade
  cases payload.side <;> infer_instance

/-- What a call offers to an order. -/
def FillCall.offers (cfg : FillModelConfig) (payload : PlacedPayload) : FillCall → ℚ
  | .onMarketEvent event _ =>
      match event.body with
      | .trade trade => if payload.MeetsTrade cfg trade event.tsExchange then trade.amount else 0
      | _ => 0
  | _ => 0

/-- The amount traded that could have reached an order. -/
def offered (cfg : FillModelConfig) (payload : PlacedPayload) (calls : List FillCall) : ℚ :=
  (calls.map (FillCall.offers cfg payload)).sum

/-- The queue an order is placed behind. -/
def queueBehind (cfg : FillModelConfig) (payload : PlacedPayload) (book : OrderBook) : ℚ :=
  cfg.queueAheadMultiplier * max (book.queueAt payload.side payload.price) payload.size

/-- A call that brings no trade of a negative amount. -/
def FillCall.NonnegAmount : FillCall → Prop
  | .onMarketEvent event _ =>
      match event.body with
      | .trade trade => 0 ≤ trade.amount
      | _ => True
  | _ => True

instance (c : FillCall) : Decidable c.NonnegAmount := by
  unfold FillCall.NonnegAmount
  split
  · split <;> infer_instance
  · infer_instance

namespace ConservativeQueueFillModel

/-- One call, with what it emits. -/
def call (rt : Runtime) (cfg : FillModelConfig) (self : ConservativeQueueFillModel) :
    FillCall → ConservativeQueueFillModel × Except Py.Error (List Event)
  | .onVirtualOrder payload book => (self.onVirtualOrder cfg payload book, .ok [])
  | .onCancel payload => (self.onCancel payload, .ok [])
  | .onMarketEvent event fairState =>
      let (self, events) := self.onMarketEvent rt cfg event fairState
      (self, .ok events)

theorem filledSize_append (orderId : String) (xs ys : List Event) :
    filledSize orderId (xs ++ ys) = filledSize orderId xs + filledSize orderId ys := by
  unfold filledSize fills
  rw [List.filterMap_append, List.filter_append, List.map_append, List.sum_append]

theorem trackedOf_queueAhead {cfg : FillModelConfig} (hmult : 0 ≤ cfg.queueAheadMultiplier)
    (payload : PlacedPayload) (book : OrderBook) :
    (trackedOf cfg payload book).queueAhead = queueBehind cfg payload book := by
  show max _ _ = _
  unfold queueBehind
  rw [mul_max_of_nonneg _ _ hmult, mul_comm, mul_comm payload.size]

/-! ### One order under one flow -/

/-- The fills of an order and the part of its queue that is gone, against what was offered. -/
structure Ledger (queue offered filled queueAhead : ℚ) : Prop where
  paid : filled + (queue - queueAhead) ≤ offered
  gone : 0 < filled → queueAhead ≤ 0

theorem Ledger.bound {queue offered filled queueAhead : ℚ}
    (h : Ledger queue offered filled queueAhead) : filled ≤ max 0 (offered - queue) := by
  by_cases hfilled : 0 < filled
  · have hgone := h.gone hfilled
    have hpaid := h.paid
    exact le_max_of_le_right (by linarith)
  · exact le_max_of_le_left (not_lt.mp hfilled)

/-- A flow keeps the ledger, if it is no more than what is offered. -/
theorem Ledger.flow {queue offered filled flow amount : ℚ} {order : TrackedOrder}
    (h : Ledger queue offered filled order.queueAhead) (hflow : flow ≤ amount)
    (hamount : 0 ≤ amount) :
    Ledger queue (offered + amount) (filled + max 0 (order.share flow))
      (order.queueLeft flow) := by
  have hcover : min (max 0 order.queueAhead) (max 0 flow) + max 0 (order.share flow)
      ≤ max 0 flow := Waterfall.covered_add_share_le flow order
  have hbelow : max 0 flow ≤ amount := max_le hamount hflow
  have hpaid := h.paid
  refine ⟨?_, fun hfilled => ?_⟩
  · unfold TrackedOrder.queueLeft
    linarith
  · unfold TrackedOrder.queueLeft
    by_cases hshare : 0 < order.share flow
    · -- what fills the order has passed the whole queue
      have hpast : max 0 order.queueAhead < flow :=
        sub_pos.mp (hshare.trans_le (min_le_right _ _))
      have hqueue : order.queueAhead ≤ max 0 order.queueAhead := le_max_right _ _
      rw [min_eq_left (hpast.le.trans (le_max_right _ _))]
      linarith
    · rw [max_eq_left (not_lt.mp hshare), add_zero] at hfilled
      have hgone := h.gone hfilled
      have hnonneg : 0 ≤ min (max 0 order.queueAhead) (max 0 flow) :=
        le_min (le_max_left _ _) (le_max_left _ _)
      linarith

/-- What an order keeps through a flow. -/
theorem after_frame {flow : ℚ} {order left : TrackedOrder} (h : order.after flow = some left) :
    left.side = order.side ∧ left.price = order.price ∧ left.createdAt = order.createdAt ∧
      left.queueAhead = order.queueLeft flow := by
  simp only [TrackedOrder.after] at h
  split at h
  · split at h
    · simp at h
    · rw [← Option.some.inj h]
      exact ⟨rfl, rfl, rfl, rfl⟩
  · rw [← Option.some.inj h]
    exact ⟨rfl, rfl, rfl, rfl⟩

/-! ### One order through a run -/

/-- An order after a run that has emitted `log`, with `calls` since it was placed. -/
structure Waits (cfg : FillModelConfig) (payload : PlacedPayload) (book : OrderBook)
    (log : List Event) (calls : List FillCall) (model : ConservativeQueueFillModel) : Prop where
  bound : filledSize payload.orderId log
    ≤ max 0 (offered cfg payload calls - queueBehind cfg payload book)
  tracked : ∀ order, model.orders.get? payload.orderId = some order →
    order.side = payload.side ∧ order.price = payload.price ∧
      order.createdAt = payload.createdAt ∧
      Ledger (queueBehind cfg payload book) (offered cfg payload calls)
        (filledSize payload.orderId log) order.queueAhead

section Calls

variable {rt : Runtime} {cfg : FillModelConfig} {self : ConservativeQueueFillModel}
  {payload : PlacedPayload} {book : OrderBook} {log : List Event} {calls : List FillCall}

theorem offers_nonneg (cfg : FillModelConfig) (payload : PlacedPayload) {c : FillCall}
    (h : c.NonnegAmount) : 0 ≤ c.offers cfg payload := by
  cases c with
  | onMarketEvent event fairState =>
      simp only [FillCall.offers]
      simp only [FillCall.NonnegAmount] at h
      split
      · rename_i hbody
        rw [hbody] at h
        split
        · exact h
        · exact le_rfl
      · exact le_rfl
  | _ => exact le_rfl

theorem offered_snoc (c : FillCall) :
    offered cfg payload (calls ++ [c]) = offered cfg payload calls + c.offers cfg payload := by
  unfold offered
  rw [List.map_append, List.sum_append]
  simp

/-- An eligible order is met by the trade. -/
theorem meetsTrade_of_isEligible {order : TrackedOrder} {trade : TradePayload} {nowMs : ℚ}
    (hside : order.side = payload.side) (hprice : order.price = payload.price)
    (hcreated : order.createdAt = payload.createdAt)
    (h : isEligible cfg trade nowMs order = true) : payload.MeetsTrade cfg trade nowMs := by
  unfold isEligible at h
  rw [hside, hprice, hcreated] at h
  unfold PlacedPayload.MeetsTrade
  split at h
  · simp at h
  · rename_i hrested
    refine (and_assoc.mp ⟨?_, not_lt.mp hrested⟩)
    cases hpayload : payload.side with
    | buy =>
        rcases htaker : trade.side with _ | _ | _ <;> simp_all [Side.opposite]
    | sell =>
        rcases htaker : trade.side with _ | _ | _ <;> simp_all [Side.opposite]

/-- A placement of another order, or a cancel, fills nothing. -/
theorem Waits.quiet {model : ConservativeQueueFillModel} {c : FillCall}
    (h : Waits cfg payload book log calls self)
    (horders : ∀ order, model.orders.get? payload.orderId = some order →
      self.orders.get? payload.orderId = some order)
    (hoffers : c.offers cfg payload = 0) :
    Waits cfg payload book (log ++ []) (calls ++ [c]) model := by
  rw [List.append_nil]
  refine ⟨?_, fun order horder => ?_⟩
  · rw [offered_snoc, hoffers, add_zero]
    exact h.bound
  · rw [offered_snoc, hoffers, add_zero]
    exact h.tracked order (horders order horder)

/-- A market event moves the ledger by some flow no larger than what it offers. -/
theorem Waits.marketEvent {event : Event} {fairState : FairPriceState}
    (h : Waits cfg payload book log calls self)
    (hamount : (FillCall.onMarketEvent event fairState).NonnegAmount) :
    Waits cfg payload book (log ++ (self.onMarketEvent rt cfg event fairState).2)
      (calls ++ [.onMarketEvent event fairState])
      (self.onMarketEvent rt cfg event fairState).1 := by
  have hnonneg := offers_nonneg cfg payload hamount
  cases hself : self.orders.get? payload.orderId with
  | none =>
      have hgone := (onMarketEvent_spec rt cfg self event fairState).fresh _ hself
      refine ⟨?_, fun order horder => ?_⟩
      · rw [filledSize_append, filledSize_of_untracked rt cfg self event fairState hself, add_zero,
          offered_snoc]
        exact h.bound.trans (max_le_max_left 0 (by linarith))
      · rw [hgone] at horder
        simp at horder
  | some order =>
      obtain ⟨hrow, hid⟩ := Py.Table.get?_eq_some.mp hself
      obtain ⟨hside, hprice, hcreated, hledger⟩ := h.tracked order hself
      obtain ⟨flow, hafter, hfilled, hreach⟩ :=
        onMarketEvent_order rt cfg self event fairState hrow
      rw [hid] at hafter hfilled
      have hflow : flow ≤ (FillCall.onMarketEvent event fairState).offers cfg payload := by
        by_cases hpos : 0 < flow
        · obtain ⟨trade, hbody, helig, hle⟩ := hreach hpos
          have hmeets := meetsTrade_of_isEligible hside hprice hcreated helig
          simp only [FillCall.offers, hbody, if_pos hmeets]
          exact hle
        · exact (not_lt.mp hpos).trans hnonneg
      have hnext := hledger.flow hflow hnonneg
      rw [← offered_snoc, ← hfilled, ← filledSize_append] at hnext
      refine ⟨hnext.bound, fun left hleft => ?_⟩
      rw [hafter] at hleft
      obtain ⟨hside', hprice', hcreated', hqueue⟩ := after_frame hleft
      rw [hqueue]
      exact ⟨hside'.trans hside, hprice'.trans hprice, hcreated'.trans hcreated, hnext⟩

/-- **Every call on other orders keeps the account of this one.** -/
theorem Waits.call {c : FillCall} {model : ConservativeQueueFillModel} {out : List Event}
    (h : Waits cfg payload book log calls self)
    (hother : ∀ p, c.placed? = some p → p.orderId ≠ payload.orderId) (hamount : c.NonnegAmount)
    (hcall : self.call rt cfg c = (model, .ok out)) :
    Waits cfg payload book (log ++ out) (calls ++ [c]) model := by
  cases c with
  | onVirtualOrder p b =>
      obtain ⟨rfl, hout⟩ := Prod.mk.inj hcall
      obtain rfl := Except.ok.inj hout
      refine h.quiet (fun order horder => ?_) rfl
      have hne : payload.orderId ≠ (trackedOf cfg p b).orderId := (hother p rfl).symm
      rw [← horder]
      exact (Py.Table.get?_put_ne _ hne).symm
  | onCancel p =>
      obtain ⟨rfl, hout⟩ := Prod.mk.inj hcall
      obtain rfl := Except.ok.inj hout
      refine h.quiet (fun order horder => ?_) rfl
      by_cases hid : payload.orderId = p.orderId
      · unfold onCancel at horder
        rw [hid, Py.Table.get?_erase_self] at horder
        simp at horder
      · rw [← horder]
        exact (Py.Table.get?_erase_ne _ hid).symm
  | onMarketEvent event fairState =>
      obtain ⟨rfl, hout⟩ := Prod.mk.inj hcall
      obtain rfl := Except.ok.inj hout
      exact h.marketEvent hamount

/-- A placed order has no fill, and its whole queue before it. -/
theorem waits_placed (hmult : 0 ≤ cfg.queueAheadMultiplier)
    (hfresh : filledSize payload.orderId log = 0) :
    Waits cfg payload book log [] (self.onVirtualOrder cfg payload book) := by
  refine ⟨?_, fun order horder => ?_⟩
  · rw [hfresh]
    exact le_max_left _ _
  · have hself : (self.onVirtualOrder cfg payload book).orders.get? payload.orderId
        = some (trackedOf cfg payload book) :=
      Py.Table.get?_put_self self.orders (trackedOf cfg payload book)
    rw [hself] at horder
    rw [← Option.some.inj horder, trackedOf_queueAhead hmult, hfresh]
    refine ⟨rfl, rfl, rfl, ?_, fun hpos => absurd hpos (lt_irrefl 0)⟩
    simp [offered]

/-- An order that was never placed is not tracked and has no fill. -/
theorem unplaced_call {orderId : String} {c : FillCall} {model : ConservativeQueueFillModel}
    {out : List Event} (hself : self.orders.get? orderId = none)
    (hfilled : filledSize orderId log = 0)
    (hother : ∀ p, c.placed? = some p → p.orderId ≠ orderId)
    (hcall : self.call rt cfg c = (model, .ok out)) :
    model.orders.get? orderId = none ∧ filledSize orderId (log ++ out) = 0 := by
  rw [filledSize_append, hfilled, zero_add]
  cases c with
  | onVirtualOrder p b =>
      obtain ⟨rfl, hout⟩ := Prod.mk.inj hcall
      obtain rfl := Except.ok.inj hout
      have hne : orderId ≠ (trackedOf cfg p b).orderId := (hother p rfl).symm
      exact ⟨(Py.Table.get?_put_ne _ hne).trans hself, rfl⟩
  | onCancel p =>
      obtain ⟨rfl, hout⟩ := Prod.mk.inj hcall
      obtain rfl := Except.ok.inj hout
      refine ⟨?_, rfl⟩
      by_cases hid : orderId = p.orderId
      · unfold onCancel
        rw [hid, Py.Table.get?_erase_self]
      · exact (Py.Table.get?_erase_ne _ hid).trans hself
  | onMarketEvent event fairState =>
      obtain ⟨rfl, hout⟩ := Prod.mk.inj hcall
      obtain rfl := Except.ok.inj hout
      exact ⟨(onMarketEvent_spec rt cfg self event fairState).fresh _ hself,
        filledSize_of_untracked rt cfg self event fairState hself⟩

end Calls

/-! ### Runs of calls -/

/-- Everything a run of calls emits. -/
def emittedBy (steps : List (Machine.Step ConservativeQueueFillModel FillCall (List Event))) :
    List Event := steps.flatMap Machine.Step.output

/-- The orders a run places, in order. -/
def placedBy (steps : List (Machine.Step ConservativeQueueFillModel FillCall (List Event))) :
    List PlacedPayload := steps.filterMap fun r => r.input.placed?

section Runs

variable {rt : Runtime} {cfg : FillModelConfig}
  {steps : List (Machine.Step ConservativeQueueFillModel FillCall (List Event))}
  {s : ConservativeQueueFillModel}

theorem unplaced_run (h : Machine.Run (call rt cfg) (fromConfig cfg) steps s) {orderId : String}
    (hid : orderId ∉ (placedBy steps).map PlacedPayload.orderId) :
    s.orders.get? orderId = none ∧ filledSize orderId (emittedBy steps) = 0 := by
  induction h with
  | nil => exact ⟨rfl, rfl⟩
  | @snoc steps s s' c out _ hs ih =>
      unfold placedBy emittedBy at *
      rw [List.filterMap_append, List.map_append, List.mem_append, not_or] at hid
      obtain ⟨hself, hfilled⟩ := ih hid.1
      rw [List.flatMap_append, List.flatMap_singleton]
      refine unplaced_call hself hfilled (fun p hp heq => hid.2 ?_) hs
      simp [hp, heq]

theorem waits_run (hmult : 0 ≤ cfg.queueAheadMultiplier)
    (h : Machine.Run (call rt cfg) (fromConfig cfg) steps s)
    (hids : ((placedBy steps).map PlacedPayload.orderId).Nodup)
    (hamounts : ∀ r ∈ steps, r.input.NonnegAmount) :
    ∀ xs r ys payload book, steps = xs ++ r :: ys → r.input = .onVirtualOrder payload book →
      Waits cfg payload book (emittedBy steps) (ys.map Machine.Step.input) s := by
  induction h with
  | nil =>
      intro xs r ys payload book hsteps
      simp at hsteps
  | @snoc steps s s' c out hrun hs ih =>
      intro xs r ys payload book hsteps hplace
      unfold placedBy at hids
      rw [List.filterMap_append, List.map_append] at hids
      have hemitted : emittedBy (steps ++ [⟨s, c, out, s'⟩]) = emittedBy steps ++ out := by
        unfold emittedBy
        rw [List.flatMap_append, List.flatMap_singleton]
      rw [hemitted]
      rcases List.eq_nil_or_concat ys with rfl | ⟨ys', y, rfl⟩
      · -- the order is placed by the last call
        obtain ⟨rfl, hr⟩ := List.append_inj' hsteps rfl
        simp only [List.cons.injEq, and_true] at hr
        subst hr
        obtain rfl : c = .onVirtualOrder payload book := hplace
        obtain ⟨rfl, hout⟩ := Prod.mk.inj hs
        obtain rfl := Except.ok.inj hout
        rw [List.append_nil]
        refine waits_placed hmult (unplaced_run hrun fun hmem => ?_).2
        exact (List.nodup_append.mp hids).2.2 _ hmem payload.orderId
          (by simp [FillCall.placed?]) rfl
      · have hassoc : xs ++ r :: (ys'.concat y) = (xs ++ r :: ys') ++ [y] := by simp
        rw [hassoc] at hsteps
        obtain ⟨hfront, hlast⟩ := List.append_inj' hsteps rfl
        simp only [List.cons.injEq, and_true] at hlast
        rw [← hlast, List.concat_eq_append, List.map_append, List.map_singleton]
        refine (ih (List.nodup_append.mp hids).1 (fun r hr => hamounts r (by simp [hr])) xs r ys'
          payload book hfront hplace).call (fun p hp heq => ?_) (hamounts _ (by simp)) hs
        have hmem : payload ∈ steps.filterMap fun r => r.input.placed? := by
          rw [List.mem_filterMap]
          exact ⟨r, by simp [hfront], by rw [hplace]; rfl⟩
        exact (List.nodup_append.mp hids).2.2 _ (List.mem_map_of_mem hmem) p.orderId
          (by simp [hp]) heq.symm

/--
**Queue pessimism.**  In every run of calls that places each order once, the fills of an
order are together no more than what the trades after its placement offer it, less the queue
it was placed behind.
-/
theorem queue_pessimism (hmult : 0 ≤ cfg.queueAheadMultiplier)
    (h : Machine.Run (call rt cfg) (fromConfig cfg) steps s)
    (hids : ((placedBy steps).map PlacedPayload.orderId).Nodup)
    (hamounts : ∀ r ∈ steps, r.input.NonnegAmount) :
    ∀ xs r ys payload book, steps = xs ++ r :: ys → r.input = .onVirtualOrder payload book →
      filledSize payload.orderId (emittedBy steps)
        ≤ max 0 (offered cfg payload (ys.map Machine.Step.input)
            - queueBehind cfg payload book) := by
  intro xs r ys payload book hsteps hplace
  exact (waits_run hmult h hids hamounts xs r ys payload book hsteps hplace).bound

end Runs

/-- A bid for one behind two at its price, and two sells of two each through it. -/
private def restingBid : List FillCall :=
  [.onVirtualOrder
      { orderId := "order-1", side := .buy, price := 100, size := 1, postOnly := true,
        createdAt := 0, expiresAt := 3000, reason := "amm_quote", quoteLevel := 0,
        activation := 1, shockEventId := none, shockDirection := .neutral, shockAgeMs := none,
        inventorySkew := 0, fairPriceAtCreation := 101 }
      { bids := Py.Table.ofList [(100, 2)] },
    .onMarketEvent ⟨"trade-1", 500, 500, "bitbank", "BTC/JPY", .absent,
      .trade ⟨some .sell, 100, 2⟩⟩ ⟨none, 0, none, false, none, [], none⟩,
    .onMarketEvent ⟨"trade-2", 600, 600, "bitbank", "BTC/JPY", .absent,
      .trade ⟨some .sell, 99, 2⟩⟩ ⟨none, 0, none, false, none, [], none⟩]

/-- The steps of that run. -/
private abbrev restingBidSteps :
    List (Machine.Step ConservativeQueueFillModel FillCall (List Event)) :=
  Machine.stepsOf (Machine.exec (call ⟨fun _ => 0, fun _ _ _ _ _ => "", fun _ => none⟩ {})
    (fromConfig {}) restingBid)

/-- Of four traded and three in the queue, one is filled. -/
theorem queue_pessimism_resting_bid :
    filledSize "order-1" (emittedBy restingBidSteps) = 1 ∧
      ∀ xs r ys payload book, restingBidSteps = xs ++ r :: ys →
        r.input = .onVirtualOrder payload book →
        filledSize payload.orderId (emittedBy restingBidSteps)
          ≤ max 0 (offered {} payload (ys.map Machine.Step.input)
              - queueBehind {} payload book) :=
  ⟨by decide +kernel, queue_pessimism (by decide +kernel) (Machine.run_exec (by decide +kernel))
    (by decide +kernel) (by decide +kernel)⟩

end ConservativeQueueFillModel

end GhostAmm
