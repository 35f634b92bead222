/-
What the log of a run says about its orders.

The simulation says that every order lives the life of an order; read back from the
log, this is what a reader of `events.jsonl` may rely on.  Identities are never reused.
A fill belongs to one earlier placement, at its side and price, and was caused by a
trade that could cause it.  Nothing is filled after it was canceled, and nothing beyond
its size.  And the orders placed are, at every point, those canceled, those filled and
those active, with no overlap.
-/
import GhostAmm.Proofs.Lifecycle

namespace GhostAmm

/-! ### Reading the acts back -/

section Acts

variable {id : String} {event : Event}

private theorem placed?_act? {payload : PlacedPayload} (h : event.placed? = some payload) :
    event.act? id = if payload.orderId = id then some (.place payload.size) else none := by
  unfold Event.placed? at h
  split at h
  · rename_i p hbody
    unfold Event.act?
    rw [hbody, Option.some.inj h]
  · simp at h

private theorem canceled?_act? {payload : CanceledPayload} (h : event.canceled? = some payload) :
    event.act? id = if payload.orderId = id then some .cancel else none := by
  unfold Event.canceled? at h
  split at h
  · rename_i p hbody
    unfold Event.act?
    rw [hbody, Option.some.inj h]
  · simp at h

private theorem fill?_act? {payload : FillPayload} (h : event.fill? = some payload) :
    event.act? id = if payload.orderId = id then some (.fill payload.fillSize) else none := by
  unfold Event.fill? at h
  split at h
  · rename_i p hbody
    unfold Event.act?
    rw [hbody, Option.some.inj h]
  · simp at h

/-- An act tells what event it comes from. -/
private theorem act?_cases {act : Life.Act ℚ} (h : event.act? id = some act) :
    (∃ payload, event.placed? = some payload ∧ payload.orderId = id ∧ act = .place payload.size) ∨
    (∃ payload, event.canceled? = some payload ∧ payload.orderId = id ∧ act = .cancel) ∨
    (∃ payload, event.fill? = some payload ∧ payload.orderId = id ∧
      act = .fill payload.fillSize) := by
  unfold Event.act? at h
  unfold Event.placed? Event.canceled? Event.fill?
  cases hbody : event.body with
  | virtualOrderPlaced payload =>
      rw [hbody] at h
      obtain ⟨hid, hact⟩ := Option.ite_none_right_eq_some.mp h
      exact Or.inl ⟨payload, rfl, hid, (Option.some.inj hact).symm⟩
  | virtualOrderCanceled payload =>
      rw [hbody] at h
      obtain ⟨hid, hact⟩ := Option.ite_none_right_eq_some.mp h
      exact Or.inr (Or.inl ⟨payload, rfl, hid, (Option.some.inj hact).symm⟩)
  | virtualFill payload =>
      rw [hbody] at h
      obtain ⟨hid, hact⟩ := Option.ite_none_right_eq_some.mp h
      exact Or.inr (Or.inr ⟨payload, rfl, hid, (Option.some.inj hact).symm⟩)
  | _ =>
      rw [hbody] at h
      simp at h

theorem count_placements (id : String) (log : List Event) :
    ((placements log).map PlacedPayload.orderId).count id
      = (actsOf id log).countP Life.Act.isPlace := by
  unfold placements actsOf
  rw [List.count, List.countP_map, List.countP_filterMap, List.countP_filterMap]
  refine List.countP_congr fun e _ => ?_
  cases hplaced : e.placed? with
  | some payload =>
      rw [placed?_act? hplaced]
      by_cases hid : payload.orderId = id <;> simp [hid, Life.Act.isPlace]
  | none =>
      cases hact : e.act? id with
      | none => simp
      | some act =>
          rcases act?_cases hact with ⟨p, hp, -⟩ | ⟨p, -, -, rfl⟩ | ⟨p, -, -, rfl⟩
          · rw [hplaced] at hp
            simp at hp
          · simp [Life.Act.isPlace]
          · simp [Life.Act.isPlace]

theorem count_cancels (id : String) (log : List Event) :
    ((cancels log).map CanceledPayload.orderId).count id
      = (actsOf id log).countP Life.Act.isCancel := by
  unfold cancels actsOf
  rw [List.count, List.countP_map, List.countP_filterMap, List.countP_filterMap]
  refine List.countP_congr fun e _ => ?_
  cases hcanceled : e.canceled? with
  | some payload =>
      rw [canceled?_act? hcanceled]
      by_cases hid : payload.orderId = id <;> simp [hid, Life.Act.isCancel]
  | none =>
      cases hact : e.act? id with
      | none => simp
      | some act =>
          rcases act?_cases hact with ⟨p, -, -, rfl⟩ | ⟨p, hp, -⟩ | ⟨p, -, -, rfl⟩
          · simp [Life.Act.isCancel]
          · rw [hcanceled] at hp
            simp at hp
          · simp [Life.Act.isCancel]

/-- The sizes of the fills of one order, in order. -/
theorem fillSizes_eq (id : String) (log : List Event) :
    ((fills log).filter fun fill => decide (fill.orderId = id)).map FillPayload.fillSize
      = (actsOf id log).filterMap Life.Act.fill? := by
  unfold fills actsOf
  rw [← List.filterMap_eq_map, ← List.filterMap_eq_filter, List.filterMap_filterMap,
    List.filterMap_filterMap, List.filterMap_filterMap]
  refine List.filterMap_congr fun e _ => ?_
  cases hfill : e.fill? with
  | some payload =>
      rw [fill?_act? hfill]
      by_cases hid : payload.orderId = id <;> simp [hid, Life.Act.fill?]
  | none =>
      cases hact : e.act? id with
      | none => simp
      | some act =>
          rcases act?_cases hact with ⟨p, -, -, rfl⟩ | ⟨p, -, -, rfl⟩ | ⟨p, hp, -⟩
          · simp [Life.Act.fill?]
          · simp [Life.Act.fill?]
          · rw [hfill] at hp
            simp at hp

theorem place_mem_actsOf {log : List Event} {payload : PlacedPayload}
    (h : payload ∈ placements log) : .place payload.size ∈ actsOf payload.orderId log := by
  obtain ⟨e, he, hplaced⟩ := List.mem_filterMap.mp h
  exact List.mem_filterMap.mpr ⟨e, he, by rw [placed?_act? hplaced, if_pos rfl]⟩

theorem cancel_mem_actsOf {log : List Event} {payload : CanceledPayload}
    (h : payload ∈ cancels log) : .cancel ∈ actsOf payload.orderId log := by
  obtain ⟨e, he, hcanceled⟩ := List.mem_filterMap.mp h
  exact List.mem_filterMap.mpr ⟨e, he, by rw [canceled?_act? hcanceled, if_pos rfl]⟩

end Acts

/-! ### What the simulation says of a log -/

namespace Tracks

variable {p : OrderProjector} {orders : Py.Table TrackedOrder.orderId} {log : List Event}

/-- Every order is in a phase that its acts tell and that the stores show. -/
theorem told (h : Tracks p orders log) (id : String) :
    ∃ phase, Life.Tells phase (actsOf id log) ∧ Stands p.active orders id phase := by
  obtain ⟨phase, hrun, hstands⟩ := h.lives id
  exact ⟨phase, Life.told_by hrun, hstands⟩

/-- No identity is placed twice. -/
theorem nodup_placements (h : Tracks p orders log) :
    ((placements log).map PlacedPayload.orderId).Nodup := by
  rw [List.nodup_iff_count_le_one]
  intro id
  obtain ⟨phase, htells, -⟩ := h.told id
  rw [count_placements, htells.count_place]
  cases phase <;> simp [Life.Phase.placed]

/-- No order is canceled twice. -/
theorem nodup_cancels (h : Tracks p orders log) :
    ((cancels log).map CanceledPayload.orderId).Nodup := by
  rw [List.nodup_iff_count_le_one]
  intro id
  obtain ⟨phase, htells, -⟩ := h.told id
  rw [count_cancels, htells.count_cancel]
  cases phase <;> simp [Life.Phase.cancels]

/-- What is filled of an order is no more than was placed. -/
theorem fills_le (h : Tracks p orders log) {order : PlacedPayload} (ho : order ∈ placements log)
    {own : List ℚ}
    (hown : ((fills log).filter fun fill => decide (fill.orderId = order.orderId)).map
      FillPayload.fillSize = own) : own = [] ∨ own.sum ≤ order.size := by
  obtain ⟨phase, htells, -⟩ := h.told order.orderId
  rw [fillSizes_eq] at hown
  by_cases hne : own = []
  · exact Or.inl hne
  · rw [← hown] at hne ⊢
    exact Or.inr (htells.sum_fills_le (place_mem_actsOf ho) hne)

/-- Before a fill there is no cancel of the same order. -/
theorem not_canceled_before (h : Tracks p orders log) {before after : List Event} {event : Event}
    (hlog : log = before ++ event :: after) {fill : FillPayload} (hfill : event.fill? = some fill) :
    ∀ c ∈ cancels before, c.orderId ≠ fill.orderId := by
  intro c hc heq
  obtain ⟨phase, htells, -⟩ := h.told fill.orderId
  have hacts : actsOf fill.orderId log
      = actsOf fill.orderId before ++ .fill fill.fillSize :: actsOf fill.orderId after := by
    rw [hlog, actsOf_append]
    unfold actsOf
    rw [List.filterMap_cons, fill?_act? hfill, if_pos rfl]
  rw [hacts] at htells
  exact htells.not_cancel_before_fill (heq ▸ cancel_mem_actsOf hc)

end Tracks

/-! ### The fills of a run -/

/-- An eligible order and the trade that reaches it. -/
theorem ConservativeQueueFillModel.of_isEligible {cfg : FillModelConfig} {trade : TradePayload}
    {nowMs : ℚ} {order : TrackedOrder} (h : isEligible cfg trade nowMs order = true) :
    order.createdAt + cfg.minRestingTimeMs ≤ nowMs ∧ trade.side = some order.side.opposite ∧
      match order.side with
      | .buy => trade.price ≤ order.price
      | .sell => order.price ≤ trade.price := by
  unfold isEligible at h
  split at h
  · simp at h
  · rename_i hresting
    have hts : order.createdAt + cfg.minRestingTimeMs ≤ nowMs := by linarith
    split at h
    · rename_i hside htaker
      rw [hside, htaker]
      exact ⟨hts, rfl, of_decide_eq_true h⟩
    · rename_i hside htaker
      rw [hside, htaker]
      exact ⟨hts, rfl, of_decide_eq_true h⟩
    · simp at h

/-- What a fill needs: an earlier placement, and a trade that reaches it in time. -/
structure FillIsSound (cfg : Config) (earlier : List Event) (cause : Event) (fill : FillPayload)
    (order : PlacedPayload) : Prop where
  placed : order ∈ placements earlier
  sameOrder : order.orderId = fill.orderId
  side : order.side = fill.side
  price : order.price = fill.fillPrice
  trade : ∃ trade, cause.body = .trade trade ∧ trade.side = some order.side.opposite ∧
    match order.side with
    | .buy => trade.price ≤ order.price
    | .sell => order.price ≤ trade.price
  resting : order.createdAt + cfg.fillModel.minRestingTimeMs ≤ cause.tsExchange

variable {rt : Runtime} {cfg : Config} {steps : List (Machine.Step Pipeline Event (List Event))}
  {s : Pipeline}

theorem fill_is_sound {xs ys : List (Machine.Step Pipeline Event (List Event))}
    {r : Machine.Step Pipeline Event (List Event)}
    (h : Machine.Run (Pipeline.process rt cfg) (Pipeline.init cfg) (xs ++ r :: ys) s)
    {fill : FillPayload} (hfill : fill ∈ fills r.output) :
    ∃ order, FillIsSound cfg (emittedOf xs) r.input fill order := by
  obtain ⟨hbefore, hstep⟩ := h.split
  obtain ⟨step⟩ := Pipeline.process_ok hstep
  rw [step.fills_out] at hfill
  obtain ⟨⟨tracked, x⟩, hreached, rfl⟩ := List.mem_map.mp hfill
  obtain ⟨hrow, -, -, trade, hbody, helig⟩ :=
    ConservativeQueueFillModel.of_mem_reachedBy hreached
  obtain ⟨hresting, htaker, hprice⟩ := ConservativeQueueFillModel.of_isEligible helig
  obtain ⟨order, horder, hid, hside, hlimit, hcreated⟩ := (tracks_run hbefore).placed tracked hrow
  refine ⟨order, horder, hid, hside, hlimit, ⟨trade, hbody, ?_, ?_⟩, ?_⟩
  · rw [hside]
    exact htaker
  · rw [hside, hlimit]
    exact hprice
  · rw [hcreated]
    exact hresting

/-- **Fill lifecycle.**  Identities are never reused; every fill is of one earlier order and was
caused by a trade that reaches it once it has rested; nothing is filled after it was canceled;
and the fills of an order add up to no more than its size. -/
theorem fill_lifecycle
    (h : Machine.Run (Pipeline.process rt cfg) (Pipeline.init cfg) steps s) :
    ((placements (emittedOf steps)).map PlacedPayload.orderId).Nodup ∧
    (∀ xs r ys, steps = xs ++ r :: ys → ∀ fill ∈ fills r.output,
      ∃ order, FillIsSound cfg (emittedOf xs) r.input fill order) ∧
    (∀ before event after, emittedOf steps = before ++ event :: after →
      ∀ fill, event.fill? = some fill → ∀ c ∈ cancels before, c.orderId ≠ fill.orderId) ∧
    ∀ order ∈ placements (emittedOf steps),
      let own := ((fills (emittedOf steps)).filter fun fill =>
        decide (fill.orderId = order.orderId)).map FillPayload.fillSize
      own = [] ∨ own.sum ≤ order.size := by
  have htracks := tracks_run h
  refine ⟨htracks.nodup_placements, ?_, ?_, ?_⟩
  · intro xs r ys hsteps fill hfill
    subst hsteps
    exact fill_is_sound h hfill
  · intro before event after hlog fill hfill
    exact htracks.not_canceled_before hlog hfill
  · intro order ho
    exact htracks.fills_le ho rfl

/-- The first bid filled whole and the second in part. -/
theorem fill_lifecycle_two_bids :
    let steps := Machine.stepsOf
      (Pipeline.exec seriesRuntime flatConfig (quoteThenSell (3 / 2000)))
    (fills (emittedOf steps)).map FillPayload.fillSize = [1 / 1000, 1 / 2000] ∧
    ((placements (emittedOf steps)).map PlacedPayload.orderId).Nodup ∧
    (∀ xs r ys, steps = xs ++ r :: ys → ∀ fill ∈ fills r.output,
      ∃ order, FillIsSound flatConfig (emittedOf xs) r.input fill order) ∧
    (∀ before event after, emittedOf steps = before ++ event :: after →
      ∀ fill, event.fill? = some fill → ∀ c ∈ cancels before, c.orderId ≠ fill.orderId) ∧
    ∀ order ∈ placements (emittedOf steps),
      let own := ((fills (emittedOf steps)).filter fun fill =>
        decide (fill.orderId = order.orderId)).map FillPayload.fillSize
      own = [] ∨ own.sum ≤ order.size :=
  ⟨by decide +kernel, fill_lifecycle (Machine.run_exec (by decide +kernel))⟩

/-! ### Order accounting -/

/-- The identities of the orders a log places. -/
def placedIds (log : List Event) : Finset String :=
  ((placements log).map PlacedPayload.orderId).toFinset

/-- The identities of the orders a log cancels. -/
def canceledIds (log : List Event) : Finset String :=
  ((cancels log).map CanceledPayload.orderId).toFinset

/-- The distinct identities of the orders a log fills. -/
def filledIds (log : List Event) : Finset String :=
  ((fills log).map FillPayload.orderId).toFinset

/-- The identities of the active orders. -/
def OrderProjector.activeIds (self : OrderProjector) : Finset String :=
  (self.active.rows.map ActiveVirtualOrder.orderId).toFinset

section Phases

variable {p : OrderProjector} {orders : Py.Table TrackedOrder.orderId} {log : List Event}
  {id : String} {phase : Life.Phase ℚ}

private theorem mem_placedIds (h : Life.Tells phase (actsOf id log)) :
    id ∈ placedIds log ↔ phase.placed = 1 := by
  unfold placedIds
  rw [List.mem_toFinset, ← List.count_pos_iff, count_placements, h.count_place]
  cases phase <;> simp [Life.Phase.placed]

private theorem mem_canceledIds (h : Life.Tells phase (actsOf id log)) :
    id ∈ canceledIds log ↔ phase.cancels = 1 := by
  unfold canceledIds
  rw [List.mem_toFinset, ← List.count_pos_iff, count_cancels, h.count_cancel]
  cases phase <;> simp [Life.Phase.cancels]

private theorem mem_filledIds (h : Life.Tells phase (actsOf id log)) :
    id ∈ filledIds log ↔ phase.HasFills := by
  rw [← h.fills_ne_nil, ← fillSizes_eq, Ne, List.map_eq_nil_iff, List.filter_eq_nil_iff]
  unfold filledIds
  rw [List.mem_toFinset, List.mem_map]
  simp

private theorem mem_activeIds (h : Stands p.active orders id phase) :
    id ∈ p.activeIds ↔ ∃ size, phase = .active size := by
  unfold OrderProjector.activeIds
  rw [List.mem_toFinset, List.mem_map]
  constructor
  · rintro ⟨o, ho, hid⟩
    exact h.of_active ho hid
  · rintro ⟨size, rfl⟩
    obtain ⟨⟨o, ho, hid, -⟩, -⟩ := h
    exact ⟨o, ho, hid⟩

end Phases

namespace Tracks

variable {p : OrderProjector} {orders : Py.Table TrackedOrder.orderId} {log : List Event}

/-- The orders placed are those canceled, those filled and those active. -/
theorem placedIds_eq (h : Tracks p orders log) :
    placedIds log = canceledIds log ∪ filledIds log ∪ p.activeIds := by
  ext id
  obtain ⟨phase, htells, hstands⟩ := h.told id
  rw [Finset.mem_union, Finset.mem_union, mem_placedIds htells, mem_canceledIds htells,
    mem_filledIds htells, mem_activeIds hstands]
  cases phase <;> simp [Life.Phase.placed, Life.Phase.cancels, Life.Phase.HasFills]

theorem disjoint_canceled_filled (h : Tracks p orders log) :
    Disjoint (canceledIds log) (filledIds log) := by
  rw [Finset.disjoint_left]
  intro id hcanceled hfilled
  obtain ⟨phase, htells, -⟩ := h.told id
  rw [mem_canceledIds htells] at hcanceled
  rw [mem_filledIds htells] at hfilled
  cases phase <;> simp_all [Life.Phase.cancels, Life.Phase.HasFills]

theorem disjoint_closed_active (h : Tracks p orders log) :
    Disjoint (canceledIds log ∪ filledIds log) p.activeIds := by
  rw [Finset.disjoint_left]
  intro id hclosed hactive
  obtain ⟨phase, htells, hstands⟩ := h.told id
  rw [Finset.mem_union, mem_canceledIds htells, mem_filledIds htells] at hclosed
  obtain ⟨size, rfl⟩ := (mem_activeIds hstands).mp hactive
  simp [Life.Phase.cancels, Life.Phase.HasFills] at hclosed

theorem card_activeIds (h : Tracks p orders log) : p.activeIds.card = p.active.rows.length := by
  have hnodup : (p.active.rows.map ActiveVirtualOrder.orderId).Nodup :=
    List.Nodup.map_on (fun a ha b hb => h.distinct a ha b hb) p.active.nodup.of_map
  unfold OrderProjector.activeIds
  rw [List.toFinset_card_of_nodup hnodup, List.length_map]

end Tracks

/-- **Order accounting.**  The orders placed so far are, without overlap, those canceled, each
of them once, those filled and those active. -/
theorem order_accounting
    (h : Machine.Run (Pipeline.process rt cfg) (Pipeline.init cfg) steps s) :
    placedIds (emittedOf steps)
      = canceledIds (emittedOf steps) ∪ filledIds (emittedOf steps) ∪ s.projector.activeIds ∧
    Disjoint (canceledIds (emittedOf steps)) (filledIds (emittedOf steps)) ∧
    Disjoint (canceledIds (emittedOf steps) ∪ filledIds (emittedOf steps)) s.projector.activeIds ∧
    ((placements (emittedOf steps)).map PlacedPayload.orderId).Nodup ∧
    ((cancels (emittedOf steps)).map CanceledPayload.orderId).Nodup ∧
    (placements (emittedOf steps)).length
      = (cancels (emittedOf steps)).length + (filledIds (emittedOf steps)).card +
        s.projector.active.rows.length := by
  have htracks := tracks_run h
  refine ⟨htracks.placedIds_eq, htracks.disjoint_canceled_filled, htracks.disjoint_closed_active,
    htracks.nodup_placements, htracks.nodup_cancels, ?_⟩
  have hcard := congrArg Finset.card htracks.placedIds_eq
  rw [Finset.card_union_of_disjoint htracks.disjoint_closed_active,
    Finset.card_union_of_disjoint htracks.disjoint_canceled_filled, htracks.card_activeIds] at hcard
  unfold placedIds canceledIds at hcard
  rw [List.toFinset_card_of_nodup htracks.nodup_placements,
    List.toFinset_card_of_nodup htracks.nodup_cancels, List.length_map, List.length_map] at hcard
  exact hcard

/-- Eight orders placed: two filled, six still active. -/
theorem order_accounting_two_bids :
    let result := Pipeline.exec seriesRuntime flatConfig (quoteThenSell (3 / 2000))
    let log := emittedOf (Machine.stepsOf result)
    (placements log).length = 8 ∧
    placedIds log = canceledIds log ∪ filledIds log ∪ result.1.projector.activeIds ∧
    Disjoint (canceledIds log) (filledIds log) ∧
    Disjoint (canceledIds log ∪ filledIds log) result.1.projector.activeIds ∧
    ((placements log).map PlacedPayload.orderId).Nodup ∧
    ((cancels log).map CanceledPayload.orderId).Nodup ∧
    (placements log).length
      = (cancels log).length + (filledIds log).card + result.1.projector.active.rows.length :=
  ⟨by decide +kernel, order_accounting (Machine.run_exec (by decide +kernel))⟩

end GhostAmm
