/-
Every order lives the life of an order.

Two stores hold the resting orders, the projector's and the fill model's, and a log
says what happened to them.  Seen from one identity this is small: `actsOf` picks the
acts on it out of the log, `Life.run` says where they lead, and `Stands` says what the
two stores then hold.  `Tracks` is that statement for every identity at once, with the
counter that keeps new identities new.

A trade fills each order it reaches once, and the moves of the projector cancel or place
one order at a time.  Both keep `Tracks`, so a call of `process` does, and so does every
run.
-/
import GhostAmm.Lib.Life
import GhostAmm.Proofs.Step
import GhostAmm.Model.Replay

namespace GhostAmm

/-! ### The acts of a log -/

/-- What an event does to the order `id`. -/
def Event.act? (id : String) (event : Event) : Option (Life.Act ℚ) :=
  match event.body with
  | .virtualOrderPlaced payload => if payload.orderId = id then some (.place payload.size) else none
  | .virtualOrderCanceled payload => if payload.orderId = id then some .cancel else none
  | .virtualFill payload => if payload.orderId = id then some (.fill payload.fillSize) else none
  | _ => none

/-- What a log does to the order `id`. -/
def actsOf (id : String) (log : List Event) : List (Life.Act ℚ) := log.filterMap (Event.act? id)

@[simp] theorem actsOf_append (id : String) (xs ys : List Event) :
    actsOf id (xs ++ ys) = actsOf id xs ++ actsOf id ys := List.filterMap_append

@[simp] theorem placements_append (xs ys : List Event) :
    placements (xs ++ ys) = placements xs ++ placements ys := List.filterMap_append

/-- An event that says nothing about virtual orders. -/
def Event.Quiet (event : Event) : Prop :=
  event.placed? = none ∧ event.canceled? = none ∧ event.fill? = none

theorem Event.Quiet.act? {event : Event} (h : event.Quiet) (id : String) :
    event.act? id = none := by
  obtain ⟨hplaced, hcanceled, hfill⟩ := h
  unfold Event.placed? at hplaced
  unfold Event.canceled? at hcanceled
  unfold Event.fill? at hfill
  unfold Event.act?
  cases hbody : event.body with
  | virtualOrderPlaced payload =>
      rw [hbody] at hplaced
      simp at hplaced
  | virtualOrderCanceled payload =>
      rw [hbody] at hcanceled
      simp at hcanceled
  | virtualFill payload =>
      rw [hbody] at hfill
      simp at hfill
  | _ => rfl

theorem actsOf_quiet {events : List Event} (h : ∀ e ∈ events, e.Quiet) (id : String) :
    actsOf id events = [] :=
  List.filterMap_eq_nil_iff.mpr fun e he => (h e he).act? id

theorem placements_quiet {events : List Event} (h : ∀ e ∈ events, e.Quiet) :
    placements events = [] :=
  List.filterMap_eq_nil_iff.mpr fun e he => (h e he).1

/-- Rows with distinct keys: at most one has the key that is asked for. -/
private theorem filterMap_key {α β : Type} (key : α → String) (f : α → β) {a : α} :
    ∀ {l : List α}, (l.map key).Nodup → a ∈ l →
    l.filterMap (fun x => if key x = key a then some (f x) else none) = [f a] := by
  intro l
  induction l with
  | nil => intro _ ha; simp at ha
  | cons x rest ih =>
      intro hnodup ha
      obtain ⟨hx, hnodup⟩ := List.nodup_cons.mp hnodup
      rw [List.filterMap_cons]
      rcases List.mem_cons.mp ha with rfl | ha
      · have hrest : rest.filterMap (fun x => if key x = key a then some (f x) else none) = [] := by
          refine List.filterMap_eq_nil_iff.mpr fun y hy => if_neg fun heq => hx ?_
          exact heq ▸ List.mem_map_of_mem hy
        rw [if_pos rfl, hrest]
      · have hne : key x ≠ key a := fun heq => hx (heq ▸ List.mem_map_of_mem ha)
        rw [if_neg hne]
        exact ih hnodup ha

private theorem filterMap_other {α β : Type} (key : α → String) (f : α → β) {id : String}
    {l : List α} (h : ∀ a ∈ l, key a ≠ id) :
    l.filterMap (fun x => if key x = id then some (f x) else none) = [] :=
  List.filterMap_eq_nil_iff.mpr fun a ha => if_neg (h a ha)

/-- The acts of fills. -/
theorem actsOf_fills (id : String) {events : List Event}
    (h : ∀ e ∈ events, ∃ payload, e.body = .virtualFill payload) :
    actsOf id events = (fills events).filterMap fun fill =>
      if fill.orderId = id then some (.fill fill.fillSize) else none := by
  induction events with
  | nil => rfl
  | cons e rest ih =>
      obtain ⟨payload, hbody⟩ := h e List.mem_cons_self
      have hfill : e.fill? = some payload := by
        unfold Event.fill?
        rw [hbody]
      have hact : e.act? id
          = if payload.orderId = id then some (.fill payload.fillSize) else none := by
        unfold Event.act?
        rw [hbody]
      unfold actsOf fills at ih ⊢
      rw [List.filterMap_cons, List.filterMap_cons, hfill, hact, List.filterMap_cons,
        ih fun e he => h e (List.mem_cons_of_mem _ he)]

/-! ### Where an order stands -/

/-- What the two stores hold of an order in a phase of its life. -/
def Stands (active : Py.Table ActiveVirtualOrder.key) (orders : Py.Table TrackedOrder.orderId)
    (id : String) : Life.Phase ℚ → Prop
  | .active size => (∃ o ∈ active.rows, o.orderId = id ∧ o.size = size) ∧
      (orders.get? id).map TrackedOrder.remainingSize = some size
  | .remainder left => (∀ o ∈ active.rows, o.orderId ≠ id) ∧
      (orders.get? id).map TrackedOrder.remainingSize = some left
  | _ => (∀ o ∈ active.rows, o.orderId ≠ id) ∧ orders.get? id = none

variable {active active' : Py.Table ActiveVirtualOrder.key}
  {orders orders' : Py.Table TrackedOrder.orderId} {id : String} {phase : Life.Phase ℚ}

/-- Stores that hold the same of an order. -/
theorem Stands.congr (hactive : ∀ o, o.orderId = id → (o ∈ active'.rows ↔ o ∈ active.rows))
    (horders : (orders'.get? id).map TrackedOrder.remainingSize
      = (orders.get? id).map TrackedOrder.remainingSize)
    (h : Stands active orders id phase) : Stands active' orders' id phase := by
  have hout : (∀ o ∈ active.rows, o.orderId ≠ id) → ∀ o ∈ active'.rows, o.orderId ≠ id :=
    fun h o ho hid => h o ((hactive o hid).mp ho) hid
  have hnone : orders.get? id = none → orders'.get? id = none := by
    intro hid
    rw [hid] at horders
    exact Option.map_eq_none_iff.mp horders
  cases phase with
  | active size =>
      obtain ⟨⟨o, ho, hid, hsize⟩, hrest⟩ := h
      exact ⟨⟨o, (hactive o hid).mpr ho, hid, hsize⟩, horders.trans hrest⟩
  | remainder left => exact ⟨hout h.1, horders.trans h.2⟩
  | unborn => exact ⟨hout h.1, hnone h.2⟩
  | filled => exact ⟨hout h.1, hnone h.2⟩
  | canceled => exact ⟨hout h.1, hnone h.2⟩

/-- An order the fill model holds can be filled, up to what is left of it. -/
theorem Stands.fill {order : TrackedOrder} {x : ℚ} (h : Stands active orders id phase)
    (hid : orders.get? id = some order) (hpos : 0 < x) (hle : x ≤ order.remainingSize) :
    Life.step dust phase (.fill x) = some (Life.settle dust (order.remainingSize - x)) := by
  cases phase with
  | active size =>
      have hsize : order.remainingSize = size := by simpa [hid] using h.2
      rw [← hsize, Life.step, if_pos ⟨hpos, hle⟩]
  | remainder left =>
      have hleft : order.remainingSize = left := by simpa [hid] using h.2
      rw [← hleft, Life.step, if_pos ⟨hpos, hle⟩]
  | unborn => exact absurd (h.2.symm.trans hid) (by simp)
  | filled => exact absurd (h.2.symm.trans hid) (by simp)
  | canceled => exact absurd (h.2.symm.trans hid) (by simp)

/-- An active order is in the active phase. -/
theorem Stands.of_active {order : ActiveVirtualOrder} (h : Stands active orders id phase)
    (ho : order ∈ active.rows) (hid : order.orderId = id) : ∃ size, phase = .active size := by
  cases phase with
  | active size => exact ⟨size, rfl⟩
  | remainder left => exact absurd hid (h.1 order ho)
  | unborn => exact absurd hid (h.1 order ho)
  | filled => exact absurd hid (h.1 order ho)
  | canceled => exact absurd hid (h.1 order ho)

/-! ### The invariant -/

/-- The two stores hold what the log says. -/
structure Tracks (p : OrderProjector) (orders : Py.Table TrackedOrder.orderId)
    (log : List Event) : Prop where
  lives : ∀ id, ∃ phase, Life.run dust .unborn (actsOf id log) = some phase ∧
    Stands p.active orders id phase
  issued : ∀ id, actsOf id log ≠ [] → ∃ ms n, id = makeOrderId ms n ∧ n ≤ p.counter
  distinct : p.DistinctIds
  /-- A tracked order is still the order that was placed. -/
  placed : ∀ t ∈ orders.rows, ∃ payload ∈ placements log, payload.orderId = t.orderId ∧
    payload.side = t.side ∧ payload.price = t.price ∧ payload.createdAt = t.createdAt

namespace Tracks

variable {p : OrderProjector} {log : List Event}

theorem init : Tracks {} Py.Table.empty [] where
  lives := fun _ => ⟨.unborn, rfl, by simp [Stands]⟩
  issued := fun _ h => absurd rfl h
  distinct := by
    intro a ha
    simp at ha
  placed := by
    intro t ht
    simp at ht

/-- Of an order nothing has happened to, nothing is held. -/
theorem not_held (h : Tracks p orders log) {id : String} (hacts : actsOf id log = []) :
    (∀ o ∈ p.active.rows, o.orderId ≠ id) ∧ orders.get? id = none := by
  obtain ⟨phase, hrun, hstands⟩ := h.lives id
  rw [hacts] at hrun
  rw [← Option.some.inj hrun] at hstands
  exact hstands

/-- An order that some events are not about stays where it is. -/
theorem lives_other (h : Tracks p orders log) {id : String} {events : List Event}
    (hacts : actsOf id events = [])
    (hactive : ∀ o, o.orderId = id → (o ∈ active'.rows ↔ o ∈ p.active.rows))
    (horders : (orders'.get? id).map TrackedOrder.remainingSize
      = (orders.get? id).map TrackedOrder.remainingSize) :
    ∃ phase, Life.run dust .unborn (actsOf id (log ++ events)) = some phase ∧
      Stands active' orders' id phase := by
  obtain ⟨phase, hrun, hstands⟩ := h.lives id
  rw [actsOf_append, hacts, List.append_nil]
  exact ⟨phase, hrun, hstands.congr hactive horders⟩

/-- A log that goes on names no identity that the counter has not given out, if its new events
do not. -/
theorem issued_append (h : Tracks p orders log) {events : List Event} {counter : ℕ}
    (hle : p.counter ≤ counter)
    (hnew : ∀ id, actsOf id log = [] → actsOf id events ≠ [] →
      ∃ ms n, id = makeOrderId ms n ∧ n ≤ counter)
    {id : String} (hne : actsOf id (log ++ events) ≠ []) :
    ∃ ms n, id = makeOrderId ms n ∧ n ≤ counter := by
  by_cases hlog : actsOf id log = []
  · rw [actsOf_append, hlog, List.nil_append] at hne
    exact hnew id hlog hne
  · obtain ⟨ms, n, hid, hn⟩ := h.issued id hlog
    exact ⟨ms, n, hid, hn.trans hle⟩

/-- An order that was placed has been placed in every longer log. -/
theorem placed_append (h : Tracks p orders log) (events : List Event) {t : TrackedOrder}
    (ht : t ∈ orders.rows) : ∃ payload ∈ placements (log ++ events),
      payload.orderId = t.orderId ∧ payload.side = t.side ∧ payload.price = t.price ∧
      payload.createdAt = t.createdAt := by
  obtain ⟨payload, hpayload, hsame⟩ := h.placed t ht
  rw [placements_append]
  exact ⟨payload, List.mem_append_left _ hpayload, hsame⟩

theorem quiet (h : Tracks p orders log) {events : List Event} (hq : ∀ e ∈ events, e.Quiet) :
    Tracks p orders (log ++ events) where
  lives := fun id => by
    rw [actsOf_append, actsOf_quiet hq, List.append_nil]
    exact h.lives id
  issued := fun id => by
    rw [actsOf_append, actsOf_quiet hq, List.append_nil]
    exact h.issued id
  distinct := h.distinct
  placed := by
    rw [placements_append, placements_quiet hq, List.append_nil]
    exact h.placed

end Tracks

/-! ### A trade -/

section Trade

variable {p : OrderProjector} {log events : List Event} {cfg : FillModelConfig}
  {m m' : ConservativeQueueFillModel} {event : Event} {fairState : FairPriceState}

open ConservativeQueueFillModel

/-- A reached order is filled once. -/
theorem acts_reached (ht : Traded cfg m event fairState m' events) {order : TrackedOrder}
    {x : ℚ} (hx : (order, x) ∈ m.reachedBy cfg event) :
    actsOf order.orderId events = [.fill x] := by
  rw [actsOf_fills _ ht.body, ht.fills, List.filterMap_map]
  exact filterMap_key (fun q : TrackedOrder × ℚ => q.1.orderId) (fun q => Life.Act.fill q.2)
    (nodup_reachedBy cfg m event) hx

/-- An order that is not reached is not filled. -/
theorem acts_dry (ht : Traded cfg m event fairState m' events)
    (hdry : ∀ q ∈ m.reachedBy cfg event, q.1.orderId ≠ id) : actsOf id events = [] := by
  rw [actsOf_fills _ ht.body, ht.fills, List.filterMap_map]
  exact filterMap_other (fun q : TrackedOrder × ℚ => q.1.orderId) (fun q => Life.Act.fill q.2) hdry

/-- The orders a trade removes from the projector. -/
private theorem mem_removeAll (hp : p.DistinctIds) (ht : Traded cfg m event fairState m' events)
    {o : ActiveVirtualOrder} : o ∈ (p.removeAll (fills events)).active.rows ↔
      o ∈ p.active.rows ∧ ∀ q ∈ m.reachedBy cfg event, o.orderId ≠ q.1.orderId := by
  rw [(OrderProjector.removeAll_spec (fills events) hp).2.2 o, ht.fills, List.forall_mem_map]
  rfl

/-- What a trade leaves of an order it does not reach. -/
private theorem get?_dry (ht : Traded cfg m event fairState m' events)
    (hdry : ∀ q ∈ m.reachedBy cfg event, q.1.orderId ≠ id) :
    (m'.orders.get? id).map TrackedOrder.remainingSize
      = (m.orders.get? id).map TrackedOrder.remainingSize := by
  cases hid : m.orders.get? id with
  | none => rw [ht.fresh id hid]
  | some order =>
      obtain ⟨hrow, rfl⟩ := Py.Table.get?_eq_some.mp hid
      obtain ⟨q, hq⟩ := ht.dry order hrow fun x hx => hdry _ hx rfl
      rw [hq]
      rfl

/-- Where a reached order stands after the trade. -/
private theorem stands_reached (hp : p.DistinctIds)
    (ht : Traded cfg m event fairState m' events) {order : TrackedOrder} {x : ℚ}
    (hx : (order, x) ∈ m.reachedBy cfg event) :
    Stands (p.removeAll (fills events)).active m'.orders order.orderId
      (Life.settle dust (order.remainingSize - x)) := by
  have hactive : ∀ o ∈ (p.removeAll (fills events)).active.rows, o.orderId ≠ order.orderId :=
    fun o ho => ((mem_removeAll hp ht).mp ho).2 _ hx
  have horder := ht.reached order x hx
  unfold Life.settle
  split
  · rename_i hdust
    rw [if_pos hdust] at horder
    exact ⟨hactive, horder⟩
  · rename_i hdust
    rw [if_neg hdust] at horder
    obtain ⟨q, hq⟩ := horder
    exact ⟨hactive, by rw [hq]; rfl⟩

/-- **A trade keeps the stores in step with the log.** -/
theorem Tracks.trade (h : Tracks p m.orders log) (ht : Traded cfg m event fairState m' events) :
    Tracks (p.removeAll (fills events)) m'.orders (log ++ events) where
  lives := fun id => by
    by_cases hreached : ∃ q ∈ m.reachedBy cfg event, q.1.orderId = id
    · obtain ⟨⟨order, x⟩, hx, rfl⟩ := hreached
      obtain ⟨phase, hrun, hstands⟩ := h.lives order.orderId
      obtain ⟨hrow, hpos, hle, -⟩ := of_mem_reachedBy hx
      have hid : m.orders.get? order.orderId = some order :=
        Py.Table.get?_eq_some.mpr ⟨hrow, rfl⟩
      rw [actsOf_append, acts_reached ht hx]
      exact ⟨_, Life.run_snoc hrun (hstands.fill hid hpos hle),
        stands_reached h.distinct ht hx⟩
    · have hdry : ∀ q ∈ m.reachedBy cfg event, q.1.orderId ≠ id :=
        fun q hq heq => hreached ⟨q, hq, heq⟩
      refine h.lives_other (acts_dry ht hdry) (fun o ho => ?_) (get?_dry ht hdry)
      rw [mem_removeAll h.distinct ht]
      exact and_iff_left fun q hq heq => hdry q hq (heq.symm.trans ho)
  issued := fun id hacts => by
    rw [(OrderProjector.removeAll_spec (fills events) h.distinct).1]
    refine h.issued_append le_rfl (fun id hnone hfilled => absurd ?_ hfilled) hacts
    refine acts_dry ht fun q hq heq => ?_
    have hrow := (of_mem_reachedBy (show (q.1, q.2) ∈ _ from hq)).1
    exact Py.Table.get?_eq_none.mp (h.not_held hnone).2 _ hrow heq
  distinct := (OrderProjector.removeAll_spec (fills events) h.distinct).2.1
  placed := fun t ht' => by
    obtain ⟨order, hrow, q, x, rfl⟩ := ht.of_mem ht'
    obtain ⟨payload, hpayload, hsame⟩ := h.placed_append events hrow
    exact ⟨payload, hpayload, hsame⟩

end Trade

/-! ### A move of the projector -/

theorem makeOrderId_injective {ms ms' : ℚ} {n n' : ℕ} (h : makeOrderId ms n = makeOrderId ms' n') :
    n = n' := by
  unfold makeOrderId at h
  exact Py.suffix_zeroPad_injective (String.ofList_injective h)

section Moves

variable {rt : Runtime} {cfg : Config} {market : Market} {nowMs : ℚ} {p : OrderProjector}
  {orders : Py.Table TrackedOrder.orderId} {book : OrderBook} {log : List Event}

/-- The counter has not given the next number out. -/
theorem Tracks.fresh (h : Tracks p orders log) (nowMs : ℚ) :
    actsOf (makeOrderId nowMs (p.counter + 1)) log = [] := by
  by_contra hne
  obtain ⟨ms, n, hid, hn⟩ := h.issued _ hne
  have := makeOrderId_injective hid
  omega

private theorem actsOf_cancelEvent (order : ActiveVirtualOrder) (reason : String) (id : String) :
    actsOf id [(p.cancelEvent rt market order nowMs reason).2]
      = if order.orderId = id then [.cancel] else [] := by
  by_cases hid : order.orderId = id <;>
    simp [actsOf, Event.act?, OrderProjector.cancelEvent, hid]

private theorem actsOf_placed {event : Event} {order : ActiveVirtualOrder}
    (hbody : event.body = .virtualOrderPlaced (OrderProjector.placedPayload order)) (id : String) :
    actsOf id [event] = if order.orderId = id then [.place order.size] else [] := by
  by_cases hid : order.orderId = id <;>
    simp [actsOf, Event.act?, hbody, OrderProjector.placedPayload, hid]

/-- With an order its key goes, and no other order. -/
private theorem mem_erase_order (h : p.DistinctIds) {order : ActiveVirtualOrder}
    (ho : order ∈ p.active.rows) (o : ActiveVirtualOrder) :
    o ∈ (p.active.erase order.key).rows ↔ o ∈ p.active.rows ∧ o.orderId ≠ order.orderId := by
  rw [Py.Table.mem_erase]
  refine and_congr_right fun hmem => not_congr ⟨fun hkey => ?_, fun hid => ?_⟩
  · rw [Py.Table.eq_of_key_eq hmem ho hkey]
  · rw [h o hmem order ho hid]

/-- **A cancel keeps the stores in step with the log.** -/
theorem Tracks.cancel (h : Tracks p orders log) {order : ActiveVirtualOrder}
    (ho : order ∈ p.active.rows) (reason : String) :
    Tracks { active := p.active.erase order.key, counter := p.counter + 1 }
      (orders.erase order.orderId)
      (log ++ [(p.cancelEvent rt market order nowMs reason).2]) := by
  have hacts : ∀ id, actsOf id [(p.cancelEvent rt market order nowMs reason).2] = _ :=
    actsOf_cancelEvent order reason
  have hrows := mem_erase_order h.distinct ho
  refine ⟨fun id => ?_, fun id hne => ?_, ?_, fun t ht => ?_⟩
  · by_cases hid : order.orderId = id
    · obtain ⟨phase, hrun, hstands⟩ := h.lives id
      obtain ⟨size, rfl⟩ := hstands.of_active ho hid
      rw [actsOf_append, hacts, if_pos hid, ← hid]
      refine ⟨.canceled, Life.run_snoc (hid ▸ hrun) rfl, ?_, Py.Table.get?_erase_self _ _⟩
      intro o hmem
      exact ((hrows o).mp hmem).2
    · refine h.lives_other ((hacts id).trans (if_neg hid)) (fun o heq => ?_) ?_
      · rw [hrows o]
        exact and_iff_left fun hsame => hid (hsame.symm.trans heq)
      · rw [Py.Table.get?_erase_ne _ (Ne.symm hid)]
  · refine h.issued_append (Nat.le_succ _) (fun id hnone hcanceled => absurd ?_ hcanceled) hne
    rw [hacts]
    exact if_neg ((h.not_held hnone).1 order ho)
  · intro a ha b hb
    exact h.distinct a ((hrows a).mp ha).1 b ((hrows b).mp hb).1
  · exact h.placed_append _ (Py.Table.mem_erase.mp ht).1

/-- An identity that is not in use may be put in. -/
theorem distinctIds_put {n : ℕ} (h : p.DistinctIds) {order : ActiveVirtualOrder}
    (hidle : ∀ o ∈ p.active.rows, o.orderId ≠ order.orderId) :
    OrderProjector.DistinctIds { active := p.active.put order, counter := n } := by
  intro a ha b hb hab
  rcases Py.Table.mem_put.mp ha with hnewa | ⟨holda, -⟩
  · rcases Py.Table.mem_put.mp hb with hnewb | ⟨holdb, -⟩
    · exact hnewa.trans hnewb.symm
    · exact absurd (hab.symm.trans (congrArg _ hnewa)) (hidle b holdb)
  · rcases Py.Table.mem_put.mp hb with hnewb | ⟨holdb, -⟩
    · exact absurd (hab.trans (congrArg _ hnewb)) (hidle a holda)
    · exact h a holda b holdb hab

/-- **A placement keeps the stores in step with the log.** -/
theorem Tracks.place (h : Tracks p orders log) {quote : Quote}
    (hfree : p.active.get? quote.key = none) {order : ActiveVirtualOrder}
    (horder : OrderProjector.orderOf cfg.execution quote nowMs (p.counter + 1) = order)
    {tracked : TrackedOrder}
    (htracked : ConservativeQueueFillModel.trackedOf cfg.fillModel
      (OrderProjector.placedPayload order) book = tracked)
    {event : Event}
    (hbody : event.body = .virtualOrderPlaced (OrderProjector.placedPayload order)) :
    Tracks { active := p.active.put order, counter := p.counter + 1 } (orders.put tracked)
      (log ++ [event]) := by
  have hnew : order.orderId = makeOrderId nowMs (p.counter + 1) := by rw [← horder]; rfl
  have hid : tracked.orderId = order.orderId := by rw [← htracked]; rfl
  have hsize : tracked.remainingSize = order.size := by rw [← htracked]; rfl
  have hkey : ∀ o ∈ p.active.rows, o.key ≠ order.key := by
    rw [← horder]
    exact Py.Table.get?_eq_none.mp hfree
  have hfresh : actsOf order.orderId log = [] := hnew ▸ h.fresh nowMs
  obtain ⟨hidle, -⟩ := h.not_held hfresh
  have hacts := actsOf_placed hbody
  have hplaced : placements [event] = [OrderProjector.placedPayload order] := by
    simp [placements, Event.placed?, hbody]
  refine ⟨fun id => ?_, fun id hne => ?_, distinctIds_put h.distinct hidle, fun t ht => ?_⟩
  · by_cases heq : order.orderId = id
    · rw [actsOf_append, hacts, if_pos heq, ← heq, hfresh]
      refine ⟨.active order.size, rfl, ⟨order, Py.Table.mem_put.mpr (Or.inl rfl), rfl, rfl⟩, ?_⟩
      rw [← hid, Py.Table.get?_put_self, ← hsize]
      rfl
    · refine h.lives_other ((hacts id).trans (if_neg heq)) (fun o ho => ?_) ?_
      · rw [Py.Table.mem_put]
        constructor
        · rintro (rfl | ⟨hmem, -⟩)
          · exact absurd ho heq
          · exact hmem
        · intro hmem
          exact Or.inr ⟨hmem, hkey o hmem⟩
      · rw [Py.Table.get?_put_ne _ (hid ▸ Ne.symm heq)]
  · refine h.issued_append (Nat.le_succ _) (fun id _ hid => ?_) hne
    have heq : order.orderId = id := by
      by_contra hother
      exact hid ((hacts id).trans (if_neg hother))
    exact ⟨nowMs, p.counter + 1, heq.symm.trans hnew, le_rfl⟩
  · rcases Py.Table.mem_put.mp ht with rfl | ⟨ht, -⟩
    · rw [placements_append, hplaced, ← htracked]
      exact ⟨_, List.mem_append_right _ List.mem_cons_self, rfl, rfl, rfl, rfl⟩
    · exact h.placed_append _ ht

/-- Any sequence of moves, with the fill model following. -/
theorem Tracks.moves {start : OrderProjector} {events : List Event}
    {m : ConservativeQueueFillModel}
    (hmoves : OrderProjector.Moves rt cfg.execution market nowMs start events p)
    (h : Tracks start m.orders log) :
    Tracks p (events.foldl (Pipeline.follow cfg.fillModel book) m).orders (log ++ events) := by
  induction hmoves with
  | refl => simpa using h
  | cancel order reason _ ho ih =>
      rw [List.foldl_append, ← List.append_assoc]
      exact Tracks.cancel ih ho reason
  | place quote _ hfree ih =>
      rw [List.foldl_append, ← List.append_assoc]
      exact Tracks.place ih hfree rfl rfl rfl

end Moves

/-! ### A call and a run -/

theorem quiet_markPriceEvents (rt : Runtime) (cfg : Config) (event : Event)
    (fairState : FairPriceState) :
    ∀ e ∈ Pipeline.markPriceEvents rt cfg event fairState, e.Quiet := by
  intro e he
  unfold Pipeline.markPriceEvents at he
  split at he
  · rw [List.mem_singleton.mp he]
    exact ⟨rfl, rfl, rfl⟩
  · simp at he

theorem body_shockEvent {rt : Runtime} {cfg : ShockConfig} {shock shock' : ShockActivator}
    {event : Event} {book : OrderBook} {fairState : FairPriceState} {shockState : ShockState}
    {shockEvent : Option Event}
    (h : shock.update rt cfg event book fairState = (shock', shockState, shockEvent)) :
    ∀ e ∈ shockEvent, ∃ payload, e.body = .forcedFlow payload := by
  have hevent : (shock.update rt cfg event book fairState).2.2 = shockEvent := by rw [h]
  intro e he
  rw [← hevent] at he
  unfold ShockActivator.update at he
  simp only at he
  split at he
  · rw [← Option.some.inj he]
    exact ⟨_, rfl⟩
  · simp at he

theorem Pipeline.IsLive.quiet {event : Event} (h : Pipeline.IsLive event) : event.Quiet := by
  unfold Event.Quiet Event.placed? Event.canceled? Event.fill?
  rcases h with ⟨payload, hbody⟩ | ⟨payload, hbody⟩ <;> rw [hbody] <;> exact ⟨rfl, rfl, rfl⟩

namespace Pipeline

variable {rt : Runtime} {cfg : Config} {s s' : Pipeline} {event : Event} {out : List Event}

theorem Processed.quiet_head (step : Processed rt cfg s event s' out) :
    ∀ e ∈ markPriceEvents rt cfg event step.fairState ++ step.shockEvent.toList, e.Quiet := by
  intro e he
  rcases List.mem_append.mp he with he | he
  · exact quiet_markPriceEvents rt cfg event _ e he
  · obtain ⟨payload, hbody⟩ := body_shockEvent step.shock e (Option.mem_toList.mp he)
    unfold Event.Quiet Event.placed? Event.canceled? Event.fill?
    rw [hbody]
    exact ⟨rfl, rfl, rfl⟩

theorem Processed.quiet_risk (step : Processed rt cfg s event s' out) :
    ∀ e ∈ [step.riskEvent], e.Quiet := by
  intro e he
  obtain ⟨payload, hbody, -⟩ := step.riskBody
  rw [List.mem_singleton.mp he]
  unfold Event.Quiet Event.placed? Event.canceled? Event.fill?
  rw [hbody]
  exact ⟨rfl, rfl, rfl⟩

/-- The orders an event fills, best first, with how much of each. -/
def reached (cfg : Config) (self : Pipeline) (event : Event) : List (TrackedOrder × ℚ) :=
  self.fillModel.reachedBy cfg.fillModel event

/-- Metadata does not change what a trade reaches, nor the fee it pays. -/
theorem reached_ingestMetadata (cfg : Config) (self : Pipeline) (event : Event)
    (fairState : FairPriceState) :
    (self.ingestMetadata cfg event).fillModel.reachedBy cfg.fillModel event
        = self.reached cfg event ∧
      (self.reached cfg event).map (fun q => fillPayload
          (self.ingestMetadata cfg event).fillModel.makerFeeBps event fairState q.1 q.2)
        = (self.reached cfg event).map fun q =>
          fillPayload self.fillModel.makerFeeBps event fairState q.1 q.2 := by
  cases hbody : event.body with
  | trade trade =>
      have hsame : self.ingestMetadata cfg event = self := by
        unfold ingestMetadata
        rw [hbody]
      rw [hsame]
      exact ⟨rfl, rfl⟩
  | _ =>
      have hnone : ∀ m : ConservativeQueueFillModel, m.reachedBy cfg.fillModel event = [] := by
        intro m
        unfold ConservativeQueueFillModel.reachedBy
        rw [hbody]
      unfold reached
      rw [hnone, hnone]
      exact ⟨rfl, rfl⟩

/-- The fills of a call are those of its trade. -/
theorem fills_fillEventsAt (rt : Runtime) (cfg : Config) (s : Pipeline) (event : Event)
    (fairState : FairPriceState) :
    GhostAmm.fills (s.fillEventsAt rt cfg event fairState) = (s.reached cfg event).map fun q =>
      fillPayload s.fillModel.makerFeeBps event fairState q.1 q.2 := by
  have htraded := ConservativeQueueFillModel.onMarketEvent_spec rt cfg.fillModel
    (s.ingestMetadata cfg event).fillModel event fairState
  obtain ⟨hreached, hfee⟩ := reached_ingestMetadata cfg s event fairState
  rw [← hfee, ← hreached]
  exact htraded.fills

theorem Processed.fills_trade (step : Processed rt cfg s event s' out) :
    GhostAmm.fills step.fillEvents = (s.reached cfg event).map fun q =>
      fillPayload s.fillModel.makerFeeBps event step.fairState q.1 q.2 := by
  obtain ⟨hreached, hfee⟩ := reached_ingestMetadata cfg s event step.fairState
  rw [step.fills.fills, hreached, hfee]

end Pipeline

@[simp] theorem fills_append (xs ys : List Event) : fills (xs ++ ys) = fills xs ++ fills ys :=
  List.filterMap_append

theorem fills_quiet {events : List Event} (h : ∀ e ∈ events, e.Quiet) : fills events = [] :=
  List.filterMap_eq_nil_iff.mpr fun e he => (h e he).2.2

/-- The projector emits no fills. -/
theorem fills_moves {rt : Runtime} {cfg : ExecutionConfig} {market : Market} {nowMs : ℚ}
    {start p : OrderProjector} {events : List Event}
    (h : OrderProjector.Moves rt cfg market nowMs start events p) : fills events = [] := by
  refine List.filterMap_eq_nil_iff.mpr fun e he => ?_
  unfold Event.fill?
  rcases h.body e he with ⟨payload, hbody⟩ | ⟨payload, hbody⟩ <;> rw [hbody]

/-- **The fills a call emits are the orders its event reaches.** -/
theorem Pipeline.Processed.fills_out {rt : Runtime} {cfg : Config} {s s' : Pipeline}
    {event : Event} {out : List Event} (step : Pipeline.Processed rt cfg s event s' out) :
    GhostAmm.fills out = (s.reached cfg event).map fun q =>
      fillPayload s.fillModel.makerFeeBps event step.fairState q.1 q.2 := by
  have hout : GhostAmm.fills out = GhostAmm.fills _ ++ GhostAmm.fills _ ++ GhostAmm.fills _ ++
      GhostAmm.fills _ ++ GhostAmm.fills _ := step.filterMap_out Event.fill?
  rw [hout, fills_quiet step.quiet_head, fills_quiet step.quiet_risk, fills_moves step.moves,
    fills_quiet fun e he => (step.liveBody e he).quiet, step.fills_trade]
  simp

/-- What a call does to an order: the trade fills it, then the projector moves it. -/
theorem Pipeline.Processed.acts_out {rt : Runtime} {cfg : Config} {s s' : Pipeline}
    {event : Event} {out : List Event} (step : Pipeline.Processed rt cfg s event s' out)
    (id : String) :
    actsOf id out = actsOf id step.fillEvents ++ actsOf id step.projectorEvents := by
  have hout : actsOf id out
      = actsOf id _ ++ actsOf id _ ++ actsOf id _ ++ actsOf id _ ++ actsOf id _ :=
    step.filterMap_out (Event.act? id)
  rw [hout, actsOf_quiet step.quiet_head, actsOf_quiet step.quiet_risk,
    actsOf_quiet fun e he => (step.liveBody e he).quiet]
  simp

/-- **A call of `process` keeps the stores in step with the log.** -/
theorem Tracks.process {rt : Runtime} {cfg : Config} {s s' : Pipeline} {event : Event}
    {out log : List Event} (h : Tracks s.projector s.fillModel.orders log)
    (hs : Pipeline.process rt cfg s event = (s', .ok out)) :
    Tracks s'.projector s'.fillModel.orders (log ++ out) := by
  obtain ⟨step⟩ := Pipeline.process_ok hs
  obtain ⟨-, -, -, -, -, horders⟩ := Pipeline.ingestMetadata_frame cfg s event
  rw [← horders] at h
  have hfilled := ((h.quiet step.quiet_head).trade step.fills).quiet step.quiet_risk
  have hmoved := (Tracks.moves step.moves hfilled : Tracks _
    (step.projectorEvents.foldl (Pipeline.follow cfg.fillModel s'.book) step.traded).orders _).quiet
    fun e he => (step.liveBody e he).quiet
  rw [step.followed]
  have hout := congrArg (log ++ ·) step.out
  simp only [List.append_assoc, List.singleton_append] at hmoved hout
  rw [hout]
  exact hmoved

/-- **In every run the stores hold what the log says.** -/
theorem tracks_run {rt : Runtime} {cfg : Config}
    {steps : List (Machine.Step Pipeline Event (List Event))} {s : Pipeline}
    (h : Machine.Run (Pipeline.process rt cfg) (Pipeline.init cfg) steps s) :
    Tracks s.projector s.fillModel.orders (emittedOf steps) := by
  induction h with
  | nil => exact Tracks.init
  | snoc _ hs ih =>
      unfold emittedOf
      rw [List.flatMap_append, List.flatMap_singleton]
      exact Tracks.process ih hs

end GhostAmm
