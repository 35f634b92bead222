/-
One order in two stores.

The projector and the fill model each keep the resting orders in a map of their own, and
they part ways on purpose: a fill takes an order off the desk at once, while the fill model
goes on with what is left of it.  While an order is on the desk, though, the two agree on
all of it.

`Tracks` already says that the fill model holds an active order with its full size, and that
what the fill model holds was placed.  What is missing is that the order on the desk is the
order that was placed (`OnRecord`).  Identities are placed once, so the two placements are one.
-/
import GhostAmm.Proofs.OrderLog

namespace GhostAmm

/-- Every order on the desk was placed as it now stands there. -/
def OnRecord (p : OrderProjector) (log : List Event) : Prop :=
  ∀ o ∈ p.active.rows, OrderProjector.placedPayload o ∈ placements log

namespace OnRecord

variable {p start : OrderProjector} {log events : List Event}

theorem init : OnRecord {} [] := by
  intro o ho
  simp at ho

theorem append (h : OnRecord p log) (events : List Event) : OnRecord p (log ++ events) := by
  intro o ho
  rw [placements_append]
  exact List.mem_append_left _ (h o ho)

/-- A fill only takes orders away. -/
theorem removeAll (h : OnRecord p log) (hp : p.DistinctIds) (fills : List FillPayload) :
    OnRecord (p.removeAll fills) log := by
  intro o ho
  exact h o (((OrderProjector.removeAll_spec fills hp).2.2 o).mp ho).1

/-- A move cancels, or places an order and says so. -/
theorem moves {rt : Runtime} {cfg : ExecutionConfig} {market : Market} {nowMs : ℚ}
    (hmoves : OrderProjector.Moves rt cfg market nowMs start events p)
    (h : OnRecord start log) : OnRecord p (log ++ events) := by
  induction hmoves with
  | refl => exact h.append []
  | cancel order reason _ _ ih =>
      intro o ho
      rw [← List.append_assoc]
      exact ih.append _ o (Py.Table.mem_erase.mp ho).1
  | place quote _ _ ih =>
      intro o ho
      rw [← List.append_assoc]
      rcases Py.Table.mem_put.mp ho with rfl | ⟨hold, -⟩
      · rw [placements_append]
        exact List.mem_append_right _ List.mem_cons_self
      · exact ih.append _ o hold

end OnRecord

variable {rt : Runtime} {cfg : Config} {steps : List (Machine.Step Pipeline Event (List Event))}
  {s s' : Pipeline}

/-- **A call of `process` keeps the desk on record.** -/
theorem OnRecord.process {event : Event} {out log : List Event} (h : OnRecord s.projector log)
    (hp : s.projector.DistinctIds)
    (hs : Pipeline.process rt cfg s event = (s', .ok out)) :
    OnRecord s'.projector (log ++ out) := by
  obtain ⟨step⟩ := Pipeline.process_ok hs
  let front := Pipeline.markPriceEvents rt cfg event step.fairState ++ step.shockEvent.toList ++
    step.fillEvents ++ [step.riskEvent]
  have hmoved := (OnRecord.moves step.moves
    ((h.removeAll hp (fills step.fillEvents)).append front)).append step.live
  have hout := congrArg (log ++ ·) step.out
  simp only [front, List.append_assoc, List.singleton_append] at hmoved hout
  rw [hout]
  exact hmoved

theorem onRecord_run (h : Machine.Run (Pipeline.process rt cfg) (Pipeline.init cfg) steps s) :
    OnRecord s.projector (emittedOf steps) := by
  induction h with
  | nil => exact OnRecord.init
  | snoc hrun hs ih =>
      unfold emittedOf
      rw [List.flatMap_append, List.flatMap_singleton]
      exact ih.process (tracks_run hrun).distinct hs

/--
**What is on the desk is tracked, untouched.**  After every call of a run the fill model holds
each active order under its identity, with its side, its price, its time and its full size.
-/
theorem active_orders_tracked
    (h : Machine.Run (Pipeline.process rt cfg) (Pipeline.init cfg) steps s) :
    ∀ o ∈ s.projector.active.rows, ∃ t, s.fillModel.orders.get? o.orderId = some t ∧
      t.orderId = o.orderId ∧ t.side = o.side ∧ t.price = o.price ∧
      t.createdAt = o.createdAt ∧ t.remainingSize = o.size := by
  intro o ho
  have htracks := tracks_run h
  obtain ⟨phase, -, hstands⟩ := htracks.lives o.orderId
  obtain ⟨size, rfl⟩ := hstands.of_active ho rfl
  obtain ⟨⟨same, hsame, hid, hsize⟩, hremaining⟩ := hstands
  obtain rfl := htracks.distinct same hsame o ho hid
  obtain ⟨t, ht, hleft⟩ := Option.map_eq_some_iff.mp hremaining
  obtain ⟨hrow, htid⟩ := Py.Table.get?_eq_some.mp ht
  -- the order on the desk and the tracked one go back to the same placement
  obtain ⟨payload, hpayload, hpid, hside, hprice, hcreated⟩ := htracks.placed t hrow
  have hdesk := onRecord_run h same hsame
  obtain rfl : payload = OrderProjector.placedPayload same :=
    List.inj_on_of_nodup_map htracks.nodup_placements hpayload hdesk (hpid.trans htid)
  exact ⟨t, ht, htid, hside.symm, hprice.symm, hcreated.symm, hleft.trans hsize.symm⟩

/-- A bid is filled in part and its successor quoted: everything on the desk is tracked whole. -/
theorem active_orders_tracked_two_bids :
    let s := (Pipeline.exec seriesRuntime flatConfig (quoteThenSell (3 / 2000))).1
    s.projector.active.rows ≠ [] ∧
    ∀ o ∈ s.projector.active.rows, ∃ t, s.fillModel.orders.get? o.orderId = some t ∧
      t.orderId = o.orderId ∧ t.side = o.side ∧ t.price = o.price ∧
      t.createdAt = o.createdAt ∧ t.remainingSize = o.size :=
  ⟨by decide +kernel, active_orders_tracked (Machine.run_exec (by decide +kernel))⟩

end GhostAmm
