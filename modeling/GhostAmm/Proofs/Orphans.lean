/-
Orders the projector has forgotten.

Any fill takes an order off the projector, but only a fill of all of it takes it out of
the fill model.  What is left of a partial fill can be filled again and can no longer be
canceled or expire: an orphan.

In the life of an order an orphan is a remainder, and a remainder is what a partial fill
leaves and nothing takes away but further fills.  So a run has no orphans exactly when
every trade in it fills the orders it reaches whole.
-/
import GhostAmm.Proofs.OrderLog

namespace GhostAmm

/-- Every order that can be filled is one the projector can still cancel. -/
def NoOrphans (p : OrderProjector) (orders : Py.Table TrackedOrder.orderId) : Prop :=
  ∀ t ∈ orders.rows, ∃ o ∈ p.active.rows, o.orderId = t.orderId

instance (p : OrderProjector) (orders : Py.Table TrackedOrder.orderId) :
    Decidable (NoOrphans p orders) :=
  inferInstanceAs (Decidable (∀ t ∈ orders.rows, ∃ o ∈ p.active.rows, o.orderId = t.orderId))

/-- The event fills every order it reaches, up to dust. -/
def Pipeline.FillsWhole (cfg : Config) (self : Pipeline) (event : Event) : Prop :=
  ∀ q ∈ self.reached cfg event, q.1.remainingSize - q.2 ≤ dust

/-- An orphan is an order whose life has come to a remainder. -/
theorem Tracks.noOrphans_iff {p : OrderProjector} {orders : Py.Table TrackedOrder.orderId}
    {log : List Event} (h : Tracks p orders log) :
    NoOrphans p orders ↔
      ∀ id left, Life.run dust .unborn (actsOf id log) ≠ some (.remainder left) := by
  constructor
  · intro hno id left hrun
    obtain ⟨phase, hphase, hstands⟩ := h.lives id
    rw [hrun] at hphase
    rw [← Option.some.inj hphase] at hstands
    obtain ⟨t, ht, -⟩ := Option.map_eq_some_iff.mp hstands.2
    obtain ⟨hrow, rfl⟩ := Py.Table.get?_eq_some.mp ht
    obtain ⟨o, ho, hid⟩ := hno t hrow
    exact hstands.1 o ho hid
  · intro hno t hrow
    have ht : orders.get? t.orderId = some t := Py.Table.get?_eq_some.mpr ⟨hrow, rfl⟩
    obtain ⟨phase, hrun, hstands⟩ := h.lives t.orderId
    cases phase with
    | active size =>
        obtain ⟨⟨o, ho, hid, -⟩, -⟩ := hstands
        exact ⟨o, ho, hid⟩
    | remainder left => exact absurd hrun (hno t.orderId left)
    | unborn => exact absurd (hstands.2.symm.trans ht) (by simp)
    | filled => exact absurd (hstands.2.symm.trans ht) (by simp)
    | canceled => exact absurd (hstands.2.symm.trans ht) (by simp)

/-- The projector never fills: its moves leave a remainder a remainder. -/
theorem remainder_moves {rt : Runtime} {cfg : ExecutionConfig} {market : Market} {nowMs left : ℚ}
    {start p : OrderProjector} {events : List Event} {id : String} {phase phase' : Life.Phase ℚ}
    (hmoves : OrderProjector.Moves rt cfg market nowMs start events p)
    (hrun : Life.run dust phase (actsOf id events) = some phase') :
    phase' = .remainder left ↔ phase = .remainder left := by
  refine Life.run_without_fill (fun a ha => ?_) hrun
  have hnone : (actsOf id events).filterMap Life.Act.fill? = [] := by
    rw [← fillSizes_eq, fills_moves hmoves]
    rfl
  exact List.filterMap_eq_nil_iff.mp hnone a ha

section Call

variable {rt : Runtime} {cfg : Config} {s s' : Pipeline} {event : Event} {out log : List Event}

/-- A partial fill leaves an orphan behind. -/
private theorem orphan_of_partial (h : Tracks s.projector s.fillModel.orders log)
    (hs : Pipeline.process rt cfg s event = (s', .ok out))
    {order : TrackedOrder} {x : ℚ} (hx : (order, x) ∈ s.reached cfg event)
    (hleft : dust < order.remainingSize - x) : ¬ NoOrphans s'.projector s'.fillModel.orders := by
  obtain ⟨step⟩ := Pipeline.process_ok hs
  have hafter := h.process hs
  obtain ⟨hrow, hpos, hle, -⟩ := ConservativeQueueFillModel.of_mem_reachedBy hx
  obtain ⟨phase, hrun, hstands⟩ := h.lives order.orderId
  have hfilled := hstands.fill (Py.Table.get?_eq_some.mpr ⟨hrow, rfl⟩) hpos hle
  obtain ⟨phase', hrun', -⟩ := hafter.lives order.orderId
  rw [← (Pipeline.reached_ingestMetadata cfg s event step.fairState).1] at hx
  have hacts : actsOf order.orderId (log ++ out)
      = (actsOf order.orderId log ++ [.fill x]) ++ actsOf order.orderId step.projectorEvents := by
    rw [actsOf_append, step.acts_out, acts_reached step.fills hx, List.append_assoc]
  have hrest := hrun'
  rw [hacts, Life.run_append, Life.run_snoc hrun hfilled] at hrest
  have hsettle : Life.settle dust (order.remainingSize - x)
      = .remainder (order.remainingSize - x) := if_neg (not_le.mpr hleft)
  rw [(remainder_moves step.moves hrest).mpr hsettle] at hrun'
  intro hno
  exact hafter.noOrphans_iff.mp hno _ _ hrun'

/-- Whole fills leave no orphan where there was none. -/
private theorem noOrphans_of_whole (h : Tracks s.projector s.fillModel.orders log)
    (hs : Pipeline.process rt cfg s event = (s', .ok out))
    (hno : NoOrphans s.projector s.fillModel.orders) (hwhole : s.FillsWhole cfg event) :
    NoOrphans s'.projector s'.fillModel.orders := by
  obtain ⟨step⟩ := Pipeline.process_ok hs
  have hafter := h.process hs
  have hreached := (Pipeline.reached_ingestMetadata cfg s event step.fairState).1
  refine hafter.noOrphans_iff.mpr fun id left hend => ?_
  obtain ⟨phase, hrun, hstands⟩ := h.lives id
  have hphase : phase ≠ .remainder left := by
    intro hrem
    rw [hrem] at hrun
    exact h.noOrphans_iff.mp hno id left hrun
  rw [actsOf_append, step.acts_out, ← List.append_assoc, Life.run_append] at hend
  by_cases hfill : ∃ q ∈ s.reached cfg event, q.1.orderId = id
  · obtain ⟨⟨order, x⟩, hx, rfl⟩ := hfill
    obtain ⟨hrow, hpos, hle, -⟩ := ConservativeQueueFillModel.of_mem_reachedBy hx
    have hfilled := hstands.fill (Py.Table.get?_eq_some.mpr ⟨hrow, rfl⟩) hpos hle
    have hsettle : Life.settle dust (order.remainingSize - x) = .filled := if_pos (hwhole _ hx)
    rw [acts_reached step.fills (hreached.symm ▸ hx), Life.run_snoc hrun hfilled, hsettle] at hend
    exact absurd ((remainder_moves step.moves hend).mp rfl) (by simp)
  · have hdry : ∀ q ∈ (s.ingestMetadata cfg event).fillModel.reachedBy cfg.fillModel event,
        q.1.orderId ≠ id := fun q hq heq => hfill ⟨q, hreached ▸ hq, heq⟩
    rw [acts_dry step.fills hdry, List.append_nil, hrun] at hend
    exact hphase ((remainder_moves step.moves hend).mp rfl)

/-- **A call leaves no orphan exactly when it fills what it reaches whole.** -/
theorem noOrphans_process (h : Tracks s.projector s.fillModel.orders log)
    (hs : Pipeline.process rt cfg s event = (s', .ok out))
    (hno : NoOrphans s.projector s.fillModel.orders) :
    NoOrphans s'.projector s'.fillModel.orders ↔ s.FillsWhole cfg event := by
  refine ⟨fun hafter q hq => ?_, noOrphans_of_whole h hs hno⟩
  by_contra hleft
  exact orphan_of_partial h hs hq (not_le.mp hleft) hafter

end Call

/-- **A run has no orphans exactly when every trade in it fills what it reaches whole.** -/
theorem no_orphans_iff {rt : Runtime} {cfg : Config}
    {steps : List (Machine.Step Pipeline Event (List Event))} {s : Pipeline}
    (h : Machine.Run (Pipeline.process rt cfg) (Pipeline.init cfg) steps s) :
    (∀ r ∈ steps, NoOrphans r.after.projector r.after.fillModel.orders) ↔
      ∀ r ∈ steps, r.before.FillsWhole cfg r.input := by
  refine h.forall_iff (P := fun s => NoOrphans s.projector s.fillModel.orders) ?_ ?_ ?_
  · intro t ht
    simp [Pipeline.init, ConservativeQueueFillModel.fromConfig] at ht
  · intro _ _ _ _ _ hrun hs hno
    exact noOrphans_process (tracks_run hrun) hs hno
  · intro _ _ _ _ _ _ hno
    exact hno

/-- The second sell fills half of the first bid. -/
private theorem partialFill_run :
    Machine.Run (Pipeline.process seriesRuntime flatConfig) (Pipeline.init flatConfig)
      (Machine.stepsOf (Pipeline.exec seriesRuntime flatConfig (quoteThenSell (1 / 2000))))
      (Pipeline.exec seriesRuntime flatConfig (quoteThenSell (1 / 2000))).1 :=
  Machine.run_exec (by decide +kernel)

/-- The half that is left rests where the projector cannot reach it. -/
theorem orphan_after_partial_fill :
    ¬ ∀ (rt : Runtime) (cfg : Config) (steps : List (Machine.Step Pipeline Event (List Event)))
      (s : Pipeline), Machine.Run (Pipeline.process rt cfg) (Pipeline.init cfg) steps s →
      ∀ r ∈ steps, NoOrphans r.after.projector r.after.fillModel.orders := by
  intro h
  have hall := h _ _ _ _ partialFill_run
  revert hall
  decide +kernel

theorem no_orphans_iff_partial_fill :
    ((∀ r ∈ Machine.stepsOf (Pipeline.exec seriesRuntime flatConfig (quoteThenSell (1 / 2000))),
        NoOrphans r.after.projector r.after.fillModel.orders) ↔
      ∀ r ∈ Machine.stepsOf (Pipeline.exec seriesRuntime flatConfig (quoteThenSell (1 / 2000))),
        r.before.FillsWhole flatConfig r.input) :=
  no_orphans_iff partialFill_run

end GhostAmm
