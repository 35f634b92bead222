/-
What a call that raises for a balance leaves of its fills.

`apply_fill` changes the balances and then looks at them, and the fill model has dropped
the filled orders before any of them is paid.  So a call that stops at some fill has
applied the fills before it everywhere, that fill to the balances and the fill model, and
the fills after it to the fill model alone, and it returns no event for any of them.

The fills of one trade are all on one side, so the base has moved whichever of them is
refused: nothing is left intact by any call that raises.
-/
import GhostAmm.Lib.Streams
import GhostAmm.Proofs.Balances

namespace GhostAmm

/-! ### One fill -/

namespace InventoryState

/-- `apply_fill` changes neither balance when it raises. -/
def RefusesCleanly (cfg : InventoryConfig) (self : InventoryState) (side : Side)
    (price amount fee : ℚ) : Prop :=
  ∀ e, (self.applyFill cfg side price amount fee).2 = .error e →
    (self.applyFill cfg side price amount fee).1 = self

theorem fill_eq_self_iff (self : InventoryState) (side : Side) (price amount fee : ℚ) :
    self.fill side price amount fee = self ↔ amount = 0 ∧ fee = 0 := by
  obtain ⟨baseQty, quoteQty⟩ := self
  unfold fill
  constructor
  · intro h
    cases side with
    | buy =>
        obtain ⟨hbase, hquote⟩ := InventoryState.mk.inj h
        have hamount : amount = 0 := by linarith
        rw [hamount] at hquote
        exact ⟨hamount, by linarith⟩
    | sell =>
        obtain ⟨hbase, hquote⟩ := InventoryState.mk.inj h
        have hamount : amount = 0 := by linarith
        rw [hamount] at hquote
        exact ⟨hamount, by linarith⟩
  · rintro ⟨rfl, rfl⟩
    cases side with
    | buy => simp
    | sell => simp

/-- A fill is refused cleanly if it is not refused, or moves nothing. -/
theorem refusesCleanly_iff (cfg : InventoryConfig) (self : InventoryState) (side : Side)
    (price amount fee : ℚ) :
    self.RefusesCleanly cfg side price amount fee ↔
      cfg.negativeBalancesAllowed = true ∨
        (self.fill side price amount fee).isNegative = false ∨ amount = 0 ∧ fee = 0 := by
  unfold RefusesCleanly applyFill
  rw [← self.fill_eq_self_iff side price]
  simp only
  by_cases hallowed : cfg.negativeBalancesAllowed = true
  · simp [hallowed]
  · by_cases hneg : (self.fill side price amount fee).isNegative = true
    · simp [hallowed, hneg]
    · simp [hallowed, hneg]

end InventoryState

/-! ### The fills of a call -/

namespace Pipeline

variable {rt : Runtime} {cfg : Config} {s s' : Pipeline} {event : Event} {out : List Event}
  {e : Py.Error}

/-- Where a call stands that has raised at the order `refused`, having paid for `paid`. -/
structure StoppedAt (rt : Runtime) (cfg : Config) (s : Pipeline) (event : Event)
    (fairState : FairPriceState) (paid : List (TrackedOrder × ℚ)) (refused : TrackedOrder × ℚ)
    (s' : Pipeline) : Prop where
  reached : ∃ rest, s.reached cfg event = paid ++ refused :: rest
  inventory : s'.inventory = (paid ++ [refused]).foldl
    (InventoryState.payOrder s.fillModel.makerFeeBps) s.inventory
  /-- Every order the event reaches is filled there. -/
  fillModel : s'.fillModel = (s.fillModel.onMarketEvent rt cfg.fillModel event fairState).1
  risk : s'.risk = (s.ingestMarket event).1.risk.recordFills cfg.risk (paid.map fun q =>
    fillPayload s.fillModel.makerFeeBps event fairState q.1 q.2)
  projector : s'.projector = s.projector.removeAll (paid.map fun q =>
    fillPayload s.fillModel.makerFeeBps event fairState q.1 q.2)

/-- Only a trade reaches orders. -/
theorem ingestMetadata_of_reached (h : s.reached cfg event ≠ []) :
    s.ingestMetadata cfg event = s := by
  unfold reached ConservativeQueueFillModel.reachedBy at h
  unfold ingestMetadata
  cases hbody : event.body with
  | trade trade => rfl
  | _ => simp [hbody] at h

/-- **A call that raises has not come to the balances, or has stopped at one of the orders.** -/
theorem process_stopped (h : process rt cfg s event = (s', .error e)) :
    (OfMarketData e ∧ s'.inventory = s.inventory) ∨ e = InventoryState.negativeBalances ∧
      ∃ fairState paid refused, StoppedAt rt cfg s event fairState paid refused s' := by
  have hframe := onMarket_eq cfg s event
  have hcourse := process_course rt cfg s event
  rw [h] at hcourse
  cases hcourse with
  | book h =>
      rw [hframe]
      exact Or.inl ⟨applyEvent_error h, rfl⟩
  | fair h =>
      rw [hframe]
      exact Or.inl ⟨fromMarketEvent_error h, rfl⟩
  | @stopped fairState _ _ hfair happly =>
      obtain ⟨he, settled, fill, rest, hfills, rfl⟩ := applyFills_error happly
      rw [fills_fillEventsAt] at hfills
      obtain ⟨paid, others, hsplit, rfl, hothers⟩ := List.map_eq_append_iff.mp hfills
      obtain ⟨refused, rest, rfl, rfl, rfl⟩ := List.map_eq_cons_iff.mp hothers
      have hsame : s.ingestMetadata cfg event = s :=
        ingestMetadata_of_reached (by rw [hsplit]; simp)
      refine Or.inr ⟨he, fairState, paid, refused, ⟨rest, hsplit⟩, ?_, ?_, ?_, rfl⟩
      · rw [List.foldl_append, ← @foldl_fills event _ _ fairState paid]
        rfl
      · show ((s.ingestMetadata cfg event).fillModel.onMarketEvent rt cfg.fillModel event
          fairState).1 = _
        rw [hsame]
      · show RiskKernel.recordFills cfg.risk (s.onMarket cfg event).risk _ = _
        unfold onMarket
        rw [hsame]

/-! ### What a refused fill has moved -/

/-- Orders on one side move the base by their sizes. -/
theorem baseQty_foldl_payOrder (makerFeeBps : ℚ) (side : Side) (orders : List (TrackedOrder × ℚ)) :
    ∀ inventory : InventoryState, (∀ q ∈ orders, q.1.side = side) →
    (orders.foldl (InventoryState.payOrder makerFeeBps) inventory).baseQty =
      match side with
      | .buy => inventory.baseQty + (orders.map Prod.snd).sum
      | .sell => inventory.baseQty - (orders.map Prod.snd).sum := by
  induction orders with
  | nil =>
      intro inventory _
      cases side with
      | buy => simp
      | sell => simp
  | cons q rest ih =>
      intro inventory hside
      rw [List.forall_mem_cons] at hside
      rw [List.foldl_cons, ih _ hside.2, List.map_cons, List.sum_cons]
      unfold InventoryState.payOrder InventoryState.fill
      rw [hside.1]
      cases side with
      | buy => exact add_assoc _ _ _
      | sell => exact sub_sub _ _ _

/-- The fills of a call are on one side, so none that is refused leaves the base as it was. -/
theorem StoppedAt.inventory_ne {fairState : FairPriceState} {paid : List (TrackedOrder × ℚ)}
    {refused : TrackedOrder × ℚ} (h : StoppedAt rt cfg s event fairState paid refused s') :
    s'.inventory ≠ s.inventory := by
  intro hsame
  obtain ⟨rest, hreached⟩ := h.reached
  obtain ⟨side, hside⟩ := s.reached_one_side cfg event
  have hmem : ∀ q ∈ paid ++ [refused], q ∈ s.reached cfg event := by
    intro q hq
    rw [hreached, List.append_cons]
    exact List.mem_append_left _ hq
  have hmoved := baseQty_foldl_payOrder s.fillModel.makerFeeBps side (paid ++ [refused])
    s.inventory fun q hq => hside q (hmem q hq)
  rw [← h.inventory, hsame] at hmoved
  have hpos : 0 < ((paid ++ [refused]).map Prod.snd).sum := by
    refine List.sum_pos _ (fun x hx => ?_) (by simp)
    obtain ⟨q, hq, rfl⟩ := List.mem_map.mp hx
    exact (ConservativeQueueFillModel.of_mem_reachedBy
      (show (q.1, q.2) ∈ _ from hmem q hq)).2.1
  cases side with
  | buy =>
      simp only at hmoved
      linarith
  | sell =>
      simp only at hmoved
      linarith

/-! ### One call -/

/-- The call can pay for what its event reaches, or does not come to it. -/
def Payable (cfg : Config) (self : Pipeline) (event : Event) : Prop :=
  cfg.inventory.negativeBalancesAllowed = true ∨ self.Affordable cfg event ∨
    (self.fairOutcome cfg event).isOk = false

instance : Decidable (s.Affordable cfg event) :=
  inferInstanceAs (Decidable (∀ b ∈ s.balancesReached cfg event, b.isNegative = false))

instance : Decidable (s.Payable cfg event) := inferInstanceAs (Decidable (_ ∨ _ ∨ _))

/-- `process` raises because a fill would make a balance negative. -/
def Rejects (rt : Runtime) (cfg : Config) (self : Pipeline) (event : Event) : Prop :=
  (process rt cfg self event).2 = .error InventoryState.negativeBalances

theorem rejects_iff : s.Rejects rt cfg event ↔ ¬ s.Payable cfg event := by
  unfold Rejects Payable
  rw [process_raises_iff, not_or, not_or, Bool.not_eq_true, Bool.not_eq_false]

/-- What a call returns; an exception returns nothing. -/
def emitted : Except Py.Error (List Event) → List Event
  | .ok out => out
  | .error _ => []

/-- The balances after a call that is refused no fill. -/
theorem inventory_process (h : s.Payable cfg event) :
    (process rt cfg s event).1.inventory
      = (GhostAmm.fills (emitted (process rt cfg s event).2)).foldl InventoryState.pay
          s.inventory := by
  have haccepted : ¬ s.Rejects rt cfg event := fun hrejects => rejects_iff.mp hrejects h
  unfold Rejects at haccepted
  generalize hresult : process rt cfg s event = result at haccepted
  obtain ⟨s', outcome⟩ := result
  cases outcome with
  | ok out =>
      obtain ⟨step⟩ := process_ok hresult
      exact step.inventory_out
  | error e =>
      rcases process_stopped hresult with ⟨-, hsame⟩ | ⟨he, -⟩
      · exact hsame
      · exact absurd (congrArg Except.error he) haccepted

/-- A call that is refused a fill has moved the balances. -/
theorem Rejects.inventory_ne (h : s.Rejects rt cfg event) :
    (process rt cfg s event).1.inventory ≠ s.inventory := by
  unfold Rejects at h
  generalize hresult : process rt cfg s event = result at h
  obtain ⟨s', outcome⟩ := result
  obtain rfl : outcome = .error InventoryState.negativeBalances := h
  rcases process_stopped hresult with ⟨hmarket, -⟩ | ⟨-, fairState, paid, refused, hstopped⟩
  · exact absurd rfl hmarket.ne_negativeBalances
  · exact hstopped.inventory_ne

/-! ### One call after another -/

/-- A call in a run that goes on after exceptions, and what has been returned so far. -/
def callOn (rt : Runtime) (cfg : Config) (sofar : Pipeline × List Event) (event : Event) :
    Pipeline × List Event :=
  ((process rt cfg sofar.1 event).1, sofar.2 ++ emitted (process rt cfg sofar.1 event).2)

/-- What the calls on some events have returned. -/
def returned (rt : Runtime) (cfg : Config) (events : List Event) : List Event :=
  (events.foldl (callOn rt cfg) (init cfg, [])).2

theorem returned_concat (rt : Runtime) (cfg : Config) (events : List Event) (event : Event) :
    returned rt cfg (events ++ [event])
      = returned rt cfg events ++ emitted (process rt cfg (after rt cfg events) event).2 := by
  have hstate : ∀ events,
      (events.foldl (callOn rt cfg) (init cfg, [])).1 = after rt cfg events := by
    intro events
    induction events using List.reverseRecOn with
    | nil => rfl
    | append_singleton events event ih =>
        rw [List.foldl_append, List.foldl_cons, List.foldl_nil, after_concat, ← ih]
        rfl
  unfold returned
  rw [List.foldl_append, List.foldl_cons, List.foldl_nil, ← hstate]
  rfl

/-- The balances at the end of what has been returned. -/
def balancesOf (cfg : Config) (log : List Event) : InventoryState :=
  (fills log).foldl InventoryState.pay (init cfg).inventory

/-- A call that is refused a fill leaves no trace of its fills; `log` has been returned so far. -/
structure Intact (rt : Runtime) (cfg : Config) (s : Pipeline) (log : List Event)
    (event : Event) : Prop where
  balances : (process rt cfg s event).1.inventory = balancesOf cfg log
  inventory : (process rt cfg s event).1.inventory = s.inventory
  fillModel : (process rt cfg s event).1.fillModel = s.fillModel
  risk : (process rt cfg s event).1.risk = (s.ingestMarket event).1.risk
  projector : (process rt cfg s event).1.projector = s.projector

/-- **As long as every call can pay for what it reaches, the balances are those of what has been
returned.**  A single call that cannot breaks it. -/
theorem payable_of_balances {events : List Event}
    (h : Past.Each (fun past event => (after rt cfg past).Rejects rt cfg event →
      (process rt cfg (after rt cfg past) event).1.inventory
        = balancesOf cfg (returned rt cfg past)) events) :
    Past.Each (fun past event => (after rt cfg past).Payable cfg event) events ∧
      (after rt cfg events).inventory = balancesOf cfg (returned rt cfg events) := by
  induction events using List.reverseRecOn with
  | nil => exact ⟨Past.each_nil, rfl⟩
  | append_singleton events event ih =>
      rw [Past.each_concat] at h ⊢
      obtain ⟨hpayable, hbalances⟩ := ih h.1
      have hlast : (after rt cfg events).Payable cfg event := by
        by_contra hnot
        have hrejects : (after rt cfg events).Rejects rt cfg event := rejects_iff.mpr hnot
        exact hrejects.inventory_ne ((h.2 hrejects).trans hbalances.symm)
      refine ⟨⟨hpayable, hlast⟩, ?_⟩
      rw [after_concat, returned_concat, inventory_process hlast, hbalances]
      unfold balancesOf
      rw [fills_append, List.foldl_append]

/-- A call leaves the state intact exactly when it is refused no fill. -/
theorem intact_iff {log : List Event} :
    (s.Rejects rt cfg event → s.Intact rt cfg log event) ↔ s.Payable cfg event := by
  constructor
  · intro h
    by_contra hnot
    have hrejects : s.Rejects rt cfg event := rejects_iff.mpr hnot
    exact hrejects.inventory_ne (h hrejects).inventory
  · intro hpayable hrejects
    exact absurd hpayable (rejects_iff.mp hrejects)

end Pipeline

/--
**A rejected fill leaves the state intact exactly when no fill is rejected.**  One fill is
refused without a change only if it moves nothing.  A call from any state leaves it intact
exactly when it can pay for the orders it reaches.  In a run that goes on after exceptions, the
balances of the calls that are refused a fill are those of what has been returned exactly when
there are no such calls, and then the balances are those of what has been returned throughout.
-/
theorem rejected_fills_iff (rt : Runtime) (cfg : Config) :
    (∀ (inventory : InventoryState) (side : Side) (price amount fee : ℚ),
      inventory.RefusesCleanly cfg.inventory side price amount fee ↔
        cfg.inventory.negativeBalancesAllowed = true ∨
          (inventory.fill side price amount fee).isNegative = false ∨ amount = 0 ∧ fee = 0) ∧
    (∀ (s : Pipeline) (log : List Event) (event : Event),
      (s.Rejects rt cfg event → s.Intact rt cfg log event) ↔ s.Payable cfg event) ∧
    ∀ events : List Event,
      (Past.Each (fun past event => (Pipeline.after rt cfg past).Rejects rt cfg event →
          (Pipeline.process rt cfg (Pipeline.after rt cfg past) event).1.inventory
            = Pipeline.balancesOf cfg (Pipeline.returned rt cfg past)) events ↔
        Past.Each (fun past event => (Pipeline.after rt cfg past).Payable cfg event) events) ∧
      (Past.Each (fun past event => (Pipeline.after rt cfg past).Payable cfg event) events →
        (Pipeline.after rt cfg events).inventory
          = Pipeline.balancesOf cfg (Pipeline.returned rt cfg events)) := by
  refine ⟨InventoryState.refusesCleanly_iff cfg.inventory, fun s log event =>
    Pipeline.intact_iff, fun events => ?_⟩
  have hvacuous : Past.Each (fun past event => (Pipeline.after rt cfg past).Payable cfg event)
      events → Past.Each (fun past event => (Pipeline.after rt cfg past).Rejects rt cfg event →
        (Pipeline.process rt cfg (Pipeline.after rt cfg past) event).1.inventory
          = Pipeline.balancesOf cfg (Pipeline.returned rt cfg past)) events := fun h =>
    h.imp fun _ _ hpayable hrejects => absurd hpayable (Pipeline.rejects_iff.mp hrejects)
  exact ⟨⟨fun h => (Pipeline.payable_of_balances h).1, hvacuous⟩,
    fun h => (Pipeline.payable_of_balances (hvacuous h)).2⟩

/-- Two bids that rest at once, of which the balances allow one. -/
private def scarceConfig : Config :=
  { flatConfig with amm := { flatConfig.amm with
      baseOrderSize := 28 / 1000, maxOrderSize := 14 / 1000 } }

/-- A sell that meets both bids is refused, and the balances have moved all the same. -/
theorem rejected_fill_stays_applied :
    ¬ ∀ (rt : Runtime) (cfg : Config) (events : List Event),
      Past.Each (fun past event => (Pipeline.after rt cfg past).Rejects rt cfg event →
        (Pipeline.after rt cfg past).Intact rt cfg (Pipeline.returned rt cfg past) event)
        events := by
  intro h
  have hintact := h seriesRuntime scarceConfig (quoteThenSell (28 / 1000))
    ((quoteThenSell (28 / 1000)).take 3) (sellEvent 1000 10000000 (28 / 1000)) [] rfl
    (by unfold Pipeline.Rejects; decide +kernel)
  have hbalances := hintact.balances
  revert hbalances
  decide +kernel

/-- A sell that meets six small bids is paid for, and the balances are those returned. -/
theorem rejected_fills_small :
    (Pipeline.after seriesRuntime flatConfig (quoteThenSell (6 / 1000))).inventory
      = Pipeline.balancesOf flatConfig
        (Pipeline.returned seriesRuntime flatConfig (quoteThenSell (6 / 1000))) :=
  ((rejected_fills_iff seriesRuntime flatConfig).2.2 _).2 (by decide +kernel)

end GhostAmm
