/-
What the fill rate counts.

`fill_rate` is the number of fills for each order placed, and an order that is filled in parts
is counted once for every part.  Its first fill takes an order off the desk, while the rest of
it stays in the fill model, so a later part is one that reaches an order which is not active
any more.  Where no event does, every fill is that of another order, and as an order is placed
before it is filled the fills are no more than the orders (`fill_rate_le_one`).
-/
import GhostAmm.Proofs.Horizons
import GhostAmm.Proofs.OrderLog

namespace GhostAmm

/-- The event reaches only orders that no fill has taken off the desk yet. -/
def Pipeline.ReachesActive (cfg : Config) (self : Pipeline) (event : Event) : Prop :=
  ∀ q ∈ self.reached cfg event, q.1.orderId ∈ self.projector.activeIds

instance (cfg : Config) (self : Pipeline) (event : Event) :
    Decidable (self.ReachesActive cfg event) :=
  inferInstanceAs (Decidable (∀ q ∈ self.reached cfg event, _))

section Runs

variable {rt : Runtime} {cfg : Config} {steps : List (Machine.Step Pipeline Event (List Event))}
  {s : Pipeline}

/-! ### One fill an order -/

/-- Where only active orders are reached, no order is filled twice. -/
theorem nodup_fills (h : Machine.Run (Pipeline.process rt cfg) (Pipeline.init cfg) steps s)
    (honce : ∀ r ∈ steps, r.before.ReachesActive cfg r.input) :
    ((fills (emittedOf steps)).map FillPayload.orderId).Nodup := by
  induction h with
  | nil => simp [emittedOf, fills]
  | @snoc steps s s' event out hrun hs ih =>
      obtain ⟨step⟩ := Pipeline.process_ok hs
      have hreaches : s.ReachesActive cfg event := honce ⟨s, event, out, s'⟩ (by simp)
      have hids : (fills out).map FillPayload.orderId
          = (s.reached cfg event).map fun q => q.1.orderId := by
        rw [step.fills_out, List.map_map]
        rfl
      unfold emittedOf at ih ⊢
      rw [List.flatMap_append, List.flatMap_singleton, fills_append, List.map_append, hids,
        List.nodup_append]
      refine ⟨ih fun r hr => honce r (List.mem_append_left _ hr),
        ConservativeQueueFillModel.nodup_reachedBy _ _ _, ?_⟩
      -- an active order has not been filled
      intro id hfilled other hreached hsame
      obtain ⟨q, hq, rfl⟩ := List.mem_map.mp hreached
      have hactive := hreaches q hq
      rw [← hsame] at hactive
      have hdisjoint := Finset.disjoint_left.mp (tracks_run hrun).disjoint_closed_active
      exact hdisjoint (Finset.mem_union_right _ (List.mem_toFinset.mpr hfilled)) hactive

/-- Where no order is filled twice, there are no more fills than orders. -/
theorem length_fills_le (h : Machine.Run (Pipeline.process rt cfg) (Pipeline.init cfg) steps s)
    (honce : ∀ r ∈ steps, r.before.ReachesActive cfg r.input) :
    (fills (emittedOf steps)).length ≤ (placements (emittedOf steps)).length := by
  have hsubset : filledIds (emittedOf steps) ⊆ placedIds (emittedOf steps) := by
    rw [(tracks_run h).placedIds_eq]
    exact Finset.subset_union_right.trans Finset.subset_union_left
  calc (fills (emittedOf steps)).length
      = (filledIds (emittedOf steps)).card := by
        unfold filledIds
        rw [List.toFinset_card_of_nodup (nodup_fills h honce), List.length_map]
    _ ≤ (placedIds (emittedOf steps)).card := Finset.card_le_card hsubset
    _ ≤ (placements (emittedOf steps)).length := by
        unfold placedIds
        exact (List.toFinset_card_le _).trans_eq (List.length_map _)

/-! ### The log -/

/-- What is counted in a log was fed in or emitted. -/
theorem length_filterMap_logOf {β : Type} (f : Event → Option β)
    (steps : List (Machine.Step Pipeline Event (List Event))) :
    ((logOf steps).filterMap f).length
      = ((steps.map Machine.Step.input).filterMap f).length
        + ((emittedOf steps).filterMap f).length := by
  have hcons : ∀ (e : Event) (l : List Event),
      ((e :: l).filterMap f).length = (f e).toList.length + (l.filterMap f).length := by
    intro e l
    cases hfe : f e with
    | none => simp [hfe]
    | some value =>
        simp [hfe]
        omega
  induction steps with
  | nil => rfl
  | cons r rest ih =>
      unfold logOf emittedOf at ih ⊢
      rw [List.flatMap_cons, List.flatMap_cons, List.map_cons, List.filterMap_append,
        List.filterMap_append, List.length_append, List.length_append, ih, hcons, hcons]
      omega

/-- The enrichment changes no count. -/
theorem length_filterMap_enrichFairAfter {β : Type} (f : Event → Option β)
    (hf : ∀ points e, (f (enrichEvent points e)).isSome = (f e).isSome) (log : List Event) :
    ((enrichFairAfter log).filterMap f).length = (log.filterMap f).length := by
  unfold enrichFairAfter
  dsimp only
  split
  · rfl
  · rw [List.length_filterMap_eq_countP, List.length_filterMap_eq_countP, List.countP_map]
    refine List.countP_congr fun e _ => ?_
    show (f (enrichEvent _ e)).isSome = true ↔ _
    rw [hf]

theorem length_fills_report (steps : List (Machine.Step Pipeline Event (List Event))) :
    (fills (enrichFairAfter (logOf steps))).length
      = (fills (steps.map Machine.Step.input)).length + (fills (emittedOf steps)).length := by
  unfold fills
  rw [length_filterMap_enrichFairAfter, length_filterMap_logOf]
  intro points e
  rw [fill?_enrichEvent, Option.isSome_map]

theorem length_placements_report (steps : List (Machine.Step Pipeline Event (List Event))) :
    (placements (enrichFairAfter (logOf steps))).length
      = (placements (steps.map Machine.Step.input)).length
        + (placements (emittedOf steps)).length := by
  unfold placements
  rw [length_filterMap_enrichFairAfter, length_filterMap_logOf]
  intro points e
  unfold enrichEvent Event.placed?
  cases hbody : e.body <;> simp [hbody]

/-- The rate is the fills for each order, zero without orders. -/
theorem fillRate_summarize (events : List Event) (initialBase initialQuote : ℚ)
    (lastFair : Option ℚ) :
    let summary := summarize events initialBase initialQuote lastFair
    summary.fillRate = ((fills events).length : ℚ) / (placements events).length ∧
      summary.fillPerPlacedOrder = summary.fillRate := by
  refine ⟨?_, rfl⟩
  show (if (placements events).length = 0 then (0 : ℚ) else _) = _
  by_cases hnone : (placements events).length = 0
  · rw [if_pos hnone, hnone, Nat.cast_zero, div_zero]
  · rw [if_neg hnone]

/--
**The fill rate is a rate where no order is filled in parts.**  It counts the fills for each
order placed, and is never negative.  It is at most one when the events of the run reach only
orders that have not been filled yet, and the recording holds no more fills than orders of its
own.
-/
theorem fill_rate_le_one
    (h : Machine.Run (Pipeline.process rt cfg) (Pipeline.init cfg) steps s)
    (initialBase initialQuote : ℚ) (lastFair : Option ℚ) :
    let log := enrichFairAfter (logOf steps)
    let summary := summarize log initialBase initialQuote lastFair
    summary.fillPerPlacedOrder = summary.fillRate ∧
    summary.fillRate = ((fills log).length : ℚ) / (placements log).length ∧
    0 ≤ summary.fillRate ∧
    ((∀ r ∈ steps, r.before.ReachesActive cfg r.input) →
      (fills (steps.map Machine.Step.input)).length
        ≤ (placements (steps.map Machine.Step.input)).length →
      summary.fillRate ≤ 1) := by
  intro log summary
  obtain ⟨hrate, hsame⟩ := fillRate_summarize log initialBase initialQuote lastFair
  refine ⟨hsame, hrate, ?_, fun honce hsource => ?_⟩
  · rw [hrate]
    positivity
  · have hcount : (fills log).length ≤ (placements log).length := by
      rw [length_fills_report, length_placements_report]
      exact Nat.add_le_add hsource (length_fills_le h honce)
    rw [hrate]
    apply div_le_one_of_le₀
    · exact_mod_cast hcount
    · positivity

end Runs

/-- One bid of a thousandth of a coin, quoted flat. -/
def oneLevelConfig : Config := { flatConfig with amm := { flatConfig.amm with levels := 1 } }

/-- A pair, a book, a sell that brings the bid out and some sells of a tenth of it. -/
def nibble (times : ℕ) : List Event :=
  [pairSpecEvent 1000, snapshotEvent 1000 1 10000000 10000002, sellEvent 1000 10000000 (1 / 10)] ++
    List.replicate times (sellEvent 1000 10000000 (1 / 10000))

/-- One part of the bid. -/
theorem fill_rate_le_one_nibble :
    let log := enrichFairAfter (logOf (Machine.stepsOf
      (Pipeline.exec seriesRuntime oneLevelConfig (nibble 1))))
    0 ≤ (summarize log (1 / 100) 150000 none).fillRate ∧
      (summarize log (1 / 100) 150000 none).fillRate ≤ 1 := by
  have hrun : Machine.Run (Pipeline.process seriesRuntime oneLevelConfig)
      (Pipeline.init oneLevelConfig)
      (Machine.stepsOf (Pipeline.exec seriesRuntime oneLevelConfig (nibble 1)))
      (Pipeline.exec seriesRuntime oneLevelConfig (nibble 1)).1 :=
    Machine.run_exec (by decide +kernel)
  obtain ⟨-, -, hnonneg, hle⟩ := fill_rate_le_one hrun (1 / 100) 150000 none
  exact ⟨hnonneg, hle (by decide +kernel) (by decide +kernel)⟩

/-- Three parts of one bid, and two orders. -/
theorem fill_rate_above_one :
    ¬ ∀ (rt : Runtime) (cfg : Config) (steps : List (Machine.Step Pipeline Event (List Event)))
      (s : Pipeline) (initialBase initialQuote : ℚ) (lastFair : Option ℚ),
      Machine.Run (Pipeline.process rt cfg) (Pipeline.init cfg) steps s →
      let summary := summarize (enrichFairAfter (logOf steps)) initialBase initialQuote lastFair
      (0 ≤ summary.fillRate ∧ summary.fillRate ≤ 1) ∧
        0 ≤ summary.fillPerPlacedOrder ∧ summary.fillPerPlacedOrder ≤ 1 := by
  intro h
  have hrate := (h seriesRuntime oneLevelConfig _ _ (1 / 100) 150000 none
    (@Machine.run_exec _ _ _ _ _ _ (nibble 3) (by decide +kernel))).1.2
  revert hrate
  decide +kernel

end GhostAmm
