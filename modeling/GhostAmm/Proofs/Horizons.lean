/-
The prices after a fill.

`enrich_fair_after` gathers the prices of the whole log and gives each fill the first of them
that is far enough ahead in time, or the last one of all when none is.  So a fill near the end
of a recording is given a price from before its horizon, and where the time stamps step back
it may be given one from before the fill itself.  The price is one from after the fill, and
late enough, exactly when such a price exists and the first price of the log that is late
enough is no other (`measures_horizons_iff`).
-/
import GhostAmm.Lib.Streams
import GhostAmm.Proofs.Pnl

namespace GhostAmm

/-- The fields `enrich_fair_after` fills in, by their horizons. -/
def FillPayload.horizons (fill : FillPayload) : List (ℚ × Option ℚ) :=
  [(1000, fill.fairAfter1s), (5000, fill.fairAfter5s), (30000, fill.fairAfter30s)]

/-- An event less what `enrich_fair_after` fills in. -/
def Event.blank (e : Event) : Event :=
  match e.body with
  | .virtualFill payload =>
      { e with body := .virtualFill { payload with
          fairAfter1s := none, fairAfter5s := none, fairAfter30s := none } }
  | _ => e

/-- A value for a time: a later price that is late enough, or nothing when there is none. -/
def Measured (later : List Event) (target : ℚ) : Option ℚ → Prop
  | some fair => ∃ point ∈ fairPoints later, target ≤ point.1 ∧ point.2 = fair
  | none => ∀ point ∈ fairPoints later, point.1 < target

instance (later : List Event) (target : ℚ) : ∀ value, Decidable (Measured later target value)
  | some fair =>
      inferInstanceAs (Decidable (∃ point ∈ fairPoints later, target ≤ point.1 ∧ point.2 = fair))
  | none => inferInstanceAs (Decidable (∀ point ∈ fairPoints later, point.1 < target))

/-- Every fill of a log is given the prices its horizons stand for. -/
def MeasuresHorizons (log : List Event) : Prop :=
  Ahead.Each (fun e later => ∀ fill ∈ e.fill?.toList, ∀ q ∈ fill.horizons,
    Measured later (e.tsExchange + q.1) q.2) log

instance (log : List Event) : Decidable (MeasuresHorizons log) :=
  inferInstanceAs (Decidable (Ahead.Each _ log))

/-- The first price at or past a time is that of a later event at or past it. -/
def Reaches (points : List (ℚ × ℚ)) (later : List Event) (target : ℚ) : Prop :=
  ∃ first ∈ points.find? fun p => decide (target ≤ p.1),
    ∃ point ∈ fairPoints later, target ≤ point.1 ∧ point.2 = first.2

instance (points : List (ℚ × ℚ)) (later : List Event) (target : ℚ) :
    Decidable (Reaches points later target) :=
  inferInstanceAs (Decidable (∃ first ∈ points.find? fun p => decide (target ≤ p.1),
    ∃ point ∈ fairPoints later, target ≤ point.1 ∧ point.2 = first.2))

/-- The log has no price, or one of the right kind for each fill and horizon. -/
def HorizonsReached (log : List Event) : Prop :=
  fairPoints log = [] ∨
    Ahead.Each (fun e later => e.fill?.isSome = true → ∀ horizon ∈ [(1000 : ℚ), 5000, 30000],
      Reaches (fairPoints log) later (e.tsExchange + horizon)) log

instance (log : List Event) : Decidable (HorizonsReached log) :=
  inferInstanceAs (Decidable (_ ∨ _))

variable {points : List (ℚ × ℚ)} {log later : List Event} {target : ℚ}

/-! ### What stays -/

theorem blank_enrichEvent (points : List (ℚ × ℚ)) (e : Event) :
    (enrichEvent points e).blank = e.blank := by
  unfold enrichEvent Event.blank
  cases hbody : e.body with
  | virtualFill payload => rfl
  | _ => simp only [hbody]

/-- Nothing but the prices after the fills is written. -/
theorem blank_enrichFairAfter (log : List Event) :
    (enrichFairAfter log).map Event.blank = log.map Event.blank := by
  unfold enrichFairAfter
  dsimp only
  split
  · rfl
  · rw [List.map_map]
    exact List.map_congr_left fun e _ => blank_enrichEvent _ e

theorem tsExchange_enrichEvent (points : List (ℚ × ℚ)) (e : Event) :
    (enrichEvent points e).tsExchange = e.tsExchange := by
  unfold enrichEvent
  cases e.body <;> rfl

theorem fairPoints_enrich (points : List (ℚ × ℚ)) (log : List Event) :
    fairPoints (log.map (enrichEvent points)) = fairPoints log := by
  unfold fairPoints
  rw [List.filterMap_map]
  refine List.filterMap_congr fun e _ => ?_
  show (enrichEvent points e).markFair?.map _ = _
  rw [markFair?_enrichEvent, tsExchange_enrichEvent]

theorem fairPoints_append (before after : List Event) :
    fairPoints (before ++ after) = fairPoints before ++ fairPoints after := List.filterMap_append

/-- The prices that come after an entry are among those of the log. -/
theorem mem_fairPoints_after {before after : List Event} {e : Event} {point : ℚ × ℚ}
    (h : point ∈ fairPoints after) : point ∈ fairPoints (before ++ e :: after) := by
  rw [List.append_cons, fairPoints_append]
  exact List.mem_append_right _ h

/-! ### One fill -/

/-- The price that is found is the right one exactly when the first late enough is. -/
theorem measured_fairAtOrAfter_iff (hpoints : points ≠ [])
    (hlater : ∀ point ∈ fairPoints later, point ∈ points) :
    Measured later target (fairAtOrAfter points target) ↔ Reaches points later target := by
  unfold fairAtOrAfter Reaches
  cases hfind : points.find? fun p => decide (target ≤ p.1) with
  | some first =>
      show (∃ point ∈ fairPoints later, _) ↔ _
      simp
  | none =>
      -- past the end of the prices the last one is given, though none is late enough
      obtain ⟨last, hlast⟩ := Option.isSome_iff_exists.mp (List.getLast?_isSome.mpr hpoints)
      rw [hlast]
      refine iff_of_false (fun h => ?_) (fun h => ?_)
      · obtain ⟨point, hpoint, hreach, -⟩ := h
        have hearly := List.find?_eq_none.mp hfind point (hlater point hpoint)
        exact hearly (decide_eq_true hreach)
      · obtain ⟨first, hfirst, -⟩ := h
        simp at hfirst

theorem measured_enrich (points : List (ℚ × ℚ)) (value : Option ℚ) :
    Measured (later.map (enrichEvent points)) target value ↔ Measured later target value := by
  cases value with
  | some fair =>
      unfold Measured
      rw [fairPoints_enrich]
  | none =>
      unfold Measured
      rw [fairPoints_enrich]

/-- A fill of the enriched log, and the prices it was given. -/
theorem fill?_enrichEvent (points : List (ℚ × ℚ)) (e : Event) :
    (enrichEvent points e).fill? = e.fill?.map fun fill =>
      { fill with
        fairAfter1s := fairAtOrAfter points (e.tsExchange + 1000)
        fairAfter5s := fairAtOrAfter points (e.tsExchange + 5000)
        fairAfter30s := fairAtOrAfter points (e.tsExchange + 30000) } := by
  unfold enrichEvent Event.fill?
  cases hbody : e.body with
  | virtualFill payload => rfl
  | _ => simp only [hbody, Option.map_none]

theorem measures_enrichEvent_iff (hpoints : points ≠ [])
    (hlater : ∀ point ∈ fairPoints later, point ∈ points) (e : Event) :
    (∀ fill ∈ (enrichEvent points e).fill?.toList, ∀ q ∈ fill.horizons,
      Measured (later.map (enrichEvent points)) ((enrichEvent points e).tsExchange + q.1) q.2) ↔
    (e.fill?.isSome = true → ∀ horizon ∈ [(1000 : ℚ), 5000, 30000],
      Reaches points later (e.tsExchange + horizon)) := by
  have hmeasured : ∀ horizon, Measured (later.map (enrichEvent points)) (e.tsExchange + horizon)
      (fairAtOrAfter points (e.tsExchange + horizon)) ↔
      Reaches points later (e.tsExchange + horizon) := fun horizon =>
    (measured_enrich points _).trans (measured_fairAtOrAfter_iff hpoints hlater)
  rw [fill?_enrichEvent, tsExchange_enrichEvent]
  cases e.fill? with
  | none => simp
  | some fill => simp [FillPayload.horizons, hmeasured]

/-! ### The log -/

/--
**When the prices after the fills are what they are named for.**  In a log whose fills come
without them, nothing else is written, and every fill is given a later price at or past its
horizon, or nothing when there is none, exactly when the log has no price at all or, for every
fill and horizon, the first price of the log at or past the horizon is that of a `mark_price`
after the fill.
-/
theorem measures_horizons_iff
    (hempty : ∀ fill ∈ fills log, ∀ q ∈ fill.horizons, q.2 = none) :
    ((enrichFairAfter log).map Event.blank = log.map Event.blank ∧
      MeasuresHorizons (enrichFairAfter log)) ↔ HorizonsReached log := by
  rw [and_iff_right (blank_enrichFairAfter log)]
  unfold HorizonsReached MeasuresHorizons enrichFairAfter
  dsimp only
  by_cases hpoints : fairPoints log = []
  · rw [hpoints, List.isEmpty_nil, if_pos rfl]
    refine iff_of_true ?_ (Or.inl rfl)
    intro before e later hlog fill hfill q hq
    have hmem : fill ∈ fills log := by
      rw [hlog]
      exact List.mem_filterMap.mpr ⟨e, by simp, Option.mem_toList.mp hfill⟩
    rw [hempty fill hmem q hq]
    intro point hpoint
    have hlisted : point ∈ fairPoints log := hlog ▸ mem_fairPoints_after hpoint
    rw [hpoints] at hlisted
    simp at hlisted
  · rw [if_neg (by simpa using hpoints), Ahead.each_map, or_iff_right hpoints]
    apply Ahead.each_congr
    intro before e later hlog
    refine measures_enrichEvent_iff hpoints (fun point hpoint => ?_) e
    exact hlog ▸ mem_fairPoints_after hpoint

/-- The prices before a fill are not late enough, where time does not step back. -/
theorem find?_fairPoints_of_inOrder {before : List Event} {e : Event}
    (horder : (before ++ e :: later).Pairwise fun a b => a.tsExchange ≤ b.tsExchange)
    (hprice : e.markFair? = none) (hlate : e.tsExchange < target) :
    (fairPoints (before ++ e :: later)).find? (fun p => decide (target ≤ p.1))
      = (fairPoints later).find? fun p => decide (target ≤ p.1) := by
  have hearly : (fairPoints before).find? (fun p => decide (target ≤ p.1)) = none := by
    rw [List.find?_eq_none]
    intro point hpoint
    obtain ⟨m, hm, hmark⟩ := List.mem_filterMap.mp hpoint
    obtain ⟨fair, -, rfl⟩ := Option.map_eq_some_iff.mp hmark
    have hle := (List.pairwise_append.mp horder).2.2 m hm e List.mem_cons_self
    simpa using lt_of_le_of_lt hle hlate
  have hnone : fairPoints [e] = [] := by
    unfold fairPoints
    simp [hprice]
  rw [List.append_cons, fairPoints_append, fairPoints_append, hnone, List.append_nil,
    List.find?_append, hearly, Option.none_or]

/-- Where time does not step back, the horizons are reached when each has a later price. -/
theorem horizonsReached_iff_of_inOrder
    (horder : log.Pairwise fun a b => a.tsExchange ≤ b.tsExchange) :
    HorizonsReached log ↔ fairPoints log = [] ∨
      Ahead.Each (fun e later => e.fill?.isSome = true → ∀ horizon ∈ [(1000 : ℚ), 5000, 30000],
        ∃ point ∈ fairPoints later, e.tsExchange + horizon ≤ point.1) log := by
  unfold HorizonsReached
  refine or_congr_right (Ahead.each_congr fun before e later hlog => ?_)
  refine forall_congr' fun hfill => forall₂_congr fun horizon hhorizon => ?_
  have hprice : e.markFair? = none := by
    unfold Event.fill? at hfill
    unfold Event.markFair?
    cases hbody : e.body <;> simp_all
  have hlate : e.tsExchange < e.tsExchange + horizon := by
    have hpos : ∀ h ∈ [(1000 : ℚ), 5000, 30000], 0 < h := by decide +kernel
    have := hpos horizon hhorizon
    linarith
  unfold Reaches
  rw [hlog, find?_fairPoints_of_inOrder (hlog ▸ horder) hprice hlate]
  constructor
  · intro h
    obtain ⟨-, -, point, hpoint, hreach, -⟩ := h
    exact ⟨point, hpoint, hreach⟩
  · intro h
    obtain ⟨point, hpoint, hreach⟩ := h
    have hfound : ((fairPoints later).find? fun p =>
        decide (e.tsExchange + horizon ≤ p.1)).isSome = true := by
      rw [List.find?_isSome]
      exact ⟨point, hpoint, decide_eq_true hreach⟩
    obtain ⟨first, hfirst⟩ := Option.isSome_iff_exists.mp hfound
    have hreached := List.find?_some hfirst
    rw [decide_eq_true_eq] at hreached
    exact ⟨first, hfirst, first, List.mem_of_find?_eq_some hfirst, hreached, rfl⟩

/-! ### Two fills at the end of a recording -/

/-- Two fills, and a book half a minute later. -/
theorem measures_horizons_half_a_minute :
    let log := logOf (Machine.stepsOf (Pipeline.exec seriesRuntime flatConfig
      (quoteThenSell (3 / 2000) ++ [snapshotEvent 31000 2 9900000 9900002])))
    (enrichFairAfter log).map Event.blank = log.map Event.blank ∧
      MeasuresHorizons (enrichFairAfter log) :=
  (measures_horizons_iff (by decide +kernel)).mpr (by decide +kernel)

/-- The fills of the last event of a recording are given the price they were filled at. -/
theorem measures_horizons_past_the_end :
    ¬ ∀ (rt : Runtime) (cfg : Config) (steps : List (Machine.Step Pipeline Event (List Event)))
      (s : Pipeline), Machine.Run (Pipeline.process rt cfg) (Pipeline.init cfg) steps s →
      (∀ r ∈ steps, r.input.fill? = none) →
      (enrichFairAfter (logOf steps)).map Event.blank = (logOf steps).map Event.blank ∧
        MeasuresHorizons (enrichFairAfter (logOf steps)) := by
  intro h
  have hmeasures := (h seriesRuntime flatConfig _ _
    (@Machine.run_exec _ _ _ _ _ _ (quoteThenSell (3 / 2000)) (by decide +kernel))
    (by decide +kernel)).2
  revert hmeasures
  decide +kernel

end GhostAmm
