/-
How the activation fades.

Between shocks the activation is a sigmoid of the force ratio times a decay in the time since
the last shock.  While no trade comes in the window only shrinks, so the notional of either
side, the larger of them and with an unchanged book the ratio only fall; the sigmoid rises with
the ratio where the temperature is not negative, and the decay falls with time.  The two sides
take the activation, or a share of it, by the direction of the last shock, which stays.
-/
import GhostAmm.Proofs.Crossing
import GhostAmm.Proofs.ForcedFlow

namespace GhostAmm

/-! ### The two sides -/

theorem sideActivations_mono {a b : ℚ} (h : a ≤ b) (direction : ShockDirection) (ratio : ℚ) :
    (sideActivations a direction ratio).1 ≤ (sideActivations b direction ratio).1 ∧
    (sideActivations a direction ratio).2 ≤ (sideActivations b direction ratio).2 := by
  have hopposite : max 0 (min 1 ratio) * a ≤ max 0 (min 1 ratio) * b :=
    mul_le_mul_of_nonneg_left h (le_max_left _ _)
  unfold sideActivations
  cases direction with
  | sellShock => exact ⟨h, hopposite⟩
  | buyShock => exact ⟨hopposite, h⟩
  | neutral => exact ⟨le_rfl, le_rfl⟩

@[simp] theorem sideActivations_zero (direction : ShockDirection) (ratio : ℚ) :
    sideActivations 0 direction ratio = (0, 0) := by
  unfold sideActivations
  cases direction <;> simp

theorem sideActivations_le {a : ℚ} (h : 0 ≤ a) (direction : ShockDirection) (ratio : ℚ) :
    (sideActivations a direction ratio).1 ≤ a ∧ (sideActivations a direction ratio).2 ≤ a := by
  have hopposite : max 0 (min 1 ratio) * a ≤ a :=
    mul_le_of_le_one_left h (max_le zero_le_one (min_le_left _ _))
  unfold sideActivations
  cases direction with
  | sellShock => exact ⟨le_rfl, hopposite⟩
  | buyShock => exact ⟨hopposite, le_rfl⟩
  | neutral => exact ⟨h, h⟩

/-- The activation and that of either side lie between zero and one. -/
structure ShockState.InUnit (state : ShockState) : Prop where
  activation : 0 ≤ state.activation ∧ state.activation ≤ 1
  bid : 0 ≤ state.bidActivation ∧ state.bidActivation ≤ 1
  ask : 0 ≤ state.askActivation ∧ state.askActivation ≤ 1

/-- No activation of one state exceeds that of the other. -/
structure ShockState.FadedFrom (state earlier : ShockState) : Prop where
  activation : state.activation ≤ earlier.activation
  bid : state.bidActivation ≤ earlier.bidActivation
  ask : state.askActivation ≤ earlier.askActivation

namespace ShockActivator

variable {rt : Runtime} {cfg : ShockConfig}

/-! ### One update -/

theorem rebuild_unit (rt : Runtime) (cfg : ShockConfig) (self : ShockActivator)
    (now forceRatio : ℚ) (fairState : FairPriceState) :
    0 ≤ (rebuild rt cfg self now forceRatio fairState).1 ∧
      (rebuild rt cfg self now forceRatio fairState).1 ≤ 1 := by
  unfold rebuild
  split
  · split
    · exact ⟨le_rfl, zero_le_one⟩
    · split
      · exact ⟨le_rfl, zero_le_one⟩
      · exact ⟨le_max_left _ _, max_le zero_le_one (min_le_left _ _)⟩
  · exact ⟨le_rfl, zero_le_one⟩

/--
A later look at the same shock, with no more force, rebuilds no more.  Only the first look
needs a valid fair price and the wait behind it.
-/
theorem rebuild_fades (hmono : Monotone rt.exp) (hexp : ∀ x, 0 ≤ rt.exp x)
    (htemp : 0 ≤ cfg.temperature) {self self' : ShockActivator} {now now' force force' : ℚ}
    {fairState fairState' : FairPriceState} (hshock : self'.lastShockTs = self.lastShockTs)
    (hnow : now ≤ now') (hforce : force' ≤ force) (hvalid : fairState.isValid = true)
    (hwait : ∀ ts, self.lastShockTs = some ts → cfg.minimumWaitAfterShockMs ≤ now - ts) :
    (rebuild rt cfg self' now' force' fairState').1 ≤
      (rebuild rt cfg self now force fairState).1 := by
  by_cases hvalid' : fairState'.isValid = true
  · unfold rebuild
    rw [if_pos hvalid, if_pos hvalid', hshock]
    cases hts : self.lastShockTs with
    | none => exact le_rfl
    | some ts =>
        have hold := hwait ts hts
        have hold' : cfg.minimumWaitAfterShockMs ≤ now' - ts := by linarith
        dsimp only [Option.map_some]
        rw [if_neg (not_lt.mpr hold), if_neg (not_lt.mpr hold')]
        have hraw : 1 / (1 + rt.exp (-cfg.temperature * (force' - cfg.threshold)))
            ≤ 1 / (1 + rt.exp (-cfg.temperature * (force - cfg.threshold))) := by
          refine one_div_le_one_div_of_le ?_ ?_
          · linarith [hexp (-cfg.temperature * (force - cfg.threshold))]
          · have hle : -cfg.temperature * (force - cfg.threshold)
                ≤ -cfg.temperature * (force' - cfg.threshold) := by nlinarith
            linarith [hmono hle]
        have hdecay : rt.exp (-(now' - ts) / max cfg.activationDecayMs 1)
            ≤ rt.exp (-(now - ts) / max cfg.activationDecayMs 1) := by
          refine hmono (div_le_div_of_nonneg_right (by linarith) ?_)
          exact zero_le_one.trans (le_max_right _ _)
        have hnonneg : 0 ≤ 1 / (1 + rt.exp (-cfg.temperature * (force - cfg.threshold))) := by
          have := hexp (-cfg.temperature * (force - cfg.threshold))
          positivity
        exact max_le_max le_rfl (min_le_min le_rfl (mul_le_mul hraw hdecay (hexp _) hnonneg))
  · have hzero : (rebuild rt cfg self' now' force' fairState').1 = 0 := by
      unfold rebuild
      rw [if_neg hvalid']
    rw [hzero]
    exact (rebuild_unit rt cfg self now force fairState).1

/-- What a step reports, by what it leaves. -/
theorem step_reports {self shock : ShockActivator} {u : ShockUpdate}
    {out : ShockState × Option Event} (h : step rt cfg self u = (shock, .ok out)) :
    Updated cfg self u.event.tsExchange shock out.1 out.2 ∧
    out.1.activation = (rebuild rt cfg shock u.event.tsExchange out.1.forceRatio u.fairState).1 ∧
    out.1.forceRatio = max (notionalOf shock.trades .buy) (notionalOf shock.trades .sell)
      / max (u.book.depthAroundMid cfg.depthBps) 1 := by
  have hspec := update_spec rt cfg self u.event u.book u.fairState
  obtain ⟨hactivation, -⟩ := update_rebuild rt cfg self u.event u.book u.fairState
  obtain ⟨htrades, -, hforce⟩ := update_window rt cfg self u
  rw [step_eq h] at hspec hactivation htrades hforce
  rw [← htrades] at hforce
  exact ⟨hspec, hactivation, hforce⟩

/-- How the sides share the activation. -/
theorem Updated.shares {self shock : ShockActivator} {now : ℚ} {state : ShockState}
    {flow : Option Event} (h : Updated cfg self now shock state flow) :
    state.bidActivation
      = (sideActivations state.activation state.direction cfg.oppositeSideActivationRatio).1 ∧
    state.askActivation
      = (sideActivations state.activation state.direction cfg.oppositeSideActivationRatio).2 :=
  ⟨congrArg Prod.fst h.sides, congrArg Prod.snd h.sides⟩

theorem step_unit {self shock : ShockActivator} {u : ShockUpdate}
    {out : ShockState × Option Event} (h : step rt cfg self u = (shock, .ok out)) :
    out.1.InUnit := by
  obtain ⟨hspec, hactivation, -⟩ := step_reports h
  obtain ⟨h0, h1⟩ := rebuild_unit rt cfg shock u.event.tsExchange out.1.forceRatio u.fairState
  rw [← hactivation] at h0 h1
  obtain ⟨hbid, hask⟩ := hspec.shares
  have hle := sideActivations_le h0 out.1.direction cfg.oppositeSideActivationRatio
  have hge := sideActivations_mono h0 out.1.direction cfg.oppositeSideActivationRatio
  rw [sideActivations_zero, ← hbid, ← hask] at hge
  rw [← hbid, ← hask] at hle
  exact ⟨⟨h0, h1⟩, ⟨hge.1, hle.1.trans h1⟩, ⟨hge.2, hle.2.trans h1⟩⟩

/-! ### Between shocks -/

/-- Nothing happened but time since the first state: trades went, the shock stayed. -/
structure Aged (first later : ShockActivator) : Prop where
  trades : later.trades.IsSuffix first.trades
  lastShockTs : later.lastShockTs = first.lastShockTs
  direction : later.lastShockDirection = first.lastShockDirection

/-- A step that brings no trade and announces nothing only ages the activator. -/
theorem Aged.step {first self shock : ShockActivator} {u : ShockUpdate}
    {out : ShockState × Option Event} (haged : Aged first self)
    (h : step rt cfg self u = (shock, .ok out)) (htrade : u.trade? = none) (hflow : out.2 = none) :
    Aged first shock := by
  obtain ⟨htrades, -⟩ := step_trades h
  obtain ⟨hspec, -⟩ := step_reports h
  obtain ⟨hts, -, hdirection⟩ := hspec.silent hflow
  refine ⟨?_, hts.trans haged.lastShockTs, hdirection.trans haged.direction⟩
  rw [htrades]
  unfold held
  rw [htrade, Option.toList_none, List.append_nil]
  exact (List.dropWhile_suffix _).trans haged.trades

theorem notionalOf_suffix_le {xs ys : List (ℚ × Option Side × ℚ)} (h : xs.IsSuffix ys)
    (hpos : ∀ t ∈ ys, 0 ≤ t.2.2) (side : Side) : notionalOf xs side ≤ notionalOf ys side := by
  obtain ⟨gone, rfl⟩ := h
  rw [notionalOf_append]
  have hnonneg : 0 ≤ notionalOf gone side := by
    refine List.sum_nonneg fun x hx => ?_
    obtain ⟨t, ht, rfl⟩ := List.mem_map.mp hx
    exact hpos t (List.mem_append_left _ (List.mem_filter.mp ht).1)
  linarith

/-- Two steps on one book, the second after nothing but time: it reports no more activation. -/
theorem Aged.fades (hmono : Monotone rt.exp) (hexp : ∀ x, 0 ≤ rt.exp x)
    (htemp : 0 ≤ cfg.temperature) {self self' first later : ShockActivator} {u u' : ShockUpdate}
    {out out' : ShockState × Option Event} (haged : Aged first later)
    (h : ShockActivator.step rt cfg self u = (first, .ok out))
    (h' : ShockActivator.step rt cfg self' u' = (later, .ok out'))
    (hpos : ∀ t ∈ first.trades, 0 ≤ t.2.2) (hbook : u'.book = u.book)
    (htime : u.event.tsExchange ≤ u'.event.tsExchange) (hvalid : u.fairState.isValid = true)
    (hwait : ∀ ts, first.lastShockTs = some ts →
      cfg.minimumWaitAfterShockMs ≤ u.event.tsExchange - ts) :
    out'.1.FadedFrom out.1 := by
  obtain ⟨hspec, hactivation, hforce⟩ := step_reports h
  obtain ⟨hspec', hactivation', hforce'⟩ := step_reports h'
  have hratio : out'.1.forceRatio ≤ out.1.forceRatio := by
    rw [hforce, hforce', hbook]
    refine div_le_div_of_nonneg_right ?_ (zero_le_one.trans (le_max_right _ _))
    exact max_le_max (notionalOf_suffix_le haged.trades hpos _)
      (notionalOf_suffix_le haged.trades hpos _)
  have hle : out'.1.activation ≤ out.1.activation := by
    rw [hactivation, hactivation']
    exact rebuild_fades hmono hexp htemp haged.lastShockTs htime hratio hvalid hwait
  obtain ⟨hbid, hask⟩ := hspec.shares
  obtain ⟨hbid', hask'⟩ := hspec'.shares
  by_cases hzero : out'.1.activation = 0
  · rw [hzero, sideActivations_zero] at hbid' hask'
    have hunit := step_unit h
    exact ⟨hle, hbid'.le.trans hunit.bid.1, hask'.le.trans hunit.ask.1⟩
  · -- both take their direction from the shock they remember
    have hpositive : 0 < out'.1.activation :=
      lt_of_le_of_ne (step_unit h').activation.1 (Ne.symm hzero)
    obtain ⟨hdirection', -⟩ := hspec'.active hzero
    obtain ⟨hdirection, -⟩ := hspec.active (hpositive.trans_le hle).ne'
    rw [hdirection', haged.direction, ← hdirection] at hbid' hask'
    have hsides := sideActivations_mono hle out.1.direction cfg.oppositeSideActivationRatio
    rw [← hbid, ← hask, ← hbid', ← hask'] at hsides
    exact ⟨hle, hsides.1, hsides.2⟩

/-- Every trade has a positive price and amount. -/
def TradesPositive (updates : List ShockUpdate) : Prop :=
  ∀ u ∈ updates, ∀ payload, u.event.body = .trade payload → 0 < payload.price ∧ 0 < payload.amount

theorem notional_nonneg {updates : List ShockUpdate} (h : TradesPositive updates) :
    ∀ t ∈ receivedTrades updates, 0 ≤ t.2.2 := by
  intro t ht
  obtain ⟨u, hu, htrade⟩ := List.mem_filterMap.mp ht
  unfold ShockUpdate.trade? at htrade
  split at htrade
  · rename_i payload hbody
    obtain ⟨hprice, hamount⟩ := h u hu payload hbody
    rw [← Option.some.inj htrade]
    exact (mul_pos hprice hamount).le
  · simp at htrade

/-- From a step on, no trade comes in, no flow is announced and the book stays; and at the step
the fair price is valid and the wait after the last shock is over. -/
structure QuietSince (cfg : ShockConfig) (first : Step) (rest : List Step) : Prop where
  noTrade : ∀ r ∈ rest, r.input.trade? = none
  noFlow : ∀ r ∈ rest, r.output.2 = none
  sameBook : ∀ r ∈ rest, r.input.book = first.input.book
  validFair : first.input.fairState.isValid = true
  waited : ∀ ts, first.after.lastShockTs = some ts →
    cfg.minimumWaitAfterShockMs ≤ first.input.event.tsExchange - ts

variable {steps : List Step} {s : ShockActivator}

/-- A run without trades and announcements only ages the activator. -/
theorem aged_run {first : ShockActivator} (h : Machine.Run (step rt cfg) first steps s)
    (htrade : ∀ r ∈ steps, r.input.trade? = none) (hflow : ∀ r ∈ steps, r.output.2 = none) :
    Aged first s := by
  have hquiet : ∀ r ∈ steps, r.input.trade? = none ∧ r.output.2 = none :=
    fun r hr => ⟨htrade r hr, hflow r hr⟩
  refine h.kept ⟨List.suffix_refl _, rfl, rfl⟩ (fun s u out s' hs haged hr => ?_) hquiet
  exact haged.step hs hr.1 hr.2

/--
**Between shocks the activations only fade.**  In every run they lie between zero and one; and
where times do not step back, trades are positive and the temperature is not negative, no
activation grows from one update to a later one with only quiet ones after it.
-/
theorem activation_fades (h : Machine.Run (step rt cfg) {} steps s) :
    (∀ r ∈ steps, r.output.1.InUnit) ∧
    (Monotone rt.exp → (∀ x, 0 ≤ rt.exp x) → 0 ≤ cfg.temperature →
      UpdatesInOrder (steps.map Machine.Step.input) →
      TradesPositive (steps.map Machine.Step.input) →
      ∀ xs first between last ys, steps = xs ++ first :: (between ++ last :: ys) →
        QuietSince cfg first (between ++ [last]) → last.output.1.FadedFrom first.output.1) := by
  refine ⟨fun r hr => step_unit (h.step_of_mem hr), ?_⟩
  intro hmono hexp htemp hord hpos xs first between last ys hsteps hquiet
  have hassoc : steps = (xs ++ first :: between) ++ last :: ys := by simp [hsteps]
  rw [hassoc] at h
  obtain ⟨hbefore, hlast⟩ := h.split
  obtain ⟨hstart, hfirst⟩ := hbefore.split
  -- up to the last step the activator has only aged, and the last step ages it once more
  have haged : Aged first.after last.before := aged_run hbefore.rest
    (fun r hr => hquiet.noTrade r (List.mem_append_left _ hr))
    (fun r hr => hquiet.noFlow r (List.mem_append_left _ hr))
  have hmem : last ∈ between ++ [last] := List.mem_append_right _ (List.mem_singleton_self last)
  have haged' := haged.step hlast (hquiet.noTrade last hmem) (hquiet.noFlow last hmem)
  have hheld : ∀ t ∈ first.after.trades, 0 ≤ t.2.2 := by
    intro t ht
    obtain ⟨gone, hgone, -⟩ := held_run (hstart.snoc hfirst)
    refine notional_nonneg (fun u hu => hpos u ?_) t
      (hgone ▸ List.mem_append_right gone ht)
    obtain ⟨r, hr, rfl⟩ := List.mem_map.mp hu
    refine List.mem_map_of_mem ?_
    rw [hsteps]
    rcases List.mem_append.mp hr with hr | hr
    · exact List.mem_append_left _ hr
    · rw [List.mem_singleton.mp hr]
      exact List.mem_append_right _ List.mem_cons_self
  have htime : first.input.event.tsExchange ≤ last.input.event.tsExchange := by
    rw [hassoc, List.map_append] at hord
    exact (List.pairwise_append.mp hord).2.2 _ (List.mem_map_of_mem (by simp)) _
      (List.mem_map_of_mem (by simp))
  exact haged'.fades hmono hexp htemp hfirst hlast hheld (hquiet.sameBook last hmem) htime
    hquiet.validFair hquiet.waited

/-- A sell, then nothing but time, at a fair price of 100. -/
def sellThenSilence : List ShockUpdate :=
  [sellEvent 1000 100 (1 / 1000), marketEvent 4000 .absent (.other "dry_run_heartbeat"),
    marketEvent 9000 .absent (.other "dry_run_heartbeat")].map fun event =>
      ⟨event, {}, ⟨some 100, 1, none, true, none, [], none⟩⟩

theorem tradesPositive_sellThenSilence : TradesPositive sellThenSilence := by
  intro u hu payload hbody
  unfold sellThenSilence at hu
  simp only [List.map_cons, List.map_nil, List.mem_cons, List.not_mem_nil, or_false] at hu
  rcases hu with rfl | rfl | rfl
  · rw [← Body.trade.inj hbody]
    norm_num
  · simp [marketEvent] at hbody
  · simp [marketEvent] at hbody

/-- The sell brings the bids out three seconds later, and less so when it has left the window. -/
theorem activation_fades_after_sell :
    let steps := Machine.stepsOf
      (Machine.exec (step seriesRuntime { threshold := 1 / 10 }) {} sellThenSilence)
    steps.map (fun r => decide (0 < r.output.1.bidActivation)) = [false, true, true] ∧
    (∀ r ∈ steps, r.output.1.InUnit) ∧
    ∃ sell first last, steps = [sell, first, last] ∧
      last.output.1.FadedFrom first.output.1 := by
  intro steps
  have hinputs : steps.map Machine.Step.input = sellThenSilence := rfl
  have hquiet : steps.map (fun r => (r.output.2.isSome, r.after.lastShockTs))
      = [(true, some 1000), (false, some 1000), (false, some 1000)] := by decide +kernel
  obtain ⟨hunit, hfades⟩ := activation_fades
    (Machine.run_exec (by decide +kernel) : Machine.Run _ _ steps _)
  obtain ⟨sell, first, last, hsteps⟩ : ∃ sell first last, steps = [sell, first, last] :=
    List.length_eq_three.mp (by decide +kernel)
  refine ⟨by decide +kernel, hunit, sell, first, last, hsteps, ?_⟩
  refine hfades strictMono_series.monotone series_nonneg (by decide +kernel)
    (by rw [hinputs]; decide +kernel) ?_ [sell] first [] last [] hsteps ?_
  · rw [hinputs]
    exact tradesPositive_sellThenSilence
  · rw [hsteps] at hinputs hquiet
    obtain ⟨-, hfirst⟩ := List.cons.inj hinputs
    obtain ⟨hfirst, hlast⟩ := List.cons.inj hfirst
    obtain ⟨hlast, -⟩ := List.cons.inj hlast
    obtain ⟨-, hfirst', hlast'⟩ : _ ∧ (_ ∧ first.after.lastShockTs = some 1000) ∧
      last.output.2 = none ∧ _ := by simpa using hquiet
    refine ⟨?_, ?_, ?_, by rw [hfirst], fun ts hts => ?_⟩
    · simp [hlast, ShockUpdate.trade?, marketEvent]
    · simpa using hlast'.1
    · simp [hfirst, hlast]
    · rw [hfirst'.2] at hts
      rw [hfirst, ← Option.some.inj hts]
      norm_num [marketEvent]

end ShockActivator

end GhostAmm
