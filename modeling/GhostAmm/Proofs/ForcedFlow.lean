/-
What the forced-flow window holds.

The activator keeps the trades of the window in one list and drops from its front what is too
old at the time of the event at hand.  Events come in any order of their times, and then the
list is off in two ways.  A trade that a late clock dropped is missed by the next event whose
time is earlier, and a trade that arrived late waits behind a newer one until that goes too.
What is reported is right exactly when the two come to the same notional (`Balanced`), which
they do, both being nothing, as long as the times do not step back.
-/
import GhostAmm.Lib.Window
import GhostAmm.Proofs.Shocks

namespace GhostAmm

/-- What one call of `update` is given. -/
structure ShockUpdate where
  event : Event
  book : OrderBook
  fairState : FairPriceState

/-- The trade an update brings: its time, taker side and notional. -/
def ShockUpdate.trade? (u : ShockUpdate) : Option (ℚ × Option Side × ℚ) :=
  match u.event.body with
  | .trade payload => some (u.event.tsExchange, payload.side, payload.price * payload.amount)
  | _ => none

theorem ShockUpdate.time_of_trade? {u : ShockUpdate} {t : ℚ × Option Side × ℚ}
    (h : u.trade? = some t) : t.1 = u.event.tsExchange := by
  unfold trade? at h
  split at h
  · rw [← Option.some.inj h]
  · simp at h

/-- The trades some updates bring, in order of arrival. -/
def receivedTrades (updates : List ShockUpdate) : List (ℚ × Option Side × ℚ) :=
  updates.filterMap ShockUpdate.trade?

/-- The times of some updates do not step back. -/
def UpdatesInOrder (updates : List ShockUpdate) : Prop :=
  updates.Pairwise fun u v => u.event.tsExchange ≤ v.event.tsExchange

instance (updates : List ShockUpdate) : Decidable (UpdatesInOrder updates) :=
  inferInstanceAs (Decidable (List.Pairwise _ _))

/-- The notional of one taker side that is reported. -/
def ShockState.takerNotional (state : ShockState) : Side → ℚ
  | .buy => state.recentTakerBuyNotional
  | .sell => state.recentTakerSellNotional

namespace ShockActivator

/-- `update` as a step; it raises nothing. -/
def step (rt : Runtime) (cfg : ShockConfig) (self : ShockActivator) (u : ShockUpdate) :
    ShockActivator × Except Py.Error (ShockState × Option Event) :=
  let (shock, state, flow) := self.update rt cfg u.event u.book u.fairState
  (shock, .ok (state, flow))

/-- A step of the activator. -/
abbrev Step := Machine.Step ShockActivator ShockUpdate (ShockState × Option Event)

/-! ### Sums of notionals -/

theorem notionalOf_append (xs ys : List (ℚ × Option Side × ℚ)) (side : Side) :
    notionalOf (xs ++ ys) side = notionalOf xs side + notionalOf ys side := by
  unfold notionalOf
  rw [List.filter_append, List.map_append, List.sum_append]

theorem notionalOf_perm {xs ys : List (ℚ × Option Side × ℚ)} (h : xs.Perm ys) (side : Side) :
    notionalOf xs side = notionalOf ys side :=
  ((h.filter _).map _).sum_eq

/-! ### The window -/

/-- The test of `_expire`. -/
def isDue (cfg : ShockConfig) (now : ℚ) (t : ℚ × Option Side × ℚ) : Bool :=
  decide (cfg.forcedFlowWindowMs < now - t.1)

/-- Traded at most the width of the window before `now`. -/
def inWindow (cfg : ShockConfig) (now : ℚ) (t : ℚ × Option Side × ℚ) : Bool :=
  decide (now - t.1 ≤ cfg.forcedFlowWindowMs)

theorem not_isDue (cfg : ShockConfig) (now : ℚ) :
    (fun t => !isDue cfg now t) = inWindow cfg now := by
  funext t
  unfold isDue inWindow
  by_cases h : now - t.1 ≤ cfg.forcedFlowWindowMs
  · simp [h]
  · simp [h, not_le.mp h]

/-- The trades held when `_expire` starts. -/
def held (self : ShockActivator) (u : ShockUpdate) : List (ℚ × Option Side × ℚ) :=
  self.trades ++ u.trade?.toList

theorem windowTrades_eq (cfg : ShockConfig) (self : ShockActivator) (u : ShockUpdate) :
    self.windowTrades cfg u.event = (self.held u).dropWhile (isDue cfg u.event.tsExchange) := by
  unfold windowTrades held ShockUpdate.trade?
  cases u.event.body with
  | trade payload => rfl
  | _ =>
      simp only [Option.toList_none, List.append_nil]
      rfl

/-- What an update makes of the trades of the window. -/
theorem update_window (rt : Runtime) (cfg : ShockConfig) (self : ShockActivator) (u : ShockUpdate) :
    let updated := self.update rt cfg u.event u.book u.fairState
    updated.1.trades = self.windowTrades cfg u.event ∧
    (∀ side, updated.2.1.takerNotional side
      = notionalOf (self.windowTrades cfg u.event) side) ∧
    updated.2.1.forceRatio
      = max (notionalOf (self.windowTrades cfg u.event) .buy)
          (notionalOf (self.windowTrades cfg u.event) .sell)
        / max (u.book.depthAroundMid cfg.depthBps) 1 := by
  refine ⟨?_, fun side => ?_, rfl⟩
  · unfold update
    simp only
    split <;> rfl
  · cases side <;> rfl

theorem step_eq {rt : Runtime} {cfg : ShockConfig} {self shock : ShockActivator} {u : ShockUpdate}
    {out : ShockState × Option Event} (h : step rt cfg self u = (shock, .ok out)) :
    self.update rt cfg u.event u.book u.fairState = (shock, out.1, out.2) := by
  unfold step at h
  generalize self.update rt cfg u.event u.book u.fairState = updated at h ⊢
  obtain ⟨shock', state, flow⟩ := updated
  obtain ⟨rfl, hout⟩ := Prod.mk.inj h
  rw [← Except.ok.inj hout]

/-- The trades kept by a step. -/
theorem step_trades {rt : Runtime} {cfg : ShockConfig} {self shock : ShockActivator}
    {u : ShockUpdate} {out : ShockState × Option Event}
    (h : step rt cfg self u = (shock, .ok out)) :
    shock.trades = (self.held u).dropWhile (isDue cfg u.event.tsExchange) ∧
    ∀ side, out.1.takerNotional side = notionalOf shock.trades side := by
  obtain ⟨htrades, hreported, -⟩ := update_window rt cfg self u
  rw [step_eq h] at htrades hreported
  rw [← windowTrades_eq]
  refine ⟨htrades, fun side => ?_⟩
  rw [hreported, htrades]

/-! ### What is missed and what waits -/

/-- The notional of the trades of one side received so far that lie in the window. -/
def windowNotional (cfg : ShockConfig) (updates : List ShockUpdate) (now : ℚ) (side : Side) : ℚ :=
  notionalOf ((receivedTrades updates).filter (inWindow cfg now)) side

/-- The trades received so far that are no longer held. -/
def forgotten (self : ShockActivator) (past : List ShockUpdate) : List (ℚ × Option Side × ℚ) :=
  (receivedTrades past).take ((receivedTrades past).length - self.trades.length)

/-- What was forgotten too early and what waits behind a newer trade have one notional. -/
def Balanced (cfg : ShockConfig) (self : ShockActivator) (past : List ShockUpdate)
    (u : ShockUpdate) (side : Side) : Prop :=
  notionalOf ((self.forgotten past).filter (inWindow cfg u.event.tsExchange)) side
    = notionalOf (Window.waiting (isDue cfg u.event.tsExchange) (self.held u)) side

variable {rt : Runtime} {cfg : ShockConfig} {steps : List Step} {s : ShockActivator}

theorem received_concat {self : ShockActivator} {past : List ShockUpdate} {u : ShockUpdate}
    {gone : List (ℚ × Option Side × ℚ)} (h : receivedTrades past = gone ++ self.trades) :
    receivedTrades (past ++ [u]) = gone ++ self.held u := by
  unfold receivedTrades held at *
  rw [List.filterMap_append, h, List.append_assoc]
  cases hu : u.trade? with
  | none => rw [List.filterMap_cons_none hu]; rfl
  | some t => rw [List.filterMap_cons_some hu]; rfl

/-- **What is no longer held was due at some update, and the rest is held in order of arrival.** -/
theorem held_run (h : Machine.Run (step rt cfg) {} steps s) :
    ∃ gone, receivedTrades (steps.map Machine.Step.input) = gone ++ s.trades ∧
      ∀ t ∈ gone, ∃ r ∈ steps, isDue cfg r.input.event.tsExchange t = true := by
  induction h with
  | nil => exact ⟨[], rfl, fun t ht => absurd ht List.not_mem_nil⟩
  | @snoc steps s s' u out _ hs ih =>
      obtain ⟨gone, hgone, hdue⟩ := ih
      obtain ⟨htrades, -⟩ := step_trades hs
      refine ⟨gone ++ (s.held u).takeWhile (isDue cfg u.event.tsExchange), ?_, fun t ht => ?_⟩
      · rw [List.map_append, htrades, List.append_assoc, List.takeWhile_append_dropWhile]
        exact received_concat hgone
      · rcases List.mem_append.mp ht with ht | ht
        · obtain ⟨r, hr, hrdue⟩ := hdue t ht
          exact ⟨r, List.mem_append_left _ hr, hrdue⟩
        · exact ⟨_, List.mem_append_right _ (List.mem_singleton_self _),
            List.mem_takeWhile_imp ht⟩

theorem forgotten_eq {past : List ShockUpdate} {gone : List (ℚ × Option Side × ℚ)}
    (h : receivedTrades past = gone ++ s.trades) : s.forgotten past = gone := by
  unfold forgotten
  rw [h, List.length_append, Nat.add_sub_cancel, List.take_left]

/-- An update reports the notional of the window exactly if nothing is missed and waits on
balance. -/
theorem step_exact_iff {shock : ShockActivator} {u : ShockUpdate} {out : ShockState × Option Event}
    {past : List ShockUpdate} {gone : List (ℚ × Option Side × ℚ)}
    (hs : step rt cfg s u = (shock, .ok out)) (hpast : receivedTrades past = gone ++ s.trades)
    (side : Side) :
    out.1.takerNotional side = windowNotional cfg (past ++ [u]) u.event.tsExchange side ↔
      Balanced cfg s past u side := by
  obtain ⟨htrades, hreported⟩ := step_trades hs
  have hkept := notionalOf_perm
    (Window.dropWhile_perm (isDue cfg u.event.tsExchange) (s.held u)) side
  rw [notionalOf_append, not_isDue] at hkept
  unfold Balanced windowNotional
  rw [hreported, htrades, hkept, received_concat hpast, forgotten_eq hpast, List.filter_append,
    notionalOf_append, add_comm, add_left_inj]
  exact eq_comm

/-- Where the times do not step back nothing is missed and nothing waits. -/
theorem balanced_of_inOrder {r : Step} (h : Machine.Run (step rt cfg) {} steps s)
    (hord : UpdatesInOrder ((steps ++ [r]).map Machine.Step.input)) (side : Side) :
    Balanced cfg s (steps.map Machine.Step.input) r.input side := by
  obtain ⟨gone, hgone, hdue⟩ := held_run h
  rw [List.map_append, UpdatesInOrder, List.map_singleton] at hord
  have htrades : (receivedTrades (steps.map Machine.Step.input ++ [r.input])).Pairwise
      fun t t' => t.1 ≤ t'.1 := by
    refine List.Pairwise.filterMap _ (fun u v huv t ht t' ht' => ?_) hord
    rw [ShockUpdate.time_of_trade? ht, ShockUpdate.time_of_trade? ht']
    exact huv
  rw [received_concat hgone] at htrades
  -- what was due before is due still
  have hmissed : gone.filter (inWindow cfg r.input.event.tsExchange) = [] := by
    refine List.filter_eq_nil_iff.mpr fun t ht => ?_
    obtain ⟨r', hr', hrdue⟩ := hdue t ht
    have hle : r'.input.event.tsExchange ≤ r.input.event.tsExchange :=
      (List.pairwise_append.mp hord).2.2 _ (List.mem_map_of_mem hr') _ (List.mem_singleton_self _)
    unfold isDue at hrdue
    unfold inWindow
    have hlt := of_decide_eq_true hrdue
    rw [decide_eq_true_eq, not_le]
    linarith
  have hwaiting : Window.waiting (isDue cfg r.input.event.tsExchange) (s.held r.input) = [] := by
    refine Window.waiting_eq_nil ((List.pairwise_append.mp htrades).2.1.imp fun hle hdue' => ?_)
    unfold isDue at hdue' ⊢
    have hlt := of_decide_eq_true hdue'
    rw [decide_eq_true_eq]
    linarith
  unfold Balanced
  rw [forgotten_eq hgone, hmissed, hwaiting]

/--
**What an update reports is the notional of the trades received so far that lie in the window
exactly if what was forgotten too early and what waits behind a newer trade have one notional,
and as long as the times do not step back they have.**
-/
theorem forced_flow_window_iff (h : Machine.Run (step rt cfg) {} steps s) :
    ∀ xs r ys, steps = xs ++ r :: ys → ∀ side,
      (r.output.1.takerNotional side
          = windowNotional cfg ((xs ++ [r]).map Machine.Step.input) r.input.event.tsExchange side ↔
        Balanced cfg r.before (xs.map Machine.Step.input) r.input side) ∧
      (UpdatesInOrder ((xs ++ [r]).map Machine.Step.input) →
        Balanced cfg r.before (xs.map Machine.Step.input) r.input side) := by
  intro xs r ys hsteps side
  subst hsteps
  obtain ⟨hbefore, hs⟩ := h.split
  obtain ⟨gone, hgone, -⟩ := held_run hbefore
  refine ⟨?_, fun hord => balanced_of_inOrder hbefore hord side⟩
  rw [List.map_append]
  exact step_exact_iff hs hgone side

/-- An update on an empty book without a fair price. -/
def bareUpdate (event : Event) : ShockUpdate := ⟨event, {}, ⟨none, 0, none, false, none, [], none⟩⟩

/-- A sell that arrives late waits behind a newer one; then a late clock drops both, and the
newer one is missed by the event after it. -/
def lateUpdates : List ShockUpdate :=
  [sellEvent 10000 100 1, sellEvent 2000 50 1,
    marketEvent 12000 .absent (.other "dry_run_heartbeat"),
    marketEvent 16000 .absent (.other "dry_run_heartbeat"),
    marketEvent 14000 .absent (.other "dry_run_heartbeat")].map bareUpdate

/-- Reported against what lies in the window, from the third update on: 150 against 100, nothing
against nothing and nothing against 100. -/
theorem forced_flow_window_iff_late :
    let steps := Machine.stepsOf (Machine.exec (step seriesRuntime {}) {} lateUpdates)
    steps.map (fun r => r.output.1.takerNotional .sell) = [100, 150, 150, 0, 0] ∧
    ∀ xs r ys, steps = xs ++ r :: ys → ∀ side,
      (r.output.1.takerNotional side
          = windowNotional {} ((xs ++ [r]).map Machine.Step.input) r.input.event.tsExchange side ↔
        Balanced {} r.before (xs.map Machine.Step.input) r.input side) ∧
      (UpdatesInOrder ((xs ++ [r]).map Machine.Step.input) →
        Balanced {} r.before (xs.map Machine.Step.input) r.input side) :=
  ⟨by decide +kernel, forced_flow_window_iff (Machine.run_exec (by decide +kernel))⟩

/-- The third update reports a sell that is older than the window. -/
theorem forced_flow_window_keeps_late_trade :
    ¬ ∀ xs r ys, Machine.stepsOf (Machine.exec (step seriesRuntime {}) {} lateUpdates)
        = xs ++ r :: ys → ∀ side, r.output.1.takerNotional side
      = windowNotional {} ((xs ++ [r]).map Machine.Step.input) r.input.event.tsExchange side := by
  intro h
  have hlen : 2 < (Machine.stepsOf
      (Machine.exec (step seriesRuntime {}) {} lateUpdates)).length := by decide +kernel
  have hsell := h _ _ _ ((List.take_append_drop 2 _).symm.trans
    (congrArg _ (List.drop_eq_getElem_cons hlen))) .sell
  revert hlen hsell
  decide +kernel

end ShockActivator

end GhostAmm
