/-
What the fair-drift stop compares with.

The stop compares the fair price with the one of a second and of five seconds ago, and
takes both from the kernel's own history.  A fair price gets into that history only when
its call comes as far as the side checks, and goes out of it five seconds before the last
one that did, however long ago that was.  So the history is a function of the calls
(`fairHistory_after`), and the stop sees every fair price exactly while, at each horizon,
what the history still holds and what was given last are the same price.

Whether a call comes that far does not depend on the limits of the stop, so the calls can
be judged for all limits at once.
-/
import GhostAmm.Lib.Window
import GhostAmm.Proofs.Step

namespace GhostAmm

/-! ### Calls of the kernel -/

/-- A call of one of the kernel's public methods. -/
inductive RiskCall where
  | evaluate (input : RiskInput)
  | recordFill (side : Side) (tsMs price amount : ℚ)
  | recordTrade (price tsMs : ℚ)

/-- The time and the fair price `evaluate` is given. -/
def RiskCall.given? : RiskCall → Option (ℚ × ℚ)
  | .evaluate input => input.fairState.fair.map fun fair => (input.nowMs, fair)
  | _ => none

/-- The fair prices given to `evaluate`, in the order of the calls. -/
def givenFairs (calls : List RiskCall) : List (ℚ × ℚ) := calls.filterMap RiskCall.given?

/-- Calls of `evaluate` in the order of time, each with a valid positive fair price. -/
structure Proper (calls : List RiskCall) : Prop where
  inOrder : Window.InOrder Prod.fst (givenFairs calls)
  priced : ∀ input, RiskCall.evaluate input ∈ calls →
    input.fairState.isValid = true ∧ ∃ fair, input.fairState.fair = some fair ∧ 0 < fair

/-- The limits of the fair-drift stop, in basis points. -/
structure DriftLimits where
  drop1s : ℚ
  rise1s : ℚ
  drop5s : ℚ
  rise5s : ℚ

structure DriftLimits.Positive (limits : DriftLimits) : Prop where
  drop1s : 0 < limits.drop1s
  rise1s : 0 < limits.rise1s
  drop5s : 0 < limits.drop5s
  rise5s : 0 < limits.rise5s

/-- The same configuration with other limits. -/
def Config.withDrift (cfg : Config) (limits : DriftLimits) : Config :=
  { cfg with risk := { cfg.risk with
      maxFairDropBps1sForBid := limits.drop1s, maxFairRiseBps1sForAsk := limits.rise1s,
      maxFairDropBps5sForBid := limits.drop5s, maxFairRiseBps5sForAsk := limits.rise5s } }

namespace RiskKernel

def handle (cfg : Config) (self : RiskKernel) : RiskCall → RiskKernel
  | .evaluate input => (self.evaluate cfg input).1
  | .recordFill side tsMs price amount => self.recordFill cfg.risk side tsMs price amount
  | .recordTrade price tsMs => self.recordTrade price tsMs

/-- A new kernel after some calls. -/
def after (cfg : Config) (calls : List RiskCall) : RiskKernel := calls.foldl (handle cfg) {}

/-- The fair price with which a call of `evaluate` reaches the side checks. -/
def checkedFair? (cfg : Config) (self : RiskKernel) (input : RiskInput) : Option ℚ :=
  match input.fairState.isValid, input.fairState.fair with
  | true, some fair => if (self.globalRefusal cfg input fair).isNone then some fair else none
  | _, _ => none

/-- The time and the fair price of a call that reaches the side checks. -/
def checked? (cfg : Config) (self : RiskKernel) : RiskCall → Option (ℚ × ℚ)
  | .evaluate input => (self.checkedFair? cfg input).map fun fair => (input.nowMs, fair)
  | _ => none

def checkedFrom (cfg : Config) : RiskKernel → List RiskCall → List (ℚ × ℚ)
  | _, [] => []
  | self, call :: rest =>
      (self.checked? cfg call).toList ++ checkedFrom cfg (self.handle cfg call) rest

/-- The fair prices of the calls that reach the side checks, in their order. -/
def checkedFairs (cfg : Config) (calls : List RiskCall) : List (ℚ × ℚ) :=
  checkedFrom cfg {} calls

/-! ### What the calls leave in the kernel -/

variable {cfg : Config} {self other : RiskKernel} {input : RiskInput}

private theorem fillBurst_frame (nowMs : ℚ) :
    (self.fillBurstBlockedSides nowMs).1.fairHistory = self.fairHistory ∧
      (self.fillBurstBlockedSides nowMs).1.lastTrade = self.lastTrade := by
  unfold fillBurstBlockedSides
  simp only [List.foldl_cons, List.foldl_nil]
  repeat' split
  all_goals exact ⟨rfl, rfl⟩

private theorem inventoryBlocked_frame (inventory : InventoryState) (fair maxSize nowMs : ℚ) :
    (self.inventoryBlockedSides cfg inventory fair maxSize nowMs).1.fairHistory
        = self.fairHistory ∧
      (self.inventoryBlockedSides cfg inventory fair maxSize nowMs).1.lastTrade
        = self.lastTrade := by
  unfold inventoryBlockedSides
  extract_lets
  split <;> exact ⟨rfl, rfl⟩

/-- The side checks record the fair price. -/
theorem sideChecks_frame (fair : ℚ) :
    (self.sideChecks cfg input fair).1.fairHistory
        = Window.push Prod.fst 5000 self.fairHistory (input.nowMs, fair) ∧
      (self.sideChecks cfg input fair).1.lastTrade = self.lastTrade := by
  obtain ⟨hhistory, htrade⟩ := @inventoryBlocked_frame cfg
    ((self.recordFair input.nowMs fair).fillBurstBlockedSides input.nowMs).1 input.inventory fair
    cfg.amm.maxOrderSize input.nowMs
  obtain ⟨hhistory', htrade'⟩ := @fillBurst_frame (self.recordFair input.nowMs fair) input.nowMs
  exact ⟨hhistory.trans hhistory', htrade.trans htrade'⟩

theorem evaluate_checked {fair : ℚ} (h : self.checkedFair? cfg input = some fair) :
    input.fairState.fair = some fair ∧
      self.evaluate cfg input = self.sideChecks cfg input fair := by
  unfold checkedFair? at h
  unfold evaluate
  cases hvalid : input.fairState.isValid with
  | false => simp [hvalid] at h
  | true =>
      cases hfair : input.fairState.fair with
      | none => simp [hvalid, hfair] at h
      | some given =>
          rw [hvalid, hfair] at h
          cases hrefusal : self.globalRefusal cfg input given with
          | some decision => simp [hrefusal] at h
          | none =>
              have hsame : given = fair := by simpa [hrefusal] using h
              simp only [hrefusal]
              rw [← hsame]
              exact ⟨rfl, rfl⟩

/-- A call that is refused earlier leaves the kernel alone. -/
theorem evaluate_unchecked (h : self.checkedFair? cfg input = none) :
    (self.evaluate cfg input).1 = self := by
  unfold checkedFair? at h
  unfold evaluate
  cases hvalid : input.fairState.isValid with
  | false => rfl
  | true =>
      cases hfair : input.fairState.fair with
      | none => rfl
      | some given =>
          rw [hvalid, hfair] at h
          cases hrefusal : self.globalRefusal cfg input given with
          | some decision => simp only [hrefusal]
          | none => simp [hrefusal] at h

/-- Only a call that reaches the side checks changes the history. -/
theorem handle_fairHistory (call : RiskCall) : (self.handle cfg call).fairHistory
    = (self.checked? cfg call).toList.foldl (Window.push Prod.fst 5000) self.fairHistory := by
  cases call with
  | evaluate input =>
      show (self.evaluate cfg input).1.fairHistory
        = ((self.checkedFair? cfg input).map fun fair => (input.nowMs, fair)).toList.foldl _ _
      cases hchecked : self.checkedFair? cfg input with
      | none => rw [evaluate_unchecked hchecked]; rfl
      | some fair =>
          rw [(evaluate_checked hchecked).2]
          exact (sideChecks_frame fair).1
  | recordFill side tsMs price amount =>
      unfold handle recordFill
      simp only
      split
      · rfl
      · split <;> rfl
  | recordTrade price tsMs =>
      unfold handle recordTrade
      simp only
      split <;> rfl

/-- What a kernel makes of a call, as far as the last trade goes, depends on nothing else. -/
theorem handle_lastTrade (limits : DriftLimits) (h : self.lastTrade = other.lastTrade)
    (call : RiskCall) :
    (self.handle (cfg.withDrift limits) call).lastTrade = (other.handle cfg call).lastTrade := by
  have hevaluate : ∀ (cfg : Config) (self : RiskKernel) (input : RiskInput),
      (self.evaluate cfg input).1.lastTrade = self.lastTrade := by
    intro cfg self input
    cases hchecked : self.checkedFair? cfg input with
    | none => rw [evaluate_unchecked hchecked]
    | some fair =>
        rw [(evaluate_checked hchecked).2]
        exact (sideChecks_frame fair).2
  have hfill : ∀ (cfg : RiskConfig) (self : RiskKernel) (side : Side) (tsMs price amount : ℚ),
      (self.recordFill cfg side tsMs price amount).lastTrade = self.lastTrade := by
    intro cfg self side tsMs price amount
    unfold recordFill
    simp only
    split
    · rfl
    · split <;> rfl
  cases call with
  | evaluate input =>
      show ((self.evaluate _ input).1).lastTrade = ((other.evaluate _ input).1).lastTrade
      rw [hevaluate, hevaluate, h]
  | recordFill side tsMs price amount =>
      show (self.recordFill _ _ _ _ _).lastTrade = (other.recordFill _ _ _ _ _).lastTrade
      rw [hfill, hfill, h]
  | recordTrade price tsMs =>
      unfold handle recordTrade
      simp only
      split
      · rfl
      · exact h

/-- Of the kernel the early returns only look at the last trade, and at no limit of the stop. -/
theorem checkedFair?_withDrift (limits : DriftLimits) (h : self.lastTrade = other.lastTrade)
    (input : RiskInput) :
    self.checkedFair? (cfg.withDrift limits) input = other.checkedFair? cfg input := by
  have hrefusal : ∀ fair, self.globalRefusal (cfg.withDrift limits) input fair
      = other.globalRefusal cfg input fair := by
    intro fair
    unfold globalRefusal lastTradeDeviationTooLarge
    rw [h]
    rfl
  unfold checkedFair?
  simp only [hrefusal]

/-- What is checked was given. -/
theorem checkedFrom_sublist (cfg : Config) : ∀ (calls : List RiskCall) (self : RiskKernel),
    (checkedFrom cfg self calls).Sublist (givenFairs calls) := by
  intro calls
  induction calls with
  | nil => intro self; exact List.Sublist.refl []
  | cons call rest ih =>
      intro self
      have hhead : (self.checked? cfg call).toList.Sublist call.given?.toList := by
        cases call with
        | evaluate input =>
            show ((self.checkedFair? cfg input).map _).toList.Sublist
              (input.fairState.fair.map _).toList
            cases hchecked : self.checkedFair? cfg input with
            | none => exact List.nil_sublist _
            | some fair => rw [(evaluate_checked hchecked).1]
        | recordFill side tsMs price amount => exact List.nil_sublist _
        | recordTrade price tsMs => exact List.nil_sublist _
      have hgiven : givenFairs (call :: rest) = call.given?.toList ++ givenFairs rest := by
        unfold givenFairs
        cases hcall : call.given? <;> simp [hcall]
      rw [checkedFrom, hgiven]
      exact hhead.append (ih _)

/-- The limits of the stop change neither which calls are checked nor what is remembered. -/
theorem checkedFrom_withDrift (limits : DriftLimits) : ∀ (calls : List RiskCall)
    (self other : RiskKernel), self.lastTrade = other.lastTrade →
    checkedFrom (cfg.withDrift limits) self calls = checkedFrom cfg other calls ∧
      (calls.foldl (handle (cfg.withDrift limits)) self).lastTrade
        = (calls.foldl (handle cfg) other).lastTrade := by
  intro calls
  induction calls with
  | nil => intro self other h; exact ⟨rfl, h⟩
  | cons call rest ih =>
      intro self other h
      obtain ⟨hrest, htrade⟩ := ih _ _ (handle_lastTrade limits h call)
      refine ⟨?_, htrade⟩
      have hhead : self.checked? (cfg.withDrift limits) call = other.checked? cfg call := by
        cases call with
        | evaluate input =>
            show (self.checkedFair? _ input).map _ = (other.checkedFair? _ input).map _
            rw [checkedFair?_withDrift limits h input]
        | recordFill side tsMs price amount => rfl
        | recordTrade price tsMs => rfl
      rw [checkedFrom, checkedFrom, hhead, hrest]

private theorem foldl_fairHistory (cfg : Config) : ∀ (calls : List RiskCall) (self : RiskKernel),
    (calls.foldl (handle cfg) self).fairHistory
      = (checkedFrom cfg self calls).foldl (Window.push Prod.fst 5000) self.fairHistory := by
  intro calls
  induction calls with
  | nil => intro self; rfl
  | cons call rest ih =>
      intro self
      rw [List.foldl_cons, ih, checkedFrom, List.foldl_append, handle_fairHistory]

/-- **The history is what was checked in the five seconds up to the last check.** -/
theorem fairHistory_after {calls : List RiskCall} (h : Window.InOrder Prod.fst (givenFairs calls)) :
    (after cfg calls).fairHistory = Window.kept Prod.fst 5000 (checkedFairs cfg calls) := by
  unfold after
  rw [foldl_fairHistory]
  exact Window.push_all (h.sublist (checkedFrom_sublist cfg calls {}))

end RiskKernel

/-! ### The stop -/

/-- By how much the fair price has moved, in basis points. -/
def changeBps (fair prior : ℚ) : ℚ := (fair - prior) / prior * 10000

/-- The fair price of the last of some calls that was made by `target`. -/
def priorFair (target : ℚ) (fairs : List (ℚ × ℚ)) : Option ℚ :=
  (Window.latest Prod.fst target fairs).map Prod.snd

/-- The same, if that call was at most five seconds before the last of them. -/
def keptFair (target : ℚ) (fairs : List (ℚ × ℚ)) : Option ℚ :=
  ((Window.latest Prod.fst target fairs).filter fun p =>
    fairs.getLast?.any fun last => decide (last.1 - p.1 ≤ 5000)).map Prod.snd

theorem RiskKernel.fairAtOrBefore_after {cfg : Config} {calls : List RiskCall}
    (h : Window.InOrder Prod.fst (givenFairs calls)) (target : ℚ) :
    (RiskKernel.after cfg calls).fairAtOrBefore target
      = keptFair target (RiskKernel.checkedFairs cfg calls) := by
  unfold RiskKernel.fairAtOrBefore
  rw [RiskKernel.fairHistory_after h]
  exact congrArg _ (Window.latest_kept (h.sublist (RiskKernel.checkedFrom_sublist cfg calls {})))

/-- Whether a move of the fair price crosses the limit of a side. -/
def Crosses (moveBps dropBps riseBps : ℚ) : Side → Prop
  | .buy => moveBps ≤ -dropBps
  | .sell => riseBps ≤ moveBps

/-- Whether one horizon closes a side. -/
def Closes (fair : ℚ) (prior : Option ℚ) (dropBps riseBps : ℚ) (side : Side) : Prop :=
  ∃ p ∈ prior, Crosses (changeBps fair p) dropBps riseBps side

/-- A side is added when two conditions hold, and never twice. -/
private theorem mem_addSide {a b : Prop} [Decidable a] [Decidable b] {added side : Side}
    {blocked : List Side} :
    side ∈ (if a ∧ b ∧ added ∉ blocked then blocked ++ [added] else blocked) ↔
      side ∈ blocked ∨ (side = added ∧ a ∧ b) := by
  by_cases hin : added ∈ blocked
  · rw [if_neg (by simp [hin])]
    constructor
    · intro h
      exact Or.inl h
    · rintro (h | ⟨rfl, -⟩)
      · exact h
      · exact hin
  · by_cases hab : a ∧ b
    · rw [if_pos ⟨hab.1, hab.2, hin⟩, List.mem_append, List.mem_singleton]
      exact or_congr_right (and_iff_left hab).symm
    · rw [if_neg fun h => hab ⟨h.1, h.2.1⟩]
      exact (or_iff_left fun h => hab h.2).symm

theorem RiskKernel.mem_driftCheck {self : RiskKernel} {nowMs fair horizon drop rise : ℚ}
    {blocked : List Side} (hdrop : 0 < drop) (hrise : 0 < rise)
    (hpos : ∀ p ∈ self.fairAtOrBefore (nowMs - horizon), 0 < p) (side : Side) :
    side ∈ self.driftCheck nowMs fair blocked (horizon, drop, rise) ↔
      side ∈ blocked ∨ Closes fair (self.fairAtOrBefore (nowMs - horizon)) drop rise side := by
  unfold driftCheck
  simp only
  cases hprior : self.fairAtOrBefore (nowMs - horizon) with
  | none => cases side <;> simp [Closes]
  | some p =>
      dsimp only
      rw [if_neg (not_le.mpr (hpos p hprior)), mem_addSide, mem_addSide]
      cases side <;> simp [Closes, Crosses, changeBps, hdrop, hrise]

/-- A horizon that remembers nothing closes what one that remembers the same price closes. -/
theorem closes_iff (fair : ℚ) (prior : Option ℚ) {drop rise : ℚ} (hdrop : 0 < drop)
    (hrise : 0 < rise) (side : Side) :
    Closes fair prior drop rise side ↔
      Crosses (changeBps fair (prior.getD fair)) drop rise side := by
  cases prior with
  | some p => simp [Closes]
  | none =>
      have hzero : changeBps fair fair = 0 := by
        unfold changeBps
        rw [sub_self, zero_div, zero_mul]
      rw [Option.getD_none, hzero]
      cases side with
      | buy => simpa [Closes, Crosses] using hdrop
      | sell => simpa [Closes, Crosses] using hrise

theorem changeBps_injective {fair p q : ℚ} (hfair : 0 < fair) (hp : 0 < p) (hq : 0 < q)
    (h : changeBps fair p = changeBps fair q) : p = q := by
  unfold changeBps at h
  have hdiv : (fair - p) / p = (fair - q) / q := by linarith
  rw [div_eq_div_iff hp.ne' hq.ne'] at hdiv
  have hmul : fair * (q - p) = 0 := by linarith
  rcases mul_eq_zero.mp hmul with hzero | hzero
  · linarith
  · linarith

/-- A number is told by the limits it crosses. -/
private theorem eq_of_crossings {x y : ℚ} (hdrop : ∀ d, 0 < d → (x ≤ -d ↔ y ≤ -d))
    (hrise : ∀ u, 0 < u → (u ≤ x ↔ u ≤ y)) : x = y := by
  have hle : ∀ {x y : ℚ}, (∀ d, 0 < d → (x ≤ -d ↔ y ≤ -d)) → (∀ u, 0 < u → (u ≤ x ↔ u ≤ y)) →
      y ≤ x := by
    intro x y hdrop hrise
    by_contra hlt
    rw [not_le] at hlt
    by_cases hneg : x < 0
    · have := (hdrop (-x) (by linarith)).mp (by linarith)
      linarith
    · have := (hrise y (by linarith)).mpr le_rfl
      linarith
  exact le_antisymm (hle (fun d hd => (hdrop d hd).symm) fun u hu => (hrise u hu).symm)
    (hle hdrop hrise)

/-- Two pairs of moves that cross the same limits, whichever they are, are the same moves. -/
private theorem moves_eq {x x' y y' : ℚ}
    (h : ∀ limits : DriftLimits, limits.Positive → ∀ side,
      (Crosses x limits.drop1s limits.rise1s side ∨ Crosses x' limits.drop5s limits.rise5s side ↔
        Crosses y limits.drop1s limits.rise1s side ∨
          Crosses y' limits.drop5s limits.rise5s side)) :
    x = y ∧ x' = y' := by
  -- a limit that nothing crosses
  have hfar : ∃ far : ℚ, 0 < far ∧ ∀ z ∈ [x, x', y, y'], ¬ z ≤ -far ∧ ¬ far ≤ z := by
    refine ⟨|x| + |x'| + |y| + |y'| + 1, by positivity, fun z hz => ?_⟩
    have hz' : |z| ≤ |x| + |x'| + |y| + |y'| := by
      have h1 := abs_nonneg x
      have h2 := abs_nonneg x'
      have h3 := abs_nonneg y
      have h4 := abs_nonneg y'
      simp only [List.mem_cons, List.not_mem_nil, or_false] at hz
      rcases hz with rfl | rfl | rfl | rfl <;> linarith
    have hbounds := abs_le.mp hz'
    constructor
    · linarith [hbounds.1]
    · linarith [hbounds.2]
  obtain ⟨far, hfar, hout⟩ := hfar
  simp only [List.forall_mem_cons, List.not_mem_nil, false_imp_iff, implies_true, and_true] at hout
  obtain ⟨⟨hx, hx'⟩, ⟨hu, hu'⟩, ⟨hy, hy'⟩, ⟨hv, hv'⟩⟩ := hout
  constructor
  · refine eq_of_crossings (fun d hd => ?_) fun u hu => ?_
    · simpa [Crosses, hu, hv] using h ⟨d, 1, far, 1⟩ ⟨hd, one_pos, hfar, one_pos⟩ .buy
    · simpa [Crosses, hu', hv'] using h ⟨1, u, 1, far⟩ ⟨one_pos, hu, one_pos, hfar⟩ .sell
  · refine eq_of_crossings (fun d hd => ?_) fun u hu => ?_
    · simpa [Crosses, hx, hy] using h ⟨far, 1, d, 1⟩ ⟨hfar, one_pos, hd, one_pos⟩ .buy
    · simpa [Crosses, hx', hy'] using h ⟨1, far, 1, u⟩ ⟨one_pos, hfar, one_pos, hu⟩ .sell

/-- The stop of a call sees every fair price given before it. -/
def StopSees (limits : DriftLimits) (nowMs fair : ℚ) (given : List (ℚ × ℚ))
    (blocked : List Side) : Prop :=
  ∀ side, side ∈ blocked ↔
    Closes fair (priorFair (nowMs - 1000) given) limits.drop1s limits.rise1s side ∨
    Closes fair (priorFair (nowMs - 5000) given) limits.drop5s limits.rise5s side

/-- At every call that reaches the side checks, the stop sees every fair price given before. -/
def SeesEveryFair (cfg : Config) (calls : List RiskCall) : Prop :=
  ∀ limits : DriftLimits, limits.Positive → ∀ before input rest fair,
    calls = before ++ .evaluate input :: rest →
    (RiskKernel.after (cfg.withDrift limits) before).checkedFair? (cfg.withDrift limits) input
      = some fair →
    StopSees limits input.nowMs fair (givenFairs before)
      ((RiskKernel.after (cfg.withDrift limits) before).fairDriftBlockedSides
        (cfg.withDrift limits).risk input.nowMs fair)

/-- At every such call and each horizon, the price the kernel remembers is the one last given. -/
def RemembersFairs (cfg : Config) (calls : List RiskCall) : Prop :=
  ∀ before input rest fair, calls = before ++ .evaluate input :: rest →
    (RiskKernel.after cfg before).checkedFair? cfg input = some fair →
    ∀ horizon ∈ [(1000 : ℚ), 5000],
      (keptFair (input.nowMs - horizon) (RiskKernel.checkedFairs cfg before)).getD fair
        = (priorFair (input.nowMs - horizon) (givenFairs before)).getD fair

section Calls

variable {cfg : Config} {calls : List RiskCall}

/-- The calls before a call. -/
theorem Proper.before {before rest : List RiskCall} {call : RiskCall}
    (h : Proper (before ++ call :: rest)) : Proper before := by
  refine ⟨?_, fun input hinput => h.priced input (List.mem_append_left _ hinput)⟩
  have hgiven := h.inOrder
  unfold givenFairs at hgiven ⊢
  rw [List.filterMap_append] at hgiven
  exact (List.pairwise_append.mp hgiven).1

/-- Every price that is given is positive. -/
theorem Proper.given_pos (h : Proper calls) : ∀ p ∈ givenFairs calls, 0 < p.2 := by
  intro p hp
  obtain ⟨call, hcall, hgiven⟩ := List.mem_filterMap.mp hp
  cases call with
  | evaluate input =>
      obtain ⟨-, fair, hfair, hpos⟩ := h.priced input hcall
      have hp : (input.nowMs, fair) = p := by
        simpa [RiskCall.given?, hfair] using hgiven
      rw [← hp]
      exact hpos
  | recordFill side tsMs price amount => simp [RiskCall.given?] at hgiven
  | recordTrade price tsMs => simp [RiskCall.given?] at hgiven

theorem mem_latest {target : ℚ} {fairs : List (ℚ × ℚ)} {p : ℚ × ℚ}
    (h : p ∈ Window.latest Prod.fst target fairs) : p ∈ fairs := by
  unfold Window.latest at h
  exact List.takeWhile_subset _ (List.mem_of_getLast? h)

theorem Proper.prior_pos (h : Proper calls) {target p : ℚ}
    (hp : p ∈ priorFair target (givenFairs calls)) : 0 < p := by
  obtain ⟨entry, hentry, rfl⟩ := Option.map_eq_some_iff.mp hp
  exact h.given_pos entry (mem_latest hentry)

theorem Proper.kept_pos (h : Proper calls) {target p : ℚ}
    (hp : p ∈ keptFair target (RiskKernel.checkedFairs cfg calls)) : 0 < p := by
  obtain ⟨entry, hentry, rfl⟩ := Option.map_eq_some_iff.mp hp
  have hlatest := (Option.filter_eq_some_iff.mp hentry).1
  exact h.given_pos entry ((RiskKernel.checkedFrom_sublist cfg calls {}).subset
    (mem_latest hlatest))

/-- What the stop of a call blocks. -/
theorem RiskKernel.mem_fairDriftBlockedSides (h : Proper calls) {limits : DriftLimits}
    (hlimits : limits.Positive) (nowMs fair : ℚ) (side : Side) :
    side ∈ (RiskKernel.after (cfg.withDrift limits) calls).fairDriftBlockedSides
        (cfg.withDrift limits).risk nowMs fair ↔
      Closes fair (keptFair (nowMs - 1000) (RiskKernel.checkedFairs cfg calls)) limits.drop1s
        limits.rise1s side ∨
      Closes fair (keptFair (nowMs - 5000) (RiskKernel.checkedFairs cfg calls)) limits.drop5s
        limits.rise5s side := by
  have hchecked : RiskKernel.checkedFairs (cfg.withDrift limits) calls
      = RiskKernel.checkedFairs cfg calls :=
    (RiskKernel.checkedFrom_withDrift limits calls {} {} rfl).1
  have hprior : ∀ target, (RiskKernel.after (cfg.withDrift limits) calls).fairAtOrBefore target
      = keptFair target (RiskKernel.checkedFairs cfg calls) := by
    intro target
    rw [RiskKernel.fairAtOrBefore_after h.inOrder, hchecked]
  have hpos : ∀ target, ∀ p ∈ (RiskKernel.after (cfg.withDrift limits) calls).fairAtOrBefore
      target, 0 < p := by
    intro target p hp
    rw [hprior] at hp
    exact h.kept_pos hp
  unfold fairDriftBlockedSides
  rw [List.foldl_cons, List.foldl_cons, List.foldl_nil]
  show side ∈ RiskKernel.driftCheck _ _ _ (RiskKernel.driftCheck _ _ _ []
    (1000, limits.drop1s, limits.rise1s)) (5000, limits.drop5s, limits.rise5s) ↔ _
  rw [mem_driftCheck hlimits.drop5s hlimits.rise5s (hpos _),
    mem_driftCheck hlimits.drop1s hlimits.rise1s (hpos _), hprior, hprior]
  simp

/-- One call: it sees every fair price, whatever the limits, iff it remembers the right ones. -/
theorem stopSees_iff (h : Proper calls) (nowMs : ℚ) {fair : ℚ} (hfair : 0 < fair) :
    (∀ limits : DriftLimits, limits.Positive → StopSees limits nowMs fair (givenFairs calls)
      ((RiskKernel.after (cfg.withDrift limits) calls).fairDriftBlockedSides
        (cfg.withDrift limits).risk nowMs fair)) ↔
    ∀ horizon ∈ [(1000 : ℚ), 5000],
      (keptFair (nowMs - horizon) (RiskKernel.checkedFairs cfg calls)).getD fair
        = (priorFair (nowMs - horizon) (givenFairs calls)).getD fair := by
  have hgetD : ∀ {prior : Option ℚ}, (∀ p ∈ prior, 0 < p) → 0 < prior.getD fair := by
    intro prior hprior
    cases prior with
    | none => exact hfair
    | some p => exact hprior p rfl
  have hkept : ∀ target, 0 < (keptFair target (RiskKernel.checkedFairs cfg calls)).getD fair :=
    fun target => hgetD fun p hp => h.kept_pos hp
  have hgiven : ∀ target, 0 < (priorFair target (givenFairs calls)).getD fair :=
    fun target => hgetD fun p hp => h.prior_pos hp
  -- in either list of fairs, no call counts as one with the same price
  have hstop : ∀ limits : DriftLimits, limits.Positive →
      (StopSees limits nowMs fair (givenFairs calls)
        ((RiskKernel.after (cfg.withDrift limits) calls).fairDriftBlockedSides
          (cfg.withDrift limits).risk nowMs fair) ↔ ∀ side,
        (Crosses (changeBps fair ((keptFair (nowMs - 1000)
            (RiskKernel.checkedFairs cfg calls)).getD fair)) limits.drop1s limits.rise1s side ∨
          Crosses (changeBps fair ((keptFair (nowMs - 5000)
            (RiskKernel.checkedFairs cfg calls)).getD fair)) limits.drop5s limits.rise5s side ↔
        Crosses (changeBps fair ((priorFair (nowMs - 1000)
            (givenFairs calls)).getD fair)) limits.drop1s limits.rise1s side ∨
          Crosses (changeBps fair ((priorFair (nowMs - 5000)
            (givenFairs calls)).getD fair)) limits.drop5s limits.rise5s side)) := by
    intro limits hlimits
    refine forall_congr' fun side => ?_
    rw [RiskKernel.mem_fairDriftBlockedSides h hlimits,
      closes_iff fair _ hlimits.drop1s hlimits.rise1s,
      closes_iff fair _ hlimits.drop5s hlimits.rise5s,
      closes_iff fair _ hlimits.drop1s hlimits.rise1s,
      closes_iff fair _ hlimits.drop5s hlimits.rise5s]
  constructor
  · intro hsees
    obtain ⟨h1, h5⟩ := moves_eq fun limits hlimits =>
      (hstop limits hlimits).mp (hsees limits hlimits)
    intro horizon hhorizon
    simp only [List.mem_cons, List.not_mem_nil, or_false] at hhorizon
    rcases hhorizon with rfl | rfl
    · exact changeBps_injective hfair (hkept _) (hgiven _) h1
    · exact changeBps_injective hfair (hkept _) (hgiven _) h5
  · intro hsame limits hlimits
    rw [hstop limits hlimits, hsame 1000 (by simp), hsame 5000 (by simp)]
    exact fun side => Iff.rfl

/-- **The fair-drift stop sees every fair price, whatever its limits, exactly when at every call
that reaches the side checks the price the kernel remembers for each horizon is the one last
given by then.** -/
theorem fair_drift_sees_every_fair_iff (h : Proper calls) :
    SeesEveryFair cfg calls ↔ RemembersFairs cfg calls := by
  have hreach : ∀ (limits : DriftLimits) before input,
      (RiskKernel.after (cfg.withDrift limits) before).checkedFair? (cfg.withDrift limits) input
        = (RiskKernel.after cfg before).checkedFair? cfg input := by
    intro limits before input
    exact RiskKernel.checkedFair?_withDrift limits
      (RiskKernel.checkedFrom_withDrift limits before {} {} rfl).2 input
  have hpositive : ∀ before input rest fair, calls = before ++ .evaluate input :: rest →
      (RiskKernel.after cfg before).checkedFair? cfg input = some fair → 0 < fair := by
    intro before input rest fair hcalls hchecked
    obtain ⟨-, given, hgiven, hpos⟩ := h.priced input (by simp [hcalls])
    rw [(RiskKernel.evaluate_checked hchecked).1] at hgiven
    rw [Option.some.inj hgiven]
    exact hpos
  constructor
  · intro hsees before input rest fair hcalls hchecked
    refine (stopSees_iff (hcalls ▸ h).before input.nowMs
      (hpositive _ _ _ _ hcalls hchecked)).mp fun limits hlimits => ?_
    exact hsees limits hlimits before input rest fair hcalls ((hreach _ _ _).trans hchecked)
  · intro hremembers limits hlimits before input rest fair hcalls hchecked
    rw [hreach] at hchecked
    exact (stopSees_iff (hcalls ▸ h).before input.nowMs
      (hpositive _ _ _ _ hcalls hchecked)).mpr
      (hremembers before input rest fair hcalls hchecked) limits hlimits

end Calls

/-! ### Two calls, two seconds apart -/

/-- What the kernel is shown of a small market at `nowMs`. -/
def riskInputAt (nowMs fair activation : ℚ) : RiskInput where
  book := (({} : OrderBook).applyEvent (snapshotEvent 0 1 10000000 10000002)).1
  fairState := ⟨some fair, 1, none, true, none, [], none⟩
  shockState := ⟨activation, 0, 0, 0, 0, none, none, .neutral, 0, 0, none, none⟩
  inventory := ⟨1 / 100, 100000⟩
  pairSpec := some (BitbankPairSpec.fromApi
    { name := "btc_jpy", unitAmount := 1 / 10000, limitMaxAmount := 1000, priceDigits := 0,
      amountDigits := 4, isEnabled := some true })
  status := none
  nowMs := nowMs

/-- A fair price that falls by a tenth, and the activation at its first value. -/
def fallingFair (activation : ℚ) : List RiskCall :=
  [.evaluate (riskInputAt 0 10000000 activation), .evaluate (riskInputAt 2000 9000000 1)]

theorem proper_fallingFair (activation : ℚ) : Proper (fallingFair activation) := by
  refine ⟨?_, fun input hinput => ?_⟩
  · show List.Pairwise _ [((0 : ℚ), (10000000 : ℚ)), (2000, 9000000)]
    simp
  · simp only [fallingFair, List.mem_cons, RiskCall.evaluate.injEq, List.not_mem_nil,
      or_false] at hinput
    rcases hinput with rfl | rfl
    · exact ⟨rfl, 10000000, rfl, by norm_num⟩
    · exact ⟨rfl, 9000000, rfl, by norm_num⟩

/-- Where both calls are checked, the fall is seen. -/
theorem fair_drift_sees_checked_call : SeesEveryFair flatConfig (fallingFair 1) := by
  refine (fair_drift_sees_every_fair_iff (proper_fallingFair 1)).mpr ?_
  intro before input rest fair hcalls _ horizon hhorizon
  simp only [List.mem_cons, List.not_mem_nil, or_false] at hhorizon
  rcases before with _ | ⟨first, _ | ⟨second, before⟩⟩
  · rfl
  · simp only [fallingFair, List.cons_append, List.nil_append, List.cons.injEq,
      RiskCall.evaluate.injEq] at hcalls
    obtain ⟨rfl, rfl, -⟩ := hcalls
    have hkept : ∀ h ∈ [(1000 : ℚ), 5000], keptFair (2000 - h) (RiskKernel.checkedFairs flatConfig
        [.evaluate (riskInputAt 0 10000000 1)])
        = priorFair (2000 - h) (givenFairs [.evaluate (riskInputAt 0 10000000 1)]) := by
      decide +kernel
    rcases hhorizon with rfl | rfl
    · exact congrArg (Option.getD · fair) (hkept 1000 (by simp))
    · exact congrArg (Option.getD · fair) (hkept 5000 (by simp))
  · have hlength := congrArg List.length hcalls
    simp [fallingFair] at hlength

/-- The price of a call that is refused for want of activation is not remembered, and the fall
passes unseen. -/
theorem fair_drift_misses_refused_call :
    Proper (fallingFair 0) ∧ ¬ SeesEveryFair flatConfig (fallingFair 0) := by
  refine ⟨proper_fallingFair 0, fun hsees => ?_⟩
  have hstop := hsees ⟨1, 1, 1, 1⟩ ⟨one_pos, one_pos, one_pos, one_pos⟩
    [.evaluate (riskInputAt 0 10000000 0)] (riskInputAt 2000 9000000 1) [] 9000000 rfl
    (by decide +kernel)
  have hbuy := (hstop .buy).mpr (Or.inl ⟨10000000, by decide +kernel, by
    show changeBps _ _ ≤ _
    decide +kernel⟩)
  have hnone : (RiskKernel.after (flatConfig.withDrift ⟨1, 1, 1, 1⟩)
      [.evaluate (riskInputAt 0 10000000 0)]).fairDriftBlockedSides
      (flatConfig.withDrift ⟨1, 1, 1, 1⟩).risk 2000 9000000 = [] := by decide +kernel
  exact absurd (hnone ▸ hbuy) (by simp)

end GhostAmm
