/-
What is told of the orders that are never sent.

The pipeline announces every placement as an order it would have sent and blocks it in the same
call, and where every gate is open it gives the reason itself.  The private client hands the
verdict of the gates on as it is: a refusal always has a reason, and an order that passes is
reported as blocked for none.
-/
import GhostAmm.Model.PrivateClient
import GhostAmm.Proofs.LiveOrders
import GhostAmm.Proofs.OrderLog

namespace GhostAmm

/-- The payload of a `live_order_intent`. -/
def Event.liveIntent? (e : Event) : Option LiveOrderIntentPayload :=
  match e.body with
  | .liveOrderIntent p => some p
  | _ => none

/-- The payload of a `live_order_blocked`. -/
def Event.liveBlock? (e : Event) : Option LiveOrderBlockedPayload :=
  match e.body with
  | .liveOrderBlocked p => some p
  | _ => none

/-- The orders a log announces, in order. -/
def liveIntents (log : List Event) : List LiveOrderIntentPayload := log.filterMap Event.liveIntent?

/-- The orders a log blocks, in order. -/
def liveBlocks (log : List Event) : List LiveOrderBlockedPayload := log.filterMap Event.liveBlock?

/-! ### The verdict of the gates -/

/-- A reason is given where the order is refused, and only there. -/
def LiveGateResult.Reasoned (result : LiveGateResult) : Prop :=
  result.reason = none ↔ result.allowed = true

namespace LiveGateResult

theorem reasoned_blocked {reason : String} : (blocked reason).Reasoned := by
  simp [Reasoned, blocked]

/-- An early return gives its reason. -/
theorem reasoned_ite {c : Prop} [Decidable c] {reason : String} {rest : LiveGateResult}
    (h : rest.Reasoned) : (if c then blocked reason else rest).Reasoned := by
  by_cases hc : c
  · rw [if_pos hc]
    exact reasoned_blocked
  · rw [if_neg hc]
    exact h

end LiveGateResult

/-- **The gates give a reason exactly when they refuse.** -/
theorem reasoned_gates (cfg : Config) (intent : OrderIntent) (pairSpec : Option BitbankPairSpec)
    (status : Option BitbankStatus) (book : Option OrderBook) (risk : RiskDecision)
    (clockDriftMs : ℚ) (env : String → Option String) :
    (evaluateLiveOrderGates cfg intent pairSpec status book risk clockDriftMs env).Reasoned := by
  unfold evaluateLiveOrderGates
  cases pairSpec with
  | none =>
      iterate 5 apply LiveGateResult.reasoned_ite
      exact LiveGateResult.reasoned_blocked
  | some spec =>
      iterate 5 apply LiveGateResult.reasoned_ite
      show LiveGateResult.Reasoned (if _ then _ else _)
      iterate 14 apply LiveGateResult.reasoned_ite
      -- the last reasons are handed through from `validate_order`
      split
      · exact LiveGateResult.reasoned_blocked
      · simp [LiveGateResult.Reasoned]

/-! ### What the pipeline observes -/

/-- Every placement of a log is announced and blocked, each once, in order and under its own
identity, nothing else is, and every block has a reason. -/
structure ObservesPlacements (log : List Event) : Prop where
  distinct : ((placements log).map PlacedPayload.orderId).Nodup
  intents : (liveIntents log).map LiveOrderIntentPayload.clientOrderId
    = (placements log).map fun order => some order.orderId
  blocks : (liveBlocks log).map LiveOrderBlockedPayload.clientOrderId
    = (placements log).map fun order => some order.orderId
  reasons : ∀ block ∈ liveBlocks log, block.reason ≠ none

namespace Pipeline

variable (rt : Runtime) (cfg : Config) (decision : RiskDecision) (self : Pipeline)

/-- What is observed of a placement. -/
theorem observe_placed {out : Event} {order : PlacedPayload} (h : out.placed? = some order) :
    ∃ intent block, liveIntents (observe rt cfg decision self out) = [intent] ∧
      liveBlocks (observe rt cfg decision self out) = [block] ∧
      intent.clientOrderId = some order.orderId ∧ block.clientOrderId = some order.orderId ∧
      block.reason ≠ none := by
  unfold Event.placed? at h
  split at h
  · rename_i payload hbody
    obtain rfl := Option.some.inj h
    unfold observe
    rw [hbody]
    refine ⟨_, _, rfl, rfl, rfl, rfl, ?_⟩
    show (if _ then LiveGateResult.blocked "mvp_live_submission_disabled" else _ :
      LiveGateResult).reason ≠ none
    split
    · simp [LiveGateResult.blocked]
    · rename_i hrefused
      exact fun hnone => hrefused ((reasoned_gates _ _ _ _ _ _ _ _).mp hnone)
  · simp at h

theorem observe_other {out : Event} (h : out.placed? = none) :
    observe rt cfg decision self out = [] := by
  unfold observe
  unfold Event.placed? at h
  split
  · rename_i payload hbody
    rw [hbody] at h
    simp at h
  · rfl

/-- The events of the projector, one after the other. -/
theorem observe_all (events : List Event) :
    (liveIntents (events.flatMap (observe rt cfg decision self))).map
        LiveOrderIntentPayload.clientOrderId
      = (placements events).map (fun order => some order.orderId) ∧
    (liveBlocks (events.flatMap (observe rt cfg decision self))).map
        LiveOrderBlockedPayload.clientOrderId
      = (placements events).map (fun order => some order.orderId) ∧
    ∀ block ∈ liveBlocks (events.flatMap (observe rt cfg decision self)), block.reason ≠ none := by
  induction events with
  | nil => exact ⟨rfl, rfl, fun block h => absurd h List.not_mem_nil⟩
  | cons out rest ih =>
      obtain ⟨hintents, hblocks, hreasons⟩ := ih
      unfold liveIntents liveBlocks placements at *
      rw [List.flatMap_cons, List.filterMap_append, List.filterMap_append, List.map_append,
        List.map_append, hintents, hblocks]
      cases hplaced : out.placed? with
      | none =>
          rw [observe_other rt cfg decision self hplaced, List.filterMap_cons_none hplaced]
          exact ⟨rfl, rfl, hreasons⟩
      | some order =>
          obtain ⟨intent, block, hintent, hblock, hid, hid', hreason⟩ :=
            observe_placed rt cfg decision self hplaced
          unfold liveIntents at hintent
          unfold liveBlocks at hblock
          rw [hintent, hblock, List.filterMap_cons_some hplaced]
          refine ⟨by simp [hid], by simp [hid'], ?_⟩
          intro b hb
          rcases List.mem_cons.mp hb with rfl | hb
          · exact hreason
          · exact hreasons b hb

end Pipeline

/-! ### One call -/

namespace Pipeline

variable {rt : Runtime} {cfg : Config} {s s' : Pipeline} {event : Event} {out : List Event}

/-- Only the last events of a call can be live. -/
theorem Processed.not_live_before (step : Processed rt cfg s event s' out) :
    ∀ e ∈ markPriceEvents rt cfg event step.fairState ++ step.shockEvent.toList ++
      step.fillEvents ++ step.riskEvent :: step.projectorEvents, ¬ IsLive e := by
  intro e he
  unfold IsLive
  rw [List.mem_append, List.mem_append, List.mem_append, List.mem_cons] at he
  rcases he with ((he | he) | he) | rfl | he
  · unfold markPriceEvents at he
    split at he
    · rw [List.mem_singleton.mp he]
      simp
    · simp at he
  · obtain ⟨payload, hbody⟩ := body_shockEvent step.shock e (Option.mem_toList.mp he)
    simp [hbody]
  · obtain ⟨payload, hbody⟩ := step.fills.body e he
    simp [hbody]
  · obtain ⟨payload, hbody, -⟩ := step.riskBody
    simp [hbody]
  · obtain ⟨payload, hbody⟩ | ⟨payload, hbody⟩ := step.moves.body e he <;> simp [hbody]

/-- What looks at live events only sees what was observed of the projector's events. -/
theorem Processed.live_out (step : Processed rt cfg s event s' out) {α : Type}
    {part : Event → Option α} (hpart : ∀ e, ¬ IsLive e → part e = none) :
    out.filterMap part
      = (step.projectorEvents.flatMap (observe rt cfg s'.lastRisk s')).filterMap part := by
  have hbefore := List.filterMap_eq_nil_iff.mpr fun e he => hpart e (step.not_live_before e he)
  have hout := congrArg (List.filterMap part) step.out
  rw [← List.cons_append, ← List.append_assoc, List.filterMap_append, hbefore, List.nil_append,
    step.observed] at hout
  exact hout

theorem liveIntent?_of_not_live {e : Event} (h : ¬ IsLive e) : e.liveIntent? = none := by
  unfold Event.liveIntent?
  split
  · rename_i payload hbody
    exact absurd (Or.inl ⟨payload, hbody⟩) h
  · rfl

theorem liveBlock?_of_not_live {e : Event} (h : ¬ IsLive e) : e.liveBlock? = none := by
  unfold Event.liveBlock?
  split
  · rename_i payload hbody
    exact absurd (Or.inr ⟨payload, hbody⟩) h
  · rfl

/-- What a call places, the projector has placed. -/
theorem Processed.placements_out (step : Processed rt cfg s event s' out) :
    placements out = placements step.projectorEvents := by
  have hfills : placements step.fillEvents = [] := by
    refine List.filterMap_eq_nil_iff.mpr fun e he => ?_
    obtain ⟨payload, hbody⟩ := step.fills.body e he
    unfold Event.placed?
    rw [hbody]
  have hout : placements out
      = placements _ ++ placements _ ++ placements _ ++ placements _ ++ placements _ :=
    step.filterMap_out Event.placed?
  rw [hout, placements_quiet step.quiet_head, hfills, placements_quiet step.quiet_risk,
    placements_quiet fun e he => (step.liveBody e he).quiet]
  simp

/-- **A call observes what it places.** -/
theorem Processed.observes (step : Processed rt cfg s event s' out)
    (hdistinct : ((placements out).map PlacedPayload.orderId).Nodup) :
    ObservesPlacements out := by
  obtain ⟨hintents, hblocks, hreasons⟩ :=
    observe_all rt cfg s'.lastRisk s' step.projectorEvents
  have hintent : liveIntents out = _ := step.live_out fun e => liveIntent?_of_not_live
  have hblock : liveBlocks out = _ := step.live_out fun e => liveBlock?_of_not_live
  refine ⟨hdistinct, ?_, ?_, ?_⟩
  · rw [hintent, step.placements_out]
    exact hintents
  · rw [hblock, step.placements_out]
    exact hblocks
  · rw [hblock]
    exact hreasons

end Pipeline

/-- In every run each call observes what it places. -/
theorem observes_run {rt : Runtime} {cfg : Config}
    {steps : List (Machine.Step Pipeline Event (List Event))} {s : Pipeline}
    (h : Machine.Run (Pipeline.process rt cfg) (Pipeline.init cfg) steps s) :
    ∀ r ∈ steps, ObservesPlacements r.output := by
  intro r hr
  obtain ⟨step⟩ := Pipeline.process_ok (h.step_of_mem hr)
  refine step.observes (List.Nodup.sublist ?_ (tracks_run h).nodup_placements)
  obtain ⟨xs, ys, rfl⟩ := List.append_of_mem hr
  refine List.Sublist.map _ ?_
  unfold emittedOf
  rw [List.flatMap_append, List.flatMap_cons, placements_append, placements_append]
  exact (List.sublist_append_left _ _).trans (List.sublist_append_right _ _)

/-! ### The private client -/

/-- An order the private client gives back is blocked for a reason. -/
def BlockedForReason (event : Event) : Prop :=
  ∃ block, event.liveBlock? = some block ∧ block.reason ≠ none

theorem BitbankPrivateClient.blockedForReason_iff (rt : Runtime) (client : BitbankPrivateClient)
    (intent : OrderIntent) (pairSpec : Option BitbankPairSpec) (status : Option BitbankStatus)
    (book : Option OrderBook) (risk : RiskDecision) (clockDriftMs nowMs : ℚ) :
    BlockedForReason (client.createSpotLimitOrder rt intent pairSpec status book risk clockDriftMs
        nowMs) ↔
      ¬ Cleared client.config intent pairSpec status book risk clockDriftMs rt.environ := by
  have hgates := reasoned_gates client.config intent pairSpec status book risk clockDriftMs
    rt.environ
  unfold LiveGateResult.Reasoned at hgates
  rw [← allowed_iff_cleared, ← hgates]
  constructor
  · rintro ⟨block, hblock, hreason⟩
    obtain rfl := Option.some.inj hblock
    exact hreason
  · intro hreason
    exact ⟨_, rfl, hreason⟩

/--
**Every placement of a run is announced and blocked for a reason in the same call, whatever the
gates say; the private client gives a reason exactly where a gate is closed.**
-/
theorem placements_observed {rt : Runtime} {cfg : Config}
    {steps : List (Machine.Step Pipeline Event (List Event))} {s : Pipeline}
    (h : Machine.Run (Pipeline.process rt cfg) (Pipeline.init cfg) steps s)
    (client : BitbankPrivateClient) (intent : OrderIntent) (pairSpec : Option BitbankPairSpec)
    (status : Option BitbankStatus) (book : Option OrderBook) (risk : RiskDecision)
    (clockDriftMs nowMs : ℚ) :
    (∀ r ∈ steps, ObservesPlacements r.output) ∧
    (BlockedForReason (client.createSpotLimitOrder rt intent pairSpec status book risk clockDriftMs
        nowMs) ↔
      ¬ Cleared client.config intent pairSpec status book risk clockDriftMs rt.environ) :=
  ⟨observes_run h, client.blockedForReason_iff rt intent pairSpec status book risk clockDriftMs
    nowMs⟩

/-- An environment that accepts the risk and holds both credentials. -/
def openRuntime : Runtime :=
  { seriesRuntime with environ := fun name => (accepting.get? name).map Prod.snd }

/-- The flat quotes with live orders enabled and every confirmation given. -/
def openConfig : Config := { flatConfig with execution := enabledConfig.execution }

def normalStatusEvent (ts : ℚ) : Event :=
  marketEvent ts .absent (.bitbankStatus
    { pair := "btc_jpy", status := some "NORMAL", minAmount := some (some (1 / 10000)) })

/-- With every gate open the pipeline blocks its eight placements by itself. -/
theorem placements_observed_open_gates :
    let steps := Machine.stepsOf
      (Pipeline.exec openRuntime openConfig (normalStatusEvent 1000 :: quoteThenSell (3 / 2000)))
    (liveBlocks (emittedOf steps)).map LiveOrderBlockedPayload.reason
      = List.replicate 8 (some "mvp_live_submission_disabled") ∧
    (∀ r ∈ steps, ObservesPlacements r.output) ∧
    (BlockedForReason (BitbankPrivateClient.createSpotLimitOrder openRuntime ⟨openConfig⟩ smallBid
        (some fallbackSpec) none (some (askAt 104)) allowBoth 0 1000) ↔
      ¬ Cleared openConfig smallBid (some fallbackSpec) none (some (askAt 104)) allowBoth 0
        openRuntime.environ) :=
  ⟨by decide +kernel, placements_observed (Machine.run_exec (by decide +kernel)) ⟨openConfig⟩
    smallBid (some fallbackSpec) none (some (askAt 104)) allowBoth 0 1000⟩

/-- With every gate open the private client reports a blocked order and no reason. -/
theorem private_client_blocks_for_no_reason :
    let event := BitbankPrivateClient.createSpotLimitOrder openRuntime ⟨enabledConfig⟩ smallBid
      (some fallbackSpec) (some normalStatus) (some (askAt 104)) allowBoth 0 1000
    event.body.eventType = "live_order_blocked" ∧ ¬ BlockedForReason event := by
  refine ⟨rfl, ?_⟩
  rintro ⟨block, hblock, hreason⟩
  have hnone : (BitbankPrivateClient.createSpotLimitOrder openRuntime ⟨enabledConfig⟩ smallBid
      (some fallbackSpec) (some normalStatus) (some (askAt 104)) allowBoth 0 1000).liveBlock?.map
        LiveOrderBlockedPayload.reason = some none := by decide +kernel
  rw [hblock] at hnone
  exact hreason (Option.some.inj hnone)

end GhostAmm
