/-
What the risk diagnostics say.

The percentiles are order statistics: each is one of the values, and so many values are below it
and so many at most it as its rank says, which is the integer nearest to the quantile.  The
counts are a counter of the reasons of the blocked events, so they add up to the blocked events,
and the reason the recommendations start from is one that no other outnumbers.

For a run of the pipeline there is one `risk_state` for each call besides those that are in the
recording already, so that the diagnostics of its log count both, and they count as blocked what
the summary of the same log does.
-/
import GhostAmm.Model.RiskDiagnostics
import GhostAmm.Proofs.DryRun
import GhostAmm.Proofs.FairPrice
import GhostAmm.Proofs.Observed
import GhostAmm.Proofs.Reports
import GhostAmm.Proofs.Steps

namespace GhostAmm

open Py (Json Texts)
open Groups (firsts)

/-! ### Percentiles -/

/-- A value of a list that stands at a quantile of it: at a rank nearest to the quantile, so many
values are below it and more than so many at most it. -/
structure IsQuantile (values : List ℚ) (q x : ℚ) : Prop where
  mem : x ∈ values
  rank : ∃ rank : ℕ, |(values.length - 1) * q - rank| ≤ 1 / 2 ∧
    (values.countP fun v => decide (v < x)) ≤ rank ∧
    rank < values.countP fun v => decide (v ≤ x)

/-- The quantiles between the smallest value and the largest. -/
def Percentiles.quantiles (self : Percentiles) : List (ℚ × Option ℚ) :=
  [(10 / 100, self.p10), (25 / 100, self.p25), (50 / 100, self.p50), (75 / 100, self.p75),
   (90 / 100, self.p90), (95 / 100, self.p95), (99 / 100, self.p99)]

section Pick

variable {ordered : List ℚ} {q q' : ℚ}

/-- The rank `_pick` looks at. -/
def rankOf (ordered : List ℚ) (q : ℚ) : ℤ := Py.roundHalfEven (((ordered.length - 1 : ℤ) : ℚ) * q)

theorem rankOf_mono (hne : ordered ≠ []) (h : q ≤ q') : rankOf ordered q ≤ rankOf ordered q' := by
  have hlen : 0 < ordered.length := List.length_pos_iff.mpr hne
  refine Py.roundHalfEven_mono (mul_le_mul_of_nonneg_left h ?_)
  exact_mod_cast (by omega : (0 : ℤ) ≤ ordered.length - 1)

theorem rankOf_bounds (hne : ordered ≠ []) (hq : 0 ≤ q) (hq' : q ≤ 1) :
    0 ≤ rankOf ordered q ∧ rankOf ordered q ≤ ordered.length - 1 := by
  have hzero : rankOf ordered 0 = 0 := by
    unfold rankOf
    rw [mul_zero]
    exact Py.roundHalfEven_intCast 0
  have hone : rankOf ordered 1 = ordered.length - 1 := by
    unfold rankOf
    rw [mul_one]
    exact Py.roundHalfEven_intCast _
  rw [← hone, ← hzero]
  exact ⟨hzero ▸ rankOf_mono hne hq, rankOf_mono hne hq'⟩

/-- A quantile is picked at its rank. -/
theorem pick_eq (hne : ordered ≠ []) (hq : 0 ≤ q) (hq' : q ≤ 1) :
    ∃ h : (rankOf ordered q).toNat < ordered.length,
      pick ordered q = ordered[(rankOf ordered q).toNat] := by
  obtain ⟨hlow, hhigh⟩ := rankOf_bounds hne hq hq'
  have hlt : (rankOf ordered q).toNat < ordered.length := by
    have := List.length_pos_iff.mpr hne
    omega
  refine ⟨hlt, ?_⟩
  have hidx : min (max (rankOf ordered q) 0) (ordered.length - 1) = rankOf ordered q := by omega
  unfold pick
  show ordered.getD (min (max (rankOf ordered q) 0) (ordered.length - 1)).toNat 0 = _
  rw [hidx, List.getD_eq_getElem _ _ hlt]

theorem pick_mono (hsorted : ordered.Pairwise (· ≤ ·)) (hne : ordered ≠ []) (hq : 0 ≤ q)
    (hle : q ≤ q') (hq' : q' ≤ 1) : pick ordered q ≤ pick ordered q' := by
  obtain ⟨hlt, heq⟩ := pick_eq hne hq (hle.trans hq')
  obtain ⟨hlt', heq'⟩ := pick_eq hne (hq.trans hle) hq'
  rw [heq, heq']
  rcases Nat.lt_or_eq_of_le (Int.toNat_le_toNat (rankOf_mono hne hle)) with hrank | hrank
  · exact List.pairwise_iff_getElem.mp hsorted _ _ hlt hlt' hrank
  · simp only [hrank, le_refl]

end Pick

/-- What is picked from the sorted values is a quantile of the values. -/
theorem isQuantile_pick {values : List ℚ} {q : ℚ} (hne : values ≠ []) (hq : 0 ≤ q) (hq' : q ≤ 1) :
    IsQuantile values q (pick (values.insertionSort (· ≤ ·)) q) := by
  have hperm := List.perm_insertionSort (· ≤ ·) values
  have hsorted := List.pairwise_insertionSort (· ≤ ·) values
  generalize values.insertionSort (· ≤ ·) = ordered at hperm hsorted ⊢
  have hne' : ordered ≠ [] := by
    rintro rfl
    exact hne hperm.nil_eq.symm
  obtain ⟨hlt, heq⟩ := pick_eq hne' hq hq'
  obtain ⟨hlow, -⟩ := rankOf_bounds hne' hq hq'
  rw [heq]
  refine ⟨hperm.subset (List.getElem_mem hlt), (rankOf ordered q).toNat, ?_, ?_, ?_⟩
  · have hcast : ((rankOf ordered q).toNat : ℚ) = rankOf ordered q := by
      exact_mod_cast Int.toNat_of_nonneg hlow
    have hround := Py.abs_sub_roundHalfEven_le (((ordered.length - 1 : ℤ) : ℚ) * q)
    rw [hcast, ← hperm.length_eq]
    push_cast at hround
    unfold rankOf
    push_cast
    exact hround
  · rw [← hperm.countP_eq]
    exact Py.countP_lt_le hsorted hlt
  · rw [← hperm.countP_eq]
    exact Py.lt_countP_le hsorted hlt

/-- The quantiles that are picked. -/
def pickedQuantiles : List ℚ :=
  [10 / 100, 25 / 100, 50 / 100, 75 / 100, 90 / 100, 95 / 100, 99 / 100]

theorem quantiles_percentiles {values : List ℚ} (hne : values ≠ []) :
    (percentiles values).quantiles
      = pickedQuantiles.map fun q => (q, some (pick (values.insertionSort (· ≤ ·)) q)) := by
  unfold percentiles
  rw [if_neg (by simpa using hne)]
  rfl

theorem percentiles_perm {values other : List ℚ} (h : other.Perm values) :
    percentiles other = percentiles values := by
  have hempty : other.isEmpty = values.isEmpty := by
    rw [Bool.eq_iff_iff, List.isEmpty_iff, List.isEmpty_iff]
    exact ⟨fun hnil => (hnil ▸ h).nil_eq.symm, fun hnil => (hnil ▸ h).eq_nil⟩
  unfold percentiles
  rw [hempty, Py.insertionSort_eq_of_perm h]

/--
**The percentiles are order statistics of the values.**  The smallest and the largest bound them,
the others are values at their quantiles and do not fall from one to the next, and none depends on
the order the values came in.
-/
theorem percentiles_exact {values : List ℚ} (hne : values ≠ []) :
    let result := percentiles values
    result.count = values.length ∧
    (∃ least ∈ values, result.p0 = some least ∧ ∀ v ∈ values, least ≤ v) ∧
    (∃ greatest ∈ values, result.max = some greatest ∧ ∀ v ∈ values, v ≤ greatest) ∧
    (∀ entry ∈ result.quantiles, ∃ x, entry.2 = some x ∧ IsQuantile values entry.1 x) ∧
    (result.quantiles.map Prod.snd).reduceOption.Pairwise (· ≤ ·) ∧
    ∀ other, other.Perm values → percentiles other = result := by
  have hperm := List.perm_insertionSort (· ≤ ·) values
  have hsorted := List.pairwise_insertionSort (· ≤ ·) values
  have hordered : values.insertionSort (· ≤ ·) ≠ [] := by
    intro hnil
    rw [hnil] at hperm
    exact hne hperm.nil_eq.symm
  have hunit : ∀ q ∈ pickedQuantiles, 0 ≤ q ∧ q ≤ 1 := by decide +kernel
  dsimp only
  rw [quantiles_percentiles hne]
  refine ⟨?_, ?_, ?_, ?_, ?_, fun other => percentiles_perm⟩
  · unfold percentiles
    rw [if_neg (by simpa using hne)]
    exact congrArg Nat.cast hperm.length_eq
  · obtain ⟨least, rest, heq⟩ := List.exists_cons_of_ne_nil hordered
    refine ⟨least, hperm.subset (heq ▸ List.mem_cons_self), ?_, fun v hv => ?_⟩
    · unfold percentiles
      rw [if_neg (by simpa using hne)]
      exact congrArg List.head? heq
    · have hmem := hperm.symm.subset hv
      rw [heq] at hmem hsorted
      rcases List.mem_cons.mp hmem with rfl | hmem
      · exact le_refl _
      · exact (List.pairwise_cons.mp hsorted).1 v hmem
  · refine ⟨_, hperm.subset (List.getLast_mem hordered), ?_, fun v hv => ?_⟩
    · unfold percentiles
      rw [if_neg (by simpa using hne)]
      exact List.getLast?_eq_some_getLast hordered
    · exact hsorted.rel_getLast (hperm.symm.subset hv)
  · intro entry hentry
    obtain ⟨q, hq, rfl⟩ := List.mem_map.mp hentry
    exact ⟨_, rfl, isQuantile_pick hne (hunit q hq).1 (hunit q hq).2⟩
  · have hpicked : ((pickedQuantiles.map fun q =>
        (q, some (pick (values.insertionSort (· ≤ ·)) q))).map Prod.snd).reduceOption
        = pickedQuantiles.map (pick (values.insertionSort (· ≤ ·))) := rfl
    have hrising : pickedQuantiles.Pairwise (· ≤ ·) := by decide +kernel
    rw [hpicked, List.pairwise_map]
    refine hrising.imp_of_mem fun hq hq' hle => ?_
    exact pick_mono hsorted hordered (hunit _ hq).1 hle (hunit _ hq').2

/-- Of five values the tenth percentile is the smallest: half a rank is rounded to the even one. -/
theorem percentiles_exact_five :
    (percentiles [5, 3, 1, 4, 2]).p10 = some 1 ∧ (percentiles [5, 3, 1, 4, 2]).p50 = some 3 ∧
      IsQuantile [5, 3, 1, 4, 2] (50 / 100) 3 := by
  obtain ⟨-, -, -, hquantiles, -⟩ := @percentiles_exact [5, 3, 1, 4, 2] (by simp)
  obtain ⟨x, hx, hquantile⟩ := hquantiles (50 / 100, (percentiles [5, 3, 1, 4, 2]).p50)
    (by simp [Percentiles.quantiles])
  have hmedian : (percentiles [5, 3, 1, 4, 2]).p50 = some 3 := by decide +kernel
  obtain rfl : 3 = x := Option.some.inj (hmedian.symm.trans hx)
  exact ⟨by decide +kernel, hmedian, hquantile⟩

/-! ### The counts -/

/-- The reason of a blocked event. -/
def blockOf (texts : Texts) (payload : List (String × Json)) : Option String :=
  if (Json.get payload "allow_quote").truthy then none else some (blockReason texts payload)

/-- The number a payload has under a key. -/
def valueOf (texts : Texts) (key : String) (payload : List (String × Json)) : Option ℚ :=
  seriesValue texts (Json.get payload key)

section Tally

variable {texts : Texts} {payloads : List (List (String × Json))}

theorem add_reasonCounts (tally : RiskTally) (payload : List (String × Json)) :
    (tally.add texts payload).reasonCounts
      = Groups.addTo (blockOf texts) 0 (fun n _ => n + 1) tally.reasonCounts payload := by
  unfold RiskTally.add Groups.addTo blockOf
  by_cases hallow : (Json.get payload "allow_quote").truthy = true <;> simp [hallow]

theorem allowQuote_tally :
    (payloads.foldl (RiskTally.add texts) {}).allowQuote
      = payloads.countP fun payload => (Json.get payload "allow_quote").truthy := by
  have hfold : ∀ tally : RiskTally, (payloads.foldl (RiskTally.add texts) tally).allowQuote
      = tally.allowQuote + payloads.countP fun payload =>
          (Json.get payload "allow_quote").truthy := by
    induction payloads with
    | nil => intro tally; rfl
    | cons payload rest ih =>
        intro tally
        rw [List.foldl_cons, ih, List.countP_cons]
        unfold RiskTally.add
        by_cases hallow : (Json.get payload "allow_quote").truthy = true
        · simp [hallow]
          omega
        · simp [hallow]
  rw [hfold]
  exact Nat.zero_add _

theorem reasonCounts_tally :
    (payloads.foldl (RiskTally.add texts) {}).reasonCounts
      = Groups.counter (payloads.filterMap (blockOf texts)) := by
  rw [Groups.gather_of_step add_reasonCounts payloads rfl, Groups.counter_filterMap]

theorem series_tally :
    (payloads.foldl (RiskTally.add texts) {}).series
      = seriesKeys.map fun key => (key, payloads.filterMap (valueOf texts key)) := by
  induction payloads using List.reverseRecOn with
  | nil => rfl
  | append_singleton before payload ih =>
      rw [List.foldl_append, List.foldl_cons, List.foldl_nil]
      have hseries : ∀ tally : RiskTally, (tally.add texts payload).series
          = tally.series.map fun entry =>
              (entry.1, entry.2 ++ (valueOf texts entry.1 payload).toList) := by
        intro tally
        unfold RiskTally.add valueOf
        by_cases hallow : (Json.get payload "allow_quote").truthy = true <;> simp [hallow]
      rw [hseries, ih, List.map_map]
      refine List.map_congr_left fun key _ => ?_
      rw [List.filterMap_append]
      cases hvalue : valueOf texts key payload <;> simp [hvalue]

theorem countP_allow_add (texts : Texts) (payloads : List (List (String × Json))) :
    (payloads.countP fun payload => (Json.get payload "allow_quote").truthy)
      + (payloads.filterMap (blockOf texts)).length = payloads.length := by
  induction payloads with
  | nil => rfl
  | cons payload rest ih =>
      unfold blockOf at ih ⊢
      by_cases hallow : (Json.get payload "allow_quote").truthy = true <;>
        simp [hallow] <;> omega

end Tally

/-- The diagnostics of some payloads. -/
def diagnosticsOf (texts : Texts) (payloads : List (List (String × Json))) : RiskDiagnostics :=
  let reasons := payloads.filterMap (blockOf texts)
  let counts := Groups.mostCommon (Groups.counter reasons)
  let all := seriesKeys.map fun key => (key, percentiles (payloads.filterMap (valueOf texts key)))
  { totalRiskEvents := payloads.length
    allowQuoteEvents := payloads.length - reasons.length
    blockedEvents := reasons.length
    reasonCounts := counts
    percentiles := all
    recommendations := recommend texts counts all }

/-- What the analysis makes of a log whose risk payloads are dictionaries. -/
theorem analyzeRiskBlocks_eq (texts : Texts) {events : List JsonEvent}
    {payloads : List (List (String × Json))}
    (h : (events.filter JsonEvent.isRiskState).mapM JsonEvent.payloadDict = .ok payloads) :
    analyzeRiskBlocks texts events = .ok (diagnosticsOf texts payloads) := by
  have hcount := countP_allow_add texts payloads
  unfold analyzeRiskBlocks
  rw [h]
  show Except.ok _ = _
  unfold diagnosticsOf
  rw [allowQuote_tally, reasonCounts_tally, series_tally, List.map_map]
  have hallow : (payloads.countP fun payload => (Json.get payload "allow_quote").truthy)
      = payloads.length - (payloads.filterMap (blockOf texts)).length := by omega
  have hblocked : payloads.length
      - (payloads.countP fun payload => (Json.get payload "allow_quote").truthy)
        = (payloads.filterMap (blockOf texts)).length := by omega
  rw [hblocked, hallow]
  rfl

/--
**The diagnostics count each risk event once.**  They are given unless a payload is no dictionary;
the events that allow quoting and the blocked ones add up to all of them, the reason counts add up
to the blocked ones, each is how often its reason occurs, and none comes after a smaller one or,
where they are equal, after a reason first met later.
-/
theorem diagnostics_account (texts : Texts) (events : List JsonEvent) :
    match (events.filter JsonEvent.isRiskState).mapM JsonEvent.payloadDict with
    | .error e => analyzeRiskBlocks texts events = .error e
    | .ok payloads => ∃ result, analyzeRiskBlocks texts events = .ok result ∧
        let reasons := payloads.filterMap (blockOf texts)
        let counted := (firsts reasons).map fun reason => (reason, reasons.count reason)
        result.totalRiskEvents = payloads.length ∧
        result.allowQuoteEvents + result.blockedEvents = result.totalRiskEvents ∧
        result.blockedEvents = reasons.length ∧
        (result.reasonCounts.map Prod.snd).sum = result.blockedEvents ∧
        result.reasonCounts.Perm counted ∧
        (result.reasonCounts.Pairwise fun a b => b.2 ≤ a.2) ∧
        (∀ a b, b.2 ≤ a.2 → [a, b].Sublist counted → [a, b].Sublist result.reasonCounts) ∧
        result.percentiles = seriesKeys.map fun key =>
          (key, percentiles (payloads.filterMap (valueOf texts key))) := by
  cases hpayloads : (events.filter JsonEvent.isRiskState).mapM JsonEvent.payloadDict with
  | error e =>
      show analyzeRiskBlocks texts events = .error e
      unfold analyzeRiskBlocks
      rw [hpayloads]
      rfl
  | ok payloads =>
      have hcount := countP_allow_add texts payloads
      have hrows := Groups.rows_counter (payloads.filterMap (blockOf texts))
      have hperm := Groups.perm_mostCommon (Groups.counter (payloads.filterMap (blockOf texts)))
      refine ⟨_, analyzeRiskBlocks_eq texts hpayloads, rfl, ?_, rfl, ?_, ?_, ?_, ?_, rfl⟩
      · show payloads.length - (payloads.filterMap (blockOf texts)).length
          + (payloads.filterMap (blockOf texts)).length = payloads.length
        omega
      · exact (hperm.map Prod.snd).sum_eq.trans (Groups.sum_counter _)
      · rw [← hrows]
        exact hperm
      · exact Groups.pairwise_mostCommon _
      · intro a b hle hsub
        rw [← hrows] at hsub
        exact Groups.sublist_mostCommon hle hsub

/-! ### The risk states of a run -/

/-- What a `risk_state` event tells of the state a call leaves. -/
def Pipeline.snapshot (cfg : Config) (s : Pipeline) : RiskStatePayload where
  decision := s.lastRisk
  shock := s.lastShock
  fair := s.lastFair
  bookSpreadBps := s.book.spreadBps
  bookDepth20bps := s.book.depthAroundMid 20
  bookStale := s.book.stale
  bookStaleReason := s.book.staleReason
  inventorySkew := s.inventory.skew cfg.inventory s.lastFair.fair

/-- An event of another type than `risk_state`. -/
def Event.Riskless (event : Event) : Prop := event.body.eventType ≠ "risk_state"

theorem Pipeline.IsLive.riskless {event : Event} (h : Pipeline.IsLive event) :
    event.Riskless := by
  obtain ⟨payload, hbody⟩ | ⟨payload, hbody⟩ := h <;>
    simp [Event.Riskless, hbody, Body.eventType]

namespace Pipeline

variable {rt : Runtime} {cfg : Config}

/-- `requote` reports the state it leaves, and nothing else it emits is a risk state. -/
theorem requote_riskState (self : Pipeline) (event : Event) (shockState : ShockState)
    (hshock : self.lastShock = shockState) :
    ∃ riskEvent more, (self.requote rt cfg event self.lastFair shockState).2 = riskEvent :: more ∧
      riskEvent.body = .riskState
        ((self.requote rt cfg event self.lastFair shockState).1.snapshot cfg) ∧
      ∀ e ∈ more, e.Riskless := by
  subst hshock
  obtain ⟨decision, projector, projectorEvents, -, live, hdecision, hsync, -, -, hlive⟩ :=
    requote_eq rt cfg self event self.lastFair self.lastShock
  subst hdecision
  unfold requote
  simp only [trackOrders_state, trackOrders_observed]
  refine ⟨_, _, rfl, rfl, ?_⟩
  show ∀ e ∈ (self.projector.sync rt cfg.execution (market cfg)
      (self.quotes rt cfg self.lastFair self.lastShock) self.book
      (self.risk.evaluate cfg (self.riskInput event self.lastFair self.lastShock)).2
      event.tsExchange).2 ++ _, _
  rw [hsync]
  intro e he
  rcases List.mem_append.mp he with he | he
  · obtain ⟨payload, hbody⟩ | ⟨payload, hbody⟩ := (sync_moves_of_eq hsync).body e he <;>
      simp [Event.Riskless, hbody, Body.eventType]
  · obtain ⟨out, -, he⟩ := List.mem_flatMap.mp he
    exact (observe_live e he).riskless

/-- **A call that returns reports the state it leaves, once.** -/
theorem process_riskState {s s' : Pipeline} {event : Event} {out : List Event}
    (h : process rt cfg s event = (s', .ok out)) :
    ∃ before riskEvent after, out = before ++ riskEvent :: after ∧
      riskEvent.body = .riskState (s'.snapshot cfg) ∧ (∀ e ∈ before, e.Riskless) ∧
      ∀ e ∈ after, e.Riskless := by
  have hcourse := process_course rt cfg s event
  rw [h] at hcourse
  cases hcourse with
  | @returned fairState paid hbook hfair happly =>
      obtain rfl := applyFills_ok happly
      obtain ⟨riskEvent, more, hmore, hbody, hriskless⟩ := @requote_riskState rt cfg
        ((s.atFills rt cfg event fairState).settled cfg
          (GhostAmm.fills (s.fillEventsAt rt cfg event fairState))) event
        (s.shockAt rt cfg event fairState).2.1 rfl
      have hmore' : (((s.atFills rt cfg event fairState).settled cfg
          (GhostAmm.fills (s.fillEventsAt rt cfg event fairState))).requote rt cfg event fairState
            (s.shockAt rt cfg event fairState).2.1).2 = riskEvent :: more := hmore
      rw [hmore']
      refine ⟨_, riskEvent, more, rfl, hbody, ?_, hriskless⟩
      intro e he
      rcases List.mem_append.mp he with he | he
      · rcases List.mem_append.mp he with he | he
        · unfold markPriceEvents at he
          split at he
          · rw [List.mem_singleton.mp he]
            simp [Event.Riskless, makeEvent, Body.eventType]
          · simp at he
        · obtain ⟨payload, hbody⟩ := @body_shockEvent rt cfg.shock _
            (s.shockAt rt cfg event fairState).1 _ _ _ (s.shockAt rt cfg event fairState).2.1 _ rfl e
            (Option.mem_toList.mp he)
          simp [Event.Riskless, hbody, Body.eventType]
      · have htraded := ConservativeQueueFillModel.onMarketEvent_spec rt cfg.fillModel
          (s.ingestMetadata cfg event).fillModel event fairState
        obtain ⟨payload, hbody⟩ := htraded.body e he
        simp [Event.Riskless, hbody, Body.eventType]

end Pipeline

/-! ### The diagnostics of a replay -/

/-- The payloads of risk events: the pipeline writes its states, and whatever else is written
refuses to quote. -/
structure RiskPayloads (payloadOf : Event → List (String × Json)) : Prop where
  state : ∀ event payload, event.body = .riskState payload → payloadOf event = payload.toDict
  refusal : ∀ event, event.body = .other "risk_state" →
    (Json.get (payloadOf event) "allow_quote").truthy = false

/-- The payload of an event, if it is a risk event. -/
def riskPayload? (payloadOf : Event → List (String × Json)) (event : Event) :
    Option (List (String × Json)) :=
  if event.body.eventType = "risk_state" then some (payloadOf event) else none

/-- An event on disk, as far as the diagnostics read it: its type, and the payload of a risk
event. -/
structure RecordsRisk (payloadOf : Event → List (String × Json)) (event : Event)
    (onDisk : JsonEvent) : Prop where
  eventType : onDisk.eventType = .str event.body.eventType
  payload : ∀ fields, riskPayload? payloadOf event = some fields → onDisk.payload = .obj fields

/-- The number a risk state has under a key of the diagnostics. -/
def RiskStatePayload.value (self : RiskStatePayload) : String → Option ℚ
  | "activation" => some self.shock.activation
  | "bid_activation" => some self.shock.bidActivation
  | "ask_activation" => some self.shock.askActivation
  | "force_ratio" => some self.shock.forceRatio
  | "depth_20bps" => some self.shock.depth20bps
  | "spread_bps" => self.fair.spreadBps
  | "book_spread_bps" => self.bookSpreadBps
  | "inventory_skew" => self.inventorySkew
  | _ => none

/-- The reason the diagnostics give for a decision that refuses. -/
def RiskDecision.blockReason? (decision : RiskDecision) : Option String :=
  if decision.allowQuote then none else some (Py.textOr decision.reason "unknown")

section Replay

variable {texts : Texts} {payloadOf : Event → List (String × Json)}

theorem valueOf_toDict (payload : RiskStatePayload) :
    ∀ key ∈ seriesKeys, valueOf texts key payload.toDict = payload.value key := by
  unfold seriesKeys valueOf RiskStatePayload.toDict RiskDecision.toDict
  simp only [List.forall_mem_cons]
  refine ⟨rfl, rfl, rfl, rfl, rfl, ?_, ?_, ?_, by simp⟩ <;>
    simp [Json.get, RiskStatePayload.value, seriesValue_number]

theorem blockOf_toDict (payload : RiskStatePayload) :
    blockOf texts payload.toDict = payload.decision.blockReason? := by
  have hallow : (Json.get payload.toDict "allow_quote") = .bool payload.decision.allowQuote := by
    simp [Json.get, RiskStatePayload.toDict, RiskDecision.toDict]
  have hreason : (Json.get payload.toDict "reason") = jsonText? payload.decision.reason := by
    simp [Json.get, RiskStatePayload.toDict, RiskDecision.toDict]
  unfold blockOf RiskDecision.blockReason? blockReason
  rw [hallow, hreason]
  cases payload.decision.allowQuote with
  | true => rfl
  | false =>
      show some _ = some _
      congr 1
      unfold Py.textOr
      cases payload.decision.reason with
      | none => rfl
      | some reason =>
          show texts.strOf (if decide (reason ≠ "") then _ else _) = _
          by_cases hempty : reason = ""
          · simp [hempty]
            rfl
          · simp [hempty]
            rfl

theorem Event.Riskless.no_payload {event : Event} (h : event.Riskless) :
    riskPayload? payloadOf event = none := if_neg h

theorem RiskPayloads.of_state (hpayloads : RiskPayloads payloadOf) {event : Event}
    {payload : RiskStatePayload} (hbody : event.body = .riskState payload) :
    riskPayload? payloadOf event = some payload.toDict := by
  have hname : event.body.eventType = "risk_state" := by
    rw [hbody]
    rfl
  rw [riskPayload?, if_pos hname, hpayloads.state event payload hbody]

/-- The summary counts an event as blocked if the diagnostics have a reason for it. -/
theorem RiskPayloads.isSome_blockOf (hpayloads : RiskPayloads payloadOf) (event : Event) :
    ((riskPayload? payloadOf event).bind (blockOf texts)).isSome = isBlockedQuote event := by
  unfold isBlockedQuote
  cases hbody : event.body with
  | riskState payload =>
      rw [hpayloads.of_state hbody, Option.bind_some, blockOf_toDict]
      show payload.decision.blockReason?.isSome = !payload.decision.allowQuote
      unfold RiskDecision.blockReason?
      cases payload.decision.allowQuote <;> rfl
  | other eventType =>
      by_cases hname : eventType = "risk_state"
      · subst hname
        have hrefused := hpayloads.refusal event hbody
        simp [riskPayload?, blockOf, hbody, Body.eventType, hrefused]
      · simp [riskPayload?, hbody, Body.eventType, hname]
  | _ => simp [riskPayload?, hbody, Body.eventType]

/-- The risk payloads of a log on disk. -/
theorem payloads_onDisk {log : List Event} {onDisk : List JsonEvent}
    (hdisk : List.Forall₂ (RecordsRisk payloadOf) log onDisk) :
    (onDisk.filter JsonEvent.isRiskState).mapM JsonEvent.payloadDict
      = .ok (log.filterMap (riskPayload? payloadOf)) := by
  induction hdisk with
  | nil => rfl
  | @cons event line log onDisk hline _ ih =>
      have htype : line.isRiskState = decide (event.body.eventType = "risk_state") := by
        unfold JsonEvent.isRiskState
        rw [hline.eventType]
      rw [List.filter_cons, htype, List.filterMap_cons]
      by_cases hrisk : event.body.eventType = "risk_state"
      · have hpayload : riskPayload? payloadOf event = some (payloadOf event) := if_pos hrisk
        rw [hpayload, decide_eq_true hrisk, if_pos rfl, List.mapM_cons, ih]
        unfold JsonEvent.payloadDict
        rw [hline.payload _ hpayload]
        rfl
      · have hpayload : riskPayload? payloadOf event = none := if_neg hrisk
        rw [hpayload, decide_eq_false hrisk]
        exact ih

theorem riskPayloads_riskless {events : List Event} (h : ∀ e ∈ events, e.Riskless) :
    events.filterMap (riskPayload? payloadOf) = [] :=
  List.filterMap_eq_nil_iff.mpr fun e he => (h e he).no_payload

/-- The log of a run has the risk state of each of its calls, after the one that the call's event
itself may be. -/
theorem riskPayloads_logOf (hpayloads : RiskPayloads payloadOf) {rt : Runtime} {cfg : Config}
    {steps : List (Machine.Step Pipeline Event (List Event))}
    (hsteps : ∀ r ∈ steps, Pipeline.process rt cfg r.before r.input = (r.after, .ok r.output)) :
    (logOf steps).filterMap (riskPayload? payloadOf) = steps.flatMap fun r =>
      (riskPayload? payloadOf r.input).toList ++ [(r.after.snapshot cfg).toDict] := by
  unfold logOf
  rw [List.filterMap_flatMap]
  refine List.flatMap_congr fun r hr => ?_
  obtain ⟨before, riskEvent, after, hout, hbody, hbefore, hafter⟩ :=
    Pipeline.process_riskState (hsteps r hr)
  have hcall : r.output.filterMap (riskPayload? payloadOf) = [(r.after.snapshot cfg).toDict] := by
    rw [hout, List.filterMap_append, riskPayloads_riskless hbefore, List.nil_append,
      List.filterMap_cons, hpayloads.of_state hbody, riskPayloads_riskless hafter]
  rw [← hcall, List.filterMap_cons]
  cases riskPayload? payloadOf r.input <;> rfl

/-- Each call adds one to the risk events that are among its events. -/
theorem length_riskPayloads {cfg : Config}
    (steps : List (Machine.Step Pipeline Event (List Event))) :
    (steps.flatMap fun r =>
      (riskPayload? payloadOf r.input).toList ++ [(r.after.snapshot cfg).toDict]).length
        = steps.length + (steps.map Machine.Step.input).countP fun e =>
            decide (e.body.eventType = "risk_state") := by
  induction steps with
  | nil => rfl
  | cons r rest ih =>
      rw [List.flatMap_cons, List.length_append, ih, List.map_cons, List.countP_cons,
        List.length_cons]
      unfold riskPayload?
      by_cases hrisk : r.input.body.eventType = "risk_state" <;> simp [hrisk] <;> omega

/-- What the diagnostics pick from the payloads: call by call that of the event, if it is a risk
event, and then that of the state. -/
theorem picked_riskPayloads {α : Type} {cfg : Config} (pick : List (String × Json) → Option α)
    {own : Pipeline → Option α} (hown : ∀ s : Pipeline, pick (s.snapshot cfg).toDict = own s)
    (steps : List (Machine.Step Pipeline Event (List Event))) :
    (steps.flatMap fun r =>
      (riskPayload? payloadOf r.input).toList ++ [(r.after.snapshot cfg).toDict]).filterMap pick
        = steps.flatMap fun r =>
            ((riskPayload? payloadOf r.input).bind pick).toList ++ (own r.after).toList := by
  rw [List.filterMap_flatMap]
  refine List.flatMap_congr fun r _ => ?_
  have hstate : [(r.after.snapshot cfg).toDict].filterMap pick = (own r.after).toList := by
    rw [← hown]
    cases hpick : pick (r.after.snapshot cfg).toDict <;> simp [hpick]
  rw [List.filterMap_append, hstate]
  cases riskPayload? payloadOf r.input with
  | none => rfl
  | some fields => cases hfields : pick fields <;> simp [hfields]

/-- Enriching the fills leaves the risk events alone. -/
theorem riskPayload?_enrichEvent (points : List (ℚ × ℚ)) (event : Event) :
    riskPayload? payloadOf (enrichEvent points event) = riskPayload? payloadOf event := by
  unfold enrichEvent
  split
  · rename_i payload hbody
    simp [riskPayload?, hbody, Body.eventType]
  · rfl

theorem riskPayloads_enrichFairAfter (log : List Event) :
    (enrichFairAfter log).filterMap (riskPayload? payloadOf)
      = log.filterMap (riskPayload? payloadOf) := by
  unfold enrichFairAfter
  dsimp only
  split
  · rfl
  · rw [List.filterMap_map]
    exact List.filterMap_congr fun e _ => riskPayload?_enrichEvent _ e

/-- A replay that is not refused called the pipeline once for each event of the recording. -/
theorem perm_replayed {rt : Runtime} {cfg : Config} {events : List Event}
    {replayOrder : Option String} {strictSequence : Option Bool} {report : ReplayEngine.Report}
    (h : ReplayEngine.runFiles rt cfg events replayOrder strictSequence = .ok report) :
    ((ReplayEngine.replayed rt cfg events replayOrder).map Machine.Step.input).Perm events := by
  have hordered : ∀ used ordered, orderEvents cfg.replay events replayOrder = .ok (used, ordered) →
      ordered.Perm events := by
    intro used ordered horder
    unfold orderEvents at horder
    dsimp only at horder
    repeat' split at horder
    · simp at horder
    · simp at horder
    · rw [← (Prod.mk.inj (Except.ok.inj horder)).2]
      exact List.perm_insertionSort _ events
    · rw [← (Prod.mk.inj (Except.ok.inj horder)).2]
  unfold ReplayEngine.runFiles at h
  split at h
  · simp at h
  · rename_i s output hrun
    unfold ReplayEngine.run at hrun
    unfold ReplayEngine.replayed
    cases horder : orderEvents cfg.replay events replayOrder with
    | error e => simp [horder] at hrun
    | ok ordered =>
        simp only [horder] at hrun ⊢
        split at hrun
        · simp at hrun
        · split at hrun
          · simp at hrun
          · rename_i s' steps hexec
            have hsteps : Machine.stepsOf (Pipeline.exec rt cfg ordered.2) = steps := by
              unfold Pipeline.exec
              rw [hexec]
              rfl
            rw [hsteps, (Machine.exec_run hexec).2]
            exact hordered ordered.1 ordered.2 horder

/--
**The diagnostics of a replay are those of its calls and of the risk events of the recording.**
The analysis of the log that `run_files` wrote is given.  It counts one risk event for each event
of the recording and one more for each that is a risk event itself, such as those the recorder
writes, and it counts as blocked what the summary of the same log does.  Its reason counts are a
counter of the reasons, and its percentiles those of the numbers, of these events in the order of
the log: for each call first the event, if it is one, and then the state the call left.
-/
theorem diagnostics_of_replay {rt : Runtime} {cfg : Config} {events : List Event}
    {replayOrder : Option String} {strictSequence : Option Bool} {report : ReplayEngine.Report}
    {onDisk : List JsonEvent}
    (h : ReplayEngine.runFiles rt cfg events replayOrder strictSequence = .ok report)
    (hpayloads : RiskPayloads payloadOf)
    (hdisk : List.Forall₂ (RecordsRisk payloadOf) report.events onDisk) :
    ∃ result, analyzeRiskBlocks texts onDisk = .ok result ∧
      let steps := ReplayEngine.replayed rt cfg events replayOrder
      result.totalRiskEvents =
        events.length + events.countP (fun e => decide (e.body.eventType = "risk_state")) ∧
      result.blockedEvents = report.summary.riskBlockedQuoteCount ∧
      result.reasonCounts = Groups.mostCommon (Groups.counter (steps.flatMap fun r =>
        ((riskPayload? payloadOf r.input).bind (blockOf texts)).toList ++
          r.after.lastRisk.blockReason?.toList)) ∧
      result.percentiles = seriesKeys.map fun key => (key, percentiles (steps.flatMap fun r =>
        ((riskPayload? payloadOf r.input).bind (valueOf texts key)).toList ++
          ((r.after.snapshot cfg).value key).toList)) := by
  obtain ⟨s, -, hrun, hlog, hsummary⟩ := ReplayEngine.runFiles_ok h
  have hperm := perm_replayed h
  have hpayload : report.events.filterMap (riskPayload? payloadOf)
      = (ReplayEngine.replayed rt cfg events replayOrder).flatMap fun r =>
          (riskPayload? payloadOf r.input).toList ++ [(r.after.snapshot cfg).toDict] := by
    rw [hlog, riskPayloads_enrichFairAfter]
    exact riskPayloads_logOf hpayloads fun r hr => hrun.step_of_mem hr
  refine ⟨_, analyzeRiskBlocks_eq texts (payloads_onDisk hdisk), ?_, ?_, ?_, ?_⟩
  · show (report.events.filterMap (riskPayload? payloadOf)).length = _
    rw [hpayload, length_riskPayloads, hperm.countP_eq, ← hperm.length_eq, List.length_map]
  · show ((report.events.filterMap (riskPayload? payloadOf)).filterMap (blockOf texts)).length = _
    rw [hsummary]
    show _ = report.events.countP isBlockedQuote
    rw [List.filterMap_filterMap, List.length_filterMap_eq_countP]
    exact List.countP_congr fun e _ => by rw [hpayloads.isSome_blockOf]
  · show Groups.mostCommon (Groups.counter _) = _
    have hreasons : ∀ s : Pipeline,
        blockOf texts (s.snapshot cfg).toDict = s.lastRisk.blockReason? := fun _ => blockOf_toDict _
    rw [hpayload, picked_riskPayloads _ hreasons]
  · show (seriesKeys.map fun key => (key, percentiles
      ((report.events.filterMap (riskPayload? payloadOf)).filterMap (valueOf texts key)))) = _
    refine List.map_congr_left fun key hkey => ?_
    have hvalues : ∀ s : Pipeline,
        valueOf texts key (s.snapshot cfg).toDict = (s.snapshot cfg).value key :=
      fun _ => valueOf_toDict _ key hkey
    rw [hpayload, picked_riskPayloads _ hvalues]

end Replay

/-- The payload of a refusal of the recorder. -/
private def refusalPayload : Event → List (String × Json) := fun event =>
  match event.body with
  | .riskState payload => payload.toDict
  | _ => [("allow_quote", .bool false), ("allow_buy", .bool false), ("allow_sell", .bool false),
      ("reason", .str "metadata_fetch_failed:URLError")]

/-- An event as it is on disk. -/
private def onDisk (event : Event) : JsonEvent where
  cls := "Event"
  eventId := .str event.eventId
  tsExchange := .float event.tsExchange
  tsLocal := .float event.tsLocal
  venue := .str event.venue
  symbol := .str event.symbol
  eventType := .str event.body.eventType
  sequence := .null
  payload := .obj (refusalPayload event)
  rawPayload := .null

/-- A recording that begins with a refusal of the recorder, and the bid that is sold into. -/
def refusedThenSell : List Event :=
  marketEvent 1000 .absent (.other "risk_state") :: quoteThenSell (3 / 2000)

theorem diagnostics_of_replay_refusedThenSell :
    ∃ report,
      ReplayEngine.runFiles seriesRuntime flatConfig refusedThenSell none none = .ok report ∧
      ∃ result, analyzeRiskBlocks plainTexts (report.events.map onDisk) = .ok result ∧
        result.totalRiskEvents = 6 ∧
        result.blockedEvents = report.summary.riskBlockedQuoteCount := by
  have hok : (ReplayEngine.runFiles seriesRuntime flatConfig refusedThenSell none none).isOk
      = true := by decide +kernel
  cases hreport : ReplayEngine.runFiles seriesRuntime flatConfig refusedThenSell none none with
  | error e =>
      rw [hreport] at hok
      simp [Except.isOk, Except.toBool] at hok
  | ok report =>
      have hpayloads : RiskPayloads refusalPayload := by
        refine ⟨fun event payload hbody => ?_, fun event hbody => ?_⟩ <;>
          simp [refusalPayload, hbody, Json.get, Json.truthy]
      have hdisk : List.Forall₂ (RecordsRisk refusalPayload) report.events
          (report.events.map onDisk) := by
        rw [List.forall₂_map_right_iff, List.forall₂_same]
        refine fun e _ => ⟨rfl, fun fields hfields => ?_⟩
        unfold riskPayload? at hfields
        split at hfields
        · exact congrArg Json.obj (Option.some.inj hfields)
        · cases hfields
      obtain ⟨result, hresult, htotal, hblocked, -⟩ :=
        @diagnostics_of_replay plainTexts _ _ _ _ _ _ _ _ hreport hpayloads hdisk
      exact ⟨report, rfl, result, hresult, htotal, hblocked⟩

end GhostAmm
