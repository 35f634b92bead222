/-
A dry run and the replay of what it recorded.

Both engines feed the same pipeline, so that they agree as soon as the replay feeds it the
same events: the dry run leaves a run of the pipeline over exactly what it recorded
(`Recorded`).  What comes between them is that replay looks at the whole recording before
it starts, and refuses one in which the numbers of a stream step back, while the dry run
takes every event of every message as it comes.
-/
import GhostAmm.Model.DryRun
import GhostAmm.Proofs.Sequences

namespace GhostAmm

open Py (Json Texts)

/-! ### The events of the virtual orders -/

/-- An event about a virtual order, without what is filled in after the run. -/
def Event.virtual? (e : Event) : Option Event :=
  match e.body with
  | .virtualOrderPlaced _ => some e
  | .virtualOrderCanceled _ => some e
  | .virtualFill p =>
      some { e with body := .virtualFill { p with
        fairAfter1s := none, fairAfter5s := none, fairAfter30s := none } }
  | _ => none

/-- The placements, cancels and fills of a log, in order. -/
def virtualEvents (log : List Event) : List Event := log.filterMap Event.virtual?

theorem virtualEvents_append (xs ys : List Event) :
    virtualEvents (xs ++ ys) = virtualEvents xs ++ virtualEvents ys :=
  List.filterMap_append

/-- Looking up later fair prices changes nothing else. -/
theorem virtualEvents_enrichFairAfter (log : List Event) :
    virtualEvents (enrichFairAfter log) = virtualEvents log := by
  unfold enrichFairAfter
  simp only
  split
  · rfl
  · unfold virtualEvents
    rw [List.filterMap_map]
    refine List.filterMap_congr fun e _ => ?_
    show (enrichEvent _ e).virtual? = e.virtual?
    unfold enrichEvent
    cases hbody : e.body with
    | virtualFill payload =>
        unfold Event.virtual?
        rw [hbody]
    | _ => rfl

/-! ### What the dry run leaves -/

namespace PublicStreamDryRunEngine

/-- The pipeline has run over exactly the recorded events, and the log tells of no more. -/
def Recorded (rt : Runtime) (cfg : Config) (self : PublicStreamDryRunEngine) : Prop :=
  ∃ steps, Machine.Run (Pipeline.process rt cfg) (Pipeline.init cfg) steps self.pipeline ∧
    steps.map Machine.Step.input = self.sourceEvents ∧
    virtualEvents self.events = virtualEvents (logOf steps)

variable {rt : Runtime} {texts : Texts} {cfg : Config} {self self' : PublicStreamDryRunEngine}

theorem recorded_init (pair : String) : Recorded rt cfg (init cfg pair) :=
  ⟨[], Machine.Run.nil, rfl, rfl⟩

/-- The engine's own notes are no events of orders. -/
theorem Recorded.note (h : Recorded rt cfg self) {note : Event} (hnote : note.virtual? = none) :
    Recorded rt cfg { self with events := self.events ++ [note] } := by
  obtain ⟨steps, hrun, hinputs, hevents⟩ := h
  refine ⟨steps, hrun, hinputs, ?_⟩
  show virtualEvents (self.events ++ [note]) = _
  rw [virtualEvents_append, hevents]
  unfold virtualEvents
  rw [List.filterMap_cons, hnote, List.filterMap_nil, List.append_nil]

theorem Recorded.record (h : Recorded rt cfg self) {event : Event}
    (hs : self.record rt cfg event = (self', .ok ())) :
    Recorded rt cfg self' ∧ self'.sourceEvents = self.sourceEvents ++ [event] := by
  obtain ⟨steps, hrun, hinputs, hevents⟩ := h
  unfold PublicStreamDryRunEngine.record at hs
  dsimp only at hs
  split at hs
  · simp at hs
  · rename_i pipeline out hprocess
    obtain ⟨rfl, -⟩ := Prod.mk.inj hs
    refine ⟨⟨steps ++ [⟨self.pipeline, event, out, pipeline⟩], hrun.snoc hprocess, ?_, ?_⟩, rfl⟩
    · rw [List.map_append, hinputs]
      rfl
    · show virtualEvents (self.events ++ [event] ++ out) = _
      have hlog : logOf (steps ++ [⟨self.pipeline, event, out, pipeline⟩])
          = logOf steps ++ ([event] ++ out) := by
        simp [logOf]
      rw [List.append_assoc, virtualEvents_append, hevents, hlog,
        virtualEvents_append (logOf steps)]

theorem Recorded.recordAll : ∀ {events : List Event} {self self' : PublicStreamDryRunEngine},
    Recorded rt cfg self → self.recordAll rt cfg events = (self', .ok ()) →
    Recorded rt cfg self' ∧ self'.sourceEvents = self.sourceEvents ++ events := by
  intro events
  induction events with
  | nil =>
      intro self self' h hs
      obtain ⟨rfl, -⟩ := Prod.mk.inj hs
      exact ⟨h, (List.append_nil _).symm⟩
  | cons event rest ih =>
      intro self self' h hs
      rw [PublicStreamDryRunEngine.recordAll] at hs
      split at hs
      · simp at hs
      · rename_i next hrecord
        obtain ⟨hnext, hsource⟩ := h.record hrecord
        obtain ⟨hlast, hrest⟩ := ih hnext hs
        refine ⟨hlast, ?_⟩
        rw [hrest, hsource, List.append_assoc, List.singleton_append]

/-- The events a message is normalized into. -/
def received (rt : Runtime) (texts : Texts) : StreamInput → List Event
  | .message (.obj data) nowMs =>
      match normalizeBitbankMessage rt texts (roomNameOf texts data) data nowMs with
      | .ok events => events
      | .error _ => []
  | _ => []

/-- **An input that is handled is recorded whole.** -/
theorem Recorded.handle (h : Recorded rt cfg self) {input : StreamInput}
    (hs : self.handle rt texts cfg input = (self', .ok ())) :
    Recorded rt cfg self' ∧ self'.sourceEvents = self.sourceEvents ++ received rt texts input := by
  cases input with
  | heartbeat nowMs =>
      obtain ⟨rfl, -⟩ := Prod.mk.inj hs
      exact ⟨h.note rfl, (List.append_nil _).symm⟩
  | message data nowMs =>
      cases data with
      | obj data =>
          unfold PublicStreamDryRunEngine.handle at hs
          unfold received
          dsimp only at hs ⊢
          cases hnormalized : normalizeBitbankMessage rt texts (roomNameOf texts data) data
              nowMs with
          | error e =>
              rw [hnormalized] at hs
              simp at hs
          | ok events =>
              rw [hnormalized] at hs
              exact h.recordAll hs
      | _ =>
          obtain ⟨rfl, -⟩ := Prod.mk.inj hs
          exact ⟨h, (List.append_nil _).symm⟩

theorem recorded_primeMetadata {pair : String} {fetched : Fetched} {nowMs : ℚ}
    (hs : (init cfg pair).primeMetadata rt texts cfg fetched nowMs = (self, .ok ())) :
    Recorded rt cfg self ∧
      self.sourceEvents = (init cfg pair).metadataEvents rt texts fetched nowMs := by
  have hinit : Recorded rt cfg (init cfg pair) := recorded_init pair
  cases fetched with
  | failed =>
      obtain ⟨rfl, -⟩ := Prod.mk.inj hs
      exact ⟨hinit.note rfl, rfl⟩
  | disabled => exact hinit.recordAll hs
  | lists specs statuses => exact hinit.recordAll hs

/-- The metadata carries no numbers. -/
theorem number_metadataEvents {fetched : Fetched} {nowMs : ℚ} :
    ∀ e ∈ self.metadataEvents rt texts fetched nowMs, e.number = none := by
  intro e he
  unfold metadataEvents at he
  cases fetched with
  | lists specs statuses =>
      rcases List.mem_append.mp he with he | he
      · obtain ⟨spec, -, rfl⟩ := List.mem_map.mp he
        rfl
      · obtain ⟨status, -, rfl⟩ := List.mem_map.mp he
        rfl
  | _ => simp at he

/-- **A dry run records what it received and runs over what it recorded.** -/
theorem recorded_run {start : PublicStreamDryRunEngine}
    {steps : List (Machine.Step PublicStreamDryRunEngine StreamInput Unit)}
    (hstart : Recorded rt cfg start)
    (h : Machine.Run (PublicStreamDryRunEngine.handle rt texts cfg) start steps self) :
    Recorded rt cfg self ∧ self.sourceEvents
      = start.sourceEvents ++ (steps.map Machine.Step.input).flatMap (received rt texts) := by
  induction h with
  | nil => exact ⟨hstart, (List.append_nil _).symm⟩
  | snoc _ hs ih =>
      obtain ⟨hrecorded, hsource⟩ := ih.1.handle hs
      refine ⟨hrecorded, ?_⟩
      rw [hsource, ih.2]
      simp

end PublicStreamDryRunEngine

/-! ### The replay -/

/-- With the default settings a replay keeps the order of arrival and checks the sequences. -/
theorem run_default {cfg : Config} (hreplay : cfg.replay = {}) (rt : Runtime) (pipeline : Pipeline)
    (events : List Event) :
    ReplayEngine.run rt cfg pipeline events none none = strictReplay rt cfg pipeline events := by
  unfold strictReplay ReplayEngine.run
  rw [hreplay]
  rfl

/-- A replay of the recorded events that returns, with the same placements, cancels and fills. -/
def ReplayAgrees (rt : Runtime) (cfg : Config) (engine : PublicStreamDryRunEngine) : Prop :=
  ∃ after output, ReplayEngine.run rt cfg (Pipeline.init cfg) engine.sourceEvents none none
    = (after, .ok output) ∧ virtualEvents output = virtualEvents engine.events

/-- Replaying what was recorded agrees with the dry run as soon as it is not refused. -/
theorem replayAgrees_iff {rt : Runtime} {cfg : Config} {engine : PublicStreamDryRunEngine}
    (hreplay : cfg.replay = {}) (h : engine.Recorded rt cfg) :
    ReplayAgrees rt cfg engine ↔ Streams.Forward streamKey Event.number engine.sourceEvents := by
  obtain ⟨steps, hrun, hinputs, hevents⟩ := h
  unfold ReplayAgrees
  rw [run_default hreplay, strictReplay_eq, ← assertMonotonicSequences_iff]
  constructor
  · rintro ⟨after, output, hout, -⟩
    cases hcheck : assertMonotonicSequences Py.Table.empty engine.sourceEvents with
    | ok _ => rfl
    | error e =>
        rw [hcheck] at hout
        simp at hout
  · intro hcheck
    have hexec := hrun.exec_eq
    rw [hinputs] at hexec
    refine ⟨engine.pipeline, enrichFairAfter (logOf steps), ?_, ?_⟩
    · rw [hcheck, hexec]
    · rw [virtualEvents_enrichFairAfter, hevents]

/-- Events without a number change no stream. -/
theorem numbers_append_unnumbered {unnumbered events : List Event}
    (h : ∀ e ∈ unnumbered, e.number = none) (key : String × String × String) :
    Streams.numbers streamKey Event.number key (unnumbered ++ events)
      = Streams.numbers streamKey Event.number key events := by
  unfold Streams.numbers
  rw [List.filter_append, List.filterMap_append]
  have hnone : (unnumbered.filter fun e => decide (streamKey e = key)).filterMap Event.number
      = [] :=
    List.filterMap_eq_nil_iff.mpr fun e he => h e (List.mem_of_mem_filter he)
  rw [hnone, List.nil_append]

/-- **A dry run and its replay agree exactly when the numbers the messages bring never decrease
in any stream.** -/
theorem dry_run_replay_agree_iff {rt : Runtime} {texts : Texts} {cfg : Config} {pair : String}
    {fetched : Fetched} {nowMs : ℚ} {start engine : PublicStreamDryRunEngine}
    {steps : List (Machine.Step PublicStreamDryRunEngine StreamInput Unit)}
    (hreplay : cfg.replay = {})
    (hstart : (PublicStreamDryRunEngine.init cfg pair).primeMetadata rt texts cfg fetched nowMs
      = (start, .ok ()))
    (h : Machine.Run (PublicStreamDryRunEngine.handle rt texts cfg) start steps engine) :
    ReplayAgrees rt cfg engine ↔
      ∀ key, (Streams.numbers streamKey Event.number key ((steps.map Machine.Step.input).flatMap
        (PublicStreamDryRunEngine.received rt texts))).Pairwise (· ≤ ·) := by
  obtain ⟨hprimed, hmetadata⟩ := PublicStreamDryRunEngine.recorded_primeMetadata hstart
  obtain ⟨hrecorded, hsource⟩ := PublicStreamDryRunEngine.recorded_run hprimed h
  rw [replayAgrees_iff hreplay hrecorded, Streams.forward_iff, hsource, hmetadata]
  refine forall_congr' fun key => ?_
  rw [numbers_append_unnumbered PublicStreamDryRunEngine.number_metadataEvents key]

/-! ### A book and two trades -/

/-- Numerals and the letters of the Latin alphabet. -/
def plainTexts : Texts where
  str := fun _ => ""
  float := fun text => (Py.intOfText text).map fun value => (value : ℚ)
  upper := fun text => String.ofList (text.toList.map Char.toUpper)

/-- The metadata of an open pair. -/
def openPair : Fetched :=
  .lists [{ name := "btc_jpy", baseAsset := "btc", quoteAsset := "jpy", unitAmount := 1 / 10000,
            limitMaxAmount := 1000, priceDigits := 0, amountDigits := 4 }]
    [⟨"btc_jpy", "NORMAL", 1 / 10000⟩]

/-- A whole book, and one message with two sells, numbered 5 and `number`. -/
def streamMessages (number : ℤ) : List StreamInput :=
  let level (price : String) : Json := .arr [.str price, .str "1"]
  let trade (id : ℤ) (amount : ℚ) : Json := .obj [("transaction_id", .int id),
    ("side", .str "sell"), ("price", .str "10000000"), ("amount", .float amount),
    ("executed_at", .int 1000)]
  let message (roomName : String) (data : List (String × Json)) : StreamInput :=
    .message (.obj [("room_name", .str roomName), ("message", .obj [("data", .obj data)])]) 1000
  [message "depth_whole_btc_jpy" [("bids", .arr [level "10000000"]),
      ("asks", .arr [level "10000002"]), ("timestamp", .int 1000), ("sequenceId", .str "1")],
    .heartbeat 1000,
    message "transactions_btc_jpy"
      [("transactions", .arr [trade 5 (1 / 10), trade number (1 / 1000)])]]

/-- An engine that fetched the metadata. -/
def primedEngine : PublicStreamDryRunEngine :=
  ((PublicStreamDryRunEngine.init flatConfig "btc_jpy").primeMetadata seriesRuntime plainTexts
    flatConfig openPair 1000).1

/-- What it does with these messages. -/
def dryRun (number : ℤ) : PublicStreamDryRunEngine × Except StreamError
    (List (Machine.Step PublicStreamDryRunEngine StreamInput Unit)) :=
  Machine.exec (PublicStreamDryRunEngine.handle seriesRuntime plainTexts flatConfig) primedEngine
    (streamMessages number)

theorem dry_run_replay_agree_rising_trades :
    (fills (dryRun 6).1.events).length = 1 ∧
      ReplayAgrees seriesRuntime flatConfig (dryRun 6).1 := by
  refine ⟨by decide +kernel, ?_⟩
  have hrun : Machine.Run _ primedEngine _ (dryRun 6).1 := Machine.run_exec (by decide +kernel)
  refine (@dry_run_replay_agree_iff seriesRuntime plainTexts flatConfig "btc_jpy" openPair 1000
    primedEngine _ _ rfl (Prod.ext rfl ?_) hrun).mpr ?_
  · show _ = Except.ok ()
    decide +kernel
  · exact Streams.forward_iff.mp ((assertMonotonicSequences_iff _).mp (by decide +kernel))

/-- The dry run takes a message whose trades step back, and its recording cannot be replayed. -/
theorem dry_run_records_falling_trades :
    (dryRun 4).2.isOk = true ∧ ¬ ReplayAgrees seriesRuntime flatConfig (dryRun 4).1 := by
  refine ⟨by decide +kernel, ?_⟩
  rintro ⟨after, output, hout, -⟩
  rw [run_default rfl, strictReplay_eq] at hout
  have hcheck : assertMonotonicSequences Py.Table.empty (dryRun 4).1.sourceEvents ≠ .ok () := by
    decide +kernel
  cases hresult : assertMonotonicSequences Py.Table.empty (dryRun 4).1.sourceEvents with
  | ok _ => exact hcheck hresult
  | error e =>
      rw [hresult] at hout
      simp at hout

end GhostAmm
