/-
Inspecting a recording and replaying it.

Replay refuses a recording in which the numbers of a stream step back, a stream being a
venue, a symbol and a type of event, with snapshots and deltas of one book together.  The
inspection counts violations by a rule of its own: it looks at deltas only, in one
sequence for the whole recording, which every snapshot sets anew.  Where it compares a
delta with the last number of that delta's own stream it is the stricter of the two, so
what it lets through can only step back elsewhere (`inspection_sound_iff`).
-/
import GhostAmm.Lib.Streams
import GhostAmm.Model.Inspection
import GhostAmm.Model.Replay
import GhostAmm.Proofs.Balances

namespace GhostAmm

/-! ### The check of the replay -/

/-- A number as the check reads it. -/
abbrev Event.number (event : Event) : Option ℤ := event.sequence.toInt

/-- The exception of `_assert_monotonic_sequences`. -/
def IsSequenceViolation (e : Py.Error) : Prop :=
  ∃ key, ∃ seq previous : ℤ, e = .valueError ("Sequence violation in replay stream "
    ++ streamText key ++ ": " ++ toString seq ++ " after " ++ toString previous)

/-- The table of the check holds the last number of each stream. -/
def HoldsLast (last : LastByStream) (before : List Event) : Prop :=
  ∀ key, (last.get? key).map Prod.snd = Streams.lastNumber streamKey Event.number key before

theorem HoldsLast.skip {last : LastByStream} {before : List Event} (h : HoldsLast last before)
    {event : Event} (hnone : event.number = none) : HoldsLast last (before ++ [event]) := by
  intro key
  rw [Streams.lastNumber_concat, hnone, Option.none_or, ite_self]
  exact h key

theorem HoldsLast.put {last : LastByStream} {before : List Event} (h : HoldsLast last before)
    {event : Event} {seq : ℤ} (hseq : event.number = some seq) :
    HoldsLast (last.put (streamKey event, seq)) (before ++ [event]) := by
  intro key
  rw [Streams.lastNumber_concat, hseq, Option.some_or]
  by_cases hkey : streamKey event = key
  · have hput := Py.Table.get?_put_self last (streamKey event, seq)
    rw [if_pos hkey, ← hkey, hput]
    rfl
  · rw [if_neg hkey, Py.Table.get?_put_ne last (Ne.symm hkey)]
    exact h key

/-- What the table says about a numbered event. -/
theorem HoldsLast.stepsBack_iff {last : LastByStream} {before : List Event}
    (h : HoldsLast last before) {event : Event} {seq : ℤ} (hseq : event.number = some seq) :
    Streams.StepsBack streamKey Event.number before event ↔
      ∃ entry, last.get? (streamKey event) = some entry ∧ seq < entry.2 := by
  constructor
  · rintro ⟨n, hn, p, hp, hlt⟩
    rw [Option.mem_def, ← h] at hp
    obtain ⟨entry, hget, rfl⟩ := Option.map_eq_some_iff.mp hp
    rw [Option.mem_def, hseq] at hn
    exact ⟨entry, hget, Option.some.inj hn ▸ hlt⟩
  · rintro ⟨entry, hget, hlt⟩
    refine ⟨seq, hseq, entry.2, ?_, hlt⟩
    rw [Option.mem_def, ← h, hget]
    rfl

theorem not_stepsBack_of_unnumbered {before : List Event} {event : Event}
    (h : event.number = none) : ¬ Streams.StepsBack streamKey Event.number before event := by
  rintro ⟨n, hn, -⟩
  rw [Option.mem_def, h] at hn
  simp at hn

/-- **The check passes exactly when no event steps back, and raises nothing but a violation.** -/
theorem assertMonotonicSequences_spec : ∀ (events : List Event) (last : LastByStream)
    (before : List Event), HoldsLast last before →
    (assertMonotonicSequences last events = .ok () ↔
      Past.Each (fun more e => ¬ Streams.StepsBack streamKey Event.number (before ++ more) e)
        events) ∧
    ∀ e, assertMonotonicSequences last events = .error e → IsSequenceViolation e := by
  intro events
  induction events with
  | nil =>
      intro last before _
      refine ⟨⟨fun _ => Past.each_nil, fun _ => rfl⟩, fun e h => ?_⟩
      simp [assertMonotonicSequences] at h
  | cons event rest ih =>
      intro last before hlast
      have hcons : Past.Each (fun more e =>
            ¬ Streams.StepsBack streamKey Event.number (before ++ more) e) (event :: rest) ↔
          ¬ Streams.StepsBack streamKey Event.number before event ∧
            Past.Each (fun more e => ¬ Streams.StepsBack streamKey Event.number
              (before ++ [event] ++ more) e) rest := by
        rw [Past.each_cons, List.append_nil]
        simp only [List.append_assoc, List.singleton_append]
      rw [hcons, assertMonotonicSequences]
      cases hseq : event.sequence.toInt with
      | none =>
          obtain ⟨hrest, herror⟩ := ih last _ (hlast.skip hseq)
          exact ⟨hrest.trans (and_iff_right (not_stepsBack_of_unnumbered hseq)).symm, herror⟩
      | some seq =>
          have hstep := hlast.stepsBack_iff (show event.number = some seq from hseq)
          obtain ⟨hrest, herror⟩ := ih _ _ (hlast.put hseq)
          rw [hstep]
          cases hget : last.get? (streamKey event) with
          | none =>
              simp only [hget]
              refine ⟨hrest.trans (and_iff_right ?_).symm, herror⟩
              simp
          | some entry =>
              obtain ⟨key, previous⟩ := entry
              simp only [hget]
              by_cases hback : seq < previous
              · rw [if_pos hback]
                refine ⟨⟨fun h => ?_, fun h => ?_⟩, fun e h => ?_⟩
                · simp at h
                · exact absurd ⟨_, rfl, hback⟩ h.1
                · exact ⟨_, seq, previous, (Except.error.inj h).symm⟩
              · rw [if_neg hback]
                refine ⟨hrest.trans (and_iff_right ?_).symm, herror⟩
                rintro ⟨entry, hentry, hlt⟩
                rw [← Option.some.inj hentry] at hlt
                exact hback hlt

theorem assertMonotonicSequences_iff (events : List Event) :
    assertMonotonicSequences Py.Table.empty events = .ok () ↔
      Streams.Forward streamKey Event.number events :=
  (assertMonotonicSequences_spec events Py.Table.empty [] fun _ => rfl).1

/--
**The check raises exactly when some number is below an earlier one of its stream.**  The two
need not be neighbours, and what has no number is passed over.
-/
theorem assertMonotonicSequences_raises_iff (events : List Event) :
    (∃ e, assertMonotonicSequences Py.Table.empty events = .error e) ↔
      ∃ i j : ℕ, i < j ∧ ∃ earlier later, events[i]? = some earlier ∧ events[j]? = some later ∧
        streamKey earlier = streamKey later ∧
        ∃ n m : ℤ, earlier.sequence.toInt = some n ∧ later.sequence.toInt = some m ∧ m < n := by
  have hraises : (∃ e, assertMonotonicSequences Py.Table.empty events = .error e) ↔
      ¬ assertMonotonicSequences Py.Table.empty events = .ok () := by
    cases assertMonotonicSequences Py.Table.empty events with
    | error e => simp
    | ok _ => simp
  rw [hraises, assertMonotonicSequences_iff, Streams.forward_iff_pairwise,
    List.pairwise_iff_getElem]
  constructor
  · intro h
    simp only [Streams.InStep, not_forall, not_le] at h
    obtain ⟨i, j, hi, hj, hij, hkey, n, hn, m, hm, hlt⟩ := h
    exact ⟨i, j, hij, _, _, List.getElem?_eq_getElem hi, List.getElem?_eq_getElem hj, hkey, n, m,
      hn, hm, hlt⟩
  · intro h hall
    obtain ⟨i, j, hij, earlier, later, hearlier, hlater, hkey, n, m, hn, hm, hlt⟩ := h
    obtain ⟨hi, rfl⟩ := List.getElem?_eq_some_iff.mp hearlier
    obtain ⟨hj, rfl⟩ := List.getElem?_eq_some_iff.mp hlater
    exact absurd (hall i j hi hj hij hkey n hn m hm) (not_le.mpr hlt)

/-- No call of the pipeline raises it. -/
theorem not_violation_of_process {rt : Runtime} {cfg : Config} {s : Pipeline} {event : Event}
    {e : Py.Error} (h : (Pipeline.process rt cfg s event).2 = .error e) :
    ¬ IsSequenceViolation e := by
  rintro ⟨key, seq, previous, rfl⟩
  rcases Pipeline.process_error h with hdata | hnegative
  · refine hdata.ne_valueError ?_ rfl
    simp [String.toList_append]
  · have hhead := congrArg (fun m : String => m.toList.head?) (Py.Error.valueError.inj hnegative)
    simp at hhead

/-- A replay in the order of arrival that checks the sequences. -/
def strictReplay (rt : Runtime) (cfg : Config) (pipeline : Pipeline) (events : List Event) :
    Pipeline × Except Py.Error (List Event) :=
  ReplayEngine.run rt cfg pipeline events (some "arrival_order") (some true)

theorem strictReplay_eq (rt : Runtime) (cfg : Config) (pipeline : Pipeline)
    (events : List Event) : strictReplay rt cfg pipeline events
      = match assertMonotonicSequences Py.Table.empty events with
        | .error e => (pipeline, .error e)
        | .ok () => match Machine.exec (Pipeline.process rt cfg) pipeline events with
          | (pipeline, .error e) => (pipeline, .error e)
          | (pipeline, .ok steps) => (pipeline, .ok (enrichFairAfter (logOf steps))) := by
  rfl

/-- **Such a replay raises a violation exactly when some stream steps back.** -/
theorem strictReplay_violation_iff (rt : Runtime) (cfg : Config) (pipeline : Pipeline)
    (events : List Event) :
    (∃ e, IsSequenceViolation e ∧ (strictReplay rt cfg pipeline events).2 = .error e) ↔
      ¬ Streams.Forward streamKey Event.number events := by
  rw [← assertMonotonicSequences_iff, strictReplay_eq]
  have hspec := (assertMonotonicSequences_spec events Py.Table.empty [] fun _ => rfl).2
  cases hcheck : assertMonotonicSequences Py.Table.empty events with
  | error e =>
      refine ⟨fun _ h => ?_, fun _ => ⟨e, hspec e hcheck, rfl⟩⟩
      simp at h
  | ok _ =>
      refine ⟨fun ⟨e, hviolation, hraised⟩ => ?_, fun h => absurd rfl h⟩
      generalize hexec : Machine.exec (Pipeline.process rt cfg) pipeline events = result at hraised
      obtain ⟨after, outcome⟩ := result
      cases outcome with
      | error e' =>
          have he : e' = e := Except.error.inj hraised
          obtain ⟨s, event, hstep⟩ := Machine.exec_error hexec
          exact absurd (he ▸ hviolation) (not_violation_of_process hstep)
      | ok steps => simp at hraised

/-! ### The rule of the inspection -/

/-- What the depth sequence of the inspection becomes. -/
def depthAfter (last : Option ℤ) (event : Event) : Option ℤ :=
  match event.body with
  | .orderBookSnapshot _ => event.number
  | .orderBookDelta _ =>
      match event.number, last with
      | some seq, some _ => some seq
      | _, last => last
  | _ => last

/-- The number the inspection would compare a delta with after some events. -/
def lastDepth (events : List Event) : Option ℤ := events.foldl depthAfter none

/-- A delta that does not go beyond the depth sequence. -/
def NotBeyond (last : Option ℤ) (event : Event) : Prop :=
  (∃ payload, event.body = .orderBookDelta payload) ∧
    ∃ seq ∈ event.number, ∃ previous ∈ last, seq ≤ previous

namespace Inspector

/-- A delta with and without something to compare it with. -/
private theorem seeDepth_delta (self : Inspector) {event : Event} {payload : BookPayload}
    (hbody : event.body = .orderBookDelta payload) :
    (self.seeDepth event).lastDepthSequence = depthAfter self.lastDepthSequence event ∧
      ((self.seeDepth event).sequenceViolations = 0 ↔
        self.sequenceViolations = 0 ∧ ¬ NotBeyond self.lastDepthSequence event) := by
  unfold seeDepth depthAfter NotBeyond Event.number
  rw [hbody]
  cases hseq : event.sequence.toInt with
  | none =>
      refine ⟨rfl, (and_iff_left ?_).symm⟩
      rintro ⟨-, seq, hmem, -⟩
      simp at hmem
  | some seq =>
      cases hlast : self.lastDepthSequence with
      | none =>
          refine ⟨hlast, (and_iff_left ?_).symm⟩
          rintro ⟨-, seq, -, previous, hmem, -⟩
          simp at hmem
      | some last =>
          refine ⟨rfl, ?_⟩
          by_cases hback : seq ≤ last
          · refine iff_of_false (by simp [hback]) fun h => h.2 ?_
            exact ⟨⟨payload, rfl⟩, seq, rfl, last, rfl, hback⟩
          · simp only [hback, if_false]
            refine (and_iff_left ?_).symm
            rintro ⟨-, n, hn, p, hp, hle⟩
            rw [← Option.some.inj hn, ← Option.some.inj hp] at hle
            exact hback hle

/-- What a line does to the two variables of the rule. -/
theorem see_depth (self : Inspector) (line : RecordedLine) :
    (self.see line).lastDepthSequence = depthAfter self.lastDepthSequence line.event ∧
      ((self.see line).sequenceViolations = 0 ↔
        self.sequenceViolations = 0 ∧ ¬ NotBeyond self.lastDepthSequence line.event) := by
  cases hbody : line.event.body with
  | orderBookDelta payload =>
      exact seeDepth_delta ((self.seeTimes line.event).seePayload line) hbody
  | _ =>
      -- nothing else is compared
      unfold see seeDepth depthAfter NotBeyond
      rw [hbody]
      refine ⟨rfl, (and_iff_left ?_).symm⟩
      rintro ⟨⟨other, hother⟩, -⟩
      simp at hother

/-- There are no violations exactly when every delta goes beyond the depth sequence. -/
theorem foldl_see_depth : ∀ (lines : List RecordedLine) (self : Inspector) (before : List Event),
    self.lastDepthSequence = lastDepth before →
    ((lines.foldl see self).sequenceViolations = 0 ↔ self.sequenceViolations = 0 ∧
      Past.Each (fun more e => ¬ NotBeyond (lastDepth (before ++ more)) e)
        (lines.map RecordedLine.event)) := by
  intro lines
  induction lines with
  | nil => intro self before _; exact (and_iff_left Past.each_nil).symm
  | cons line rest ih =>
      intro self before hself
      obtain ⟨hdepth, hviolations⟩ := self.see_depth line
      have hnext : (self.see line).lastDepthSequence = lastDepth (before ++ [line.event]) := by
        rw [hdepth, hself]
        unfold lastDepth
        rw [List.foldl_append]
        rfl
      rw [List.foldl_cons, ih _ _ hnext, hviolations, List.map_cons, Past.each_cons,
        List.append_nil, ← hself, and_assoc]
      simp only [List.append_assoc, List.singleton_append]

end Inspector

/-- The events of a recording, file after file. -/
def recordedEvents (files : List (List RecordedLine)) : List Event :=
  files.flatten.map RecordedLine.event

/-- **The inspection counts no violation exactly when every delta goes beyond the depth
sequence.** -/
theorem violations_eq_zero_iff (files : List (List RecordedLine)) (strict : Bool) :
    (inspectRecording files strict).sequenceViolations = 0 ↔
      Past.Each (fun before e => ¬ NotBeyond (lastDepth before) e) (recordedEvents files) :=
  (Inspector.foldl_see_depth files.flatten {} [] rfl).trans (and_iff_right rfl)

/-- In a recording that is ok for replay every delta goes beyond the depth sequence. -/
theorem beyond_of_ok {files : List (List RecordedLine)} {strict : Bool}
    (h : (inspectRecording files strict).okForReplay = true) :
    Past.Each (fun before e => ¬ NotBeyond (lastDepth before) e) (recordedEvents files) := by
  rw [← violations_eq_zero_iff files strict]
  unfold inspectRecording Inspector.report at h
  simp only [Bool.and_eq_true, decide_eq_true_eq] at h
  exact h.1.2

/-! ### The verdict -/

/-- A delta that is compared with the last number of its own stream. -/
def ComparedInStream (before : List Event) (event : Event) : Prop :=
  (∃ payload, event.body = .orderBookDelta payload) ∧
    lastDepth before = Streams.lastNumber streamKey Event.number (streamKey event) before

/-- **The verdict of the inspection holds for the replay exactly when no stream steps back at an
event other than a delta that was compared with the last number of its own stream.** -/
theorem inspection_sound_iff {files : List (List RecordedLine)} {strict : Bool}
    (hok : (inspectRecording files strict).okForReplay = true) (rt : Runtime) (cfg : Config)
    (pipeline : Pipeline) :
    (∀ e, IsSequenceViolation e →
      (strictReplay rt cfg pipeline (recordedEvents files)).2 ≠ .error e) ↔
    ∀ before event after, recordedEvents files = before ++ event :: after →
      ¬ ComparedInStream before event →
        ¬ Streams.StepsBack streamKey Event.number before event := by
  have hbeyond := beyond_of_ok hok
  have hforward : (∀ e, IsSequenceViolation e →
      (strictReplay rt cfg pipeline (recordedEvents files)).2 ≠ .error e) ↔
      Streams.Forward streamKey Event.number (recordedEvents files) := by
    rw [← not_iff_not, ← strictReplay_violation_iff rt cfg pipeline]
    simp only [not_forall, exists_prop, ne_eq, not_not]
  rw [hforward]
  constructor
  · intro h before event after hevents _
    exact h before event after hevents
  · intro h before event after hevents hback
    by_cases hcompared : ComparedInStream before event
    · -- the inspection asked for more than replay does
      obtain ⟨hdelta, hsame⟩ := hcompared
      obtain ⟨n, hn, p, hp, hlt⟩ := hback
      rw [← hsame] at hp
      exact hbeyond before event after hevents ⟨hdelta, n, hn, p, hp, hlt.le⟩
    · exact h before event after hevents hcompared hback

/-- A complete recording that ends in two trades, numbered 5 and `number`. -/
def recordingWith (number : ℤ) : List (List RecordedLine) :=
  [[{ event := pairSpecEvent 0 },
    { event := marketEvent 0 .absent (.bitbankStatus
        { pair := "btc_jpy", status := some "NORMAL" }) },
    { event := snapshotEvent 0 10 10000000 10000002 },
    { event := marketEvent 1 (.int 11) (.orderBookDelta {}) },
    { event := marketEvent 2 (.int 5) (.trade ⟨some .sell, 10000000, 1⟩) },
    { event := marketEvent 3 (.int number) (.trade ⟨some .sell, 10000000, 1⟩) }]]

theorem inspection_sound_rising_trades :
    (inspectRecording (recordingWith 6) false).okForReplay = true ∧
    ∀ e, IsSequenceViolation e → (strictReplay seriesRuntime flatConfig (Pipeline.init flatConfig)
      (recordedEvents (recordingWith 6))).2 ≠ .error e := by
  have hok : (inspectRecording (recordingWith 6) false).okForReplay = true := by decide +kernel
  refine ⟨hok, (inspection_sound_iff hok seriesRuntime flatConfig
    (Pipeline.init flatConfig)).mpr fun before event after hevents _ => ?_⟩
  exact (assertMonotonicSequences_iff _).mp (by decide +kernel) before event after hevents

/-- Trades that step back are inspected as ok, and refused. -/
theorem inspection_misses_falling_trades :
    (inspectRecording (recordingWith 4) false).okForReplay = true ∧
    ∃ e, IsSequenceViolation e ∧ (strictReplay seriesRuntime flatConfig (Pipeline.init flatConfig)
      (recordedEvents (recordingWith 4))).2 = .error e := by
  refine ⟨by decide +kernel, (strictReplay_violation_iff _ _ _ _).mpr fun hforward => ?_⟩
  have hcheck := (assertMonotonicSequences_iff _).mpr hforward
  exact absurd hcheck (by decide +kernel)

end GhostAmm
