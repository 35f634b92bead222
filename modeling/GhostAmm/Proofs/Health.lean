/-
The inspection and the book on the health of a sequence.

Both watch the numbers of the depth stream.  A snapshot sets the number anew and a delta
must go beyond it, and a delta without a number is passed over by both.  They part where
a snapshot has no number: the book takes up counting at the next numbered delta, and the
inspection does not until there is a numbered snapshot.  They part as well at events
whose levels cannot be read, because the inspection does not read levels.

What a delta is compared with is a fold over the events before it, for the one and for
the other.  `keepsOrder_iff` ties the fold to the book, as `violations_eq_zero_iff` ties the
other one to the inspection.
-/
import GhostAmm.Proofs.Sequences

namespace GhostAmm

/-! ### What the book can read -/

/-- `float` reads both entries of a level. -/
def LevelReadable (level : Scalar × Scalar) : Bool := level.1.float.isOk && level.2.float.isOk

/-- The book applies the event without raising, if it looks at its levels. -/
def Event.readable (event : Event) : Bool :=
  match event.body with
  | .orderBookSnapshot payload =>
      (parseSnapshot payload.bids).isOk && (parseSnapshot payload.asks).isOk
  | .orderBookDelta payload => (payload.bids ++ payload.asks).all LevelReadable
  | _ => true

theorem setLevels_isOk : ∀ (levels : List (Scalar × Scalar)) (side : Levels),
    (setLevels side levels).2.isOk = levels.all LevelReadable := by
  intro levels
  induction levels with
  | nil => intro side; rfl
  | cons level rest ih =>
      intro side
      obtain ⟨price, amount⟩ := level
      rw [List.all_cons, setLevels, LevelReadable]
      cases price.float with
      | error e => rfl
      | ok p =>
          cases amount.float with
          | error e => rfl
          | ok a => exact ih _

/-! ### The number a delta is compared with -/

/-- The number since the last snapshot, among the events that apply; `none` before the first. -/
def depthSince (applies : Event → Bool) (last : Option (Option ℤ)) (event : Event) :
    Option (Option ℤ) :=
  match event.body with
  | .orderBookSnapshot _ => if applies event then some event.number else last
  | .orderBookDelta _ =>
      last.map fun number => if applies event then event.number.or number else number
  | _ => last

/-- The last number since the last snapshot, if there is one. -/
def depthNumber (applies : Event → Bool) (events : List Event) : Option ℤ :=
  (events.foldl (depthSince applies) none).join

/-- Some delta does not go beyond the number it is compared with. -/
def StepsBackIn (compared : List Event → Option ℤ) (events : List Event) : Prop :=
  ∃ before e after, events = before ++ e :: after ∧ NotBeyond (compared before) e

theorem each_beyond_iff {compared : List Event → Option ℤ} {events : List Event} :
    Past.Each (fun before e => ¬ NotBeyond (compared before) e) events ↔
      ¬ StepsBackIn compared events := by
  unfold Past.Each StepsBackIn
  simp only [not_exists, not_and]

theorem notBeyond_delta {last : Option ℤ} {event : Event} {payload : BookPayload}
    (hbody : event.body = .orderBookDelta payload) :
    NotBeyond last event ↔ ∃ seq ∈ event.number, ∃ previous ∈ last, seq ≤ previous :=
  and_iff_right ⟨payload, hbody⟩

/-! ### The book -/

namespace OrderBook

/-- The book has gone stale over a number. -/
def Refused (book : OrderBook) : Prop :=
  book.stale = true ∧ book.staleReason = some "sequence_not_monotonic"

instance (book : OrderBook) : Decidable book.Refused :=
  inferInstanceAs (Decidable (_ ∧ _))

/-- The book after some events, whatever they raise. -/
def fed (book : OrderBook) (events : List Event) : OrderBook :=
  events.foldl (fun book event => (book.applyEvent event).1) book

/-- At no point of the events the book has gone stale over a number. -/
def KeepsOrder (book : OrderBook) (events : List Event) : Prop :=
  ∀ before after, events = before ++ after → ¬ (book.fed before).Refused

theorem keepsOrder_nil (book : OrderBook) : book.KeepsOrder [] ↔ ¬ book.Refused := by
  constructor
  · intro h
    exact h [] [] rfl
  · intro h before after hnil
    obtain ⟨rfl, -⟩ := List.append_eq_nil_iff.mp hnil.symm
    exact h

theorem keepsOrder_cons (book : OrderBook) (event : Event) (rest : List Event) :
    book.KeepsOrder (event :: rest) ↔
      ¬ book.Refused ∧ (book.applyEvent event).1.KeepsOrder rest := by
  constructor
  · intro h
    refine ⟨h [] _ rfl, fun before after hrest => ?_⟩
    exact h (event :: before) after (by rw [hrest, List.cons_append])
  · rintro ⟨hnow, hlater⟩ before after hevents
    cases before with
    | nil => exact hnow
    | cons first before =>
        obtain ⟨rfl, hrest⟩ := List.cons.inj hevents
        exact hlater before after hrest

theorem outOfOrder_iff (book : OrderBook) (number : Option ℤ) :
    book.outOfOrder number = true ↔
      ∃ seq ∈ number, ∃ previous ∈ book.lastSequence, seq ≤ previous := by
  unfold outOfOrder
  cases number with
  | none => simp
  | some seq =>
      cases book.lastSequence with
      | none => simp
      | some previous => simp

/-- The book stands at the number a fold over the events gives it. -/
structure StandsAt (book : OrderBook) (last : Option (Option ℤ)) : Prop where
  stale : book.stale = last.isNone
  number : ∀ number, last = some number → book.lastSequence = number
  sound : ¬ book.Refused

theorem standsAt_init : StandsAt {} none where
  stale := rfl
  number := by simp
  sound := by decide

variable {book : OrderBook} {last : Option (Option ℤ)} {event : Event}

/-- A change of the levels alone. -/
theorem StandsAt.levels (h : StandsAt book last) (bids asks : Levels) :
    StandsAt { book with bids := bids, asks := asks } last where
  stale := h.stale
  number := h.number
  sound := h.sound

theorem StandsAt.snapshot (h : StandsAt book last) {payload : BookPayload}
    (hbody : event.body = .orderBookSnapshot payload) :
    StandsAt (book.applyEvent event).1 (depthSince Event.readable last event) := by
  unfold applyEvent depthSince Event.readable
  simp only [hbody]
  unfold applySnapshot
  cases parseSnapshot payload.bids with
  | error e => exact h
  | ok bids =>
      cases parseSnapshot payload.asks with
      | error e => exact h.levels _ _
      | ok asks =>
          refine ⟨rfl, fun number hnumber => ?_, fun hrefused => ?_⟩
          · exact Option.some.inj hnumber
          · cases hrefused.1

/-- A delta is refused where it does not go beyond the number, and otherwise moves it on. -/
theorem StandsAt.delta (h : StandsAt book last) {payload : BookPayload}
    (hbody : event.body = .orderBookDelta payload) :
    (NotBeyond last.join event → (book.applyEvent event).1.Refused) ∧
      (¬ NotBeyond last.join event →
        StandsAt (book.applyEvent event).1 (depthSince Event.readable last event)) := by
  rw [notBeyond_delta hbody]
  unfold applyEvent depthSince Event.readable Event.number
  simp only [hbody]
  unfold applyDelta
  simp only
  cases last with
  | none =>
      rw [if_pos (show book.stale = true from h.stale)]
      refine ⟨?_, fun _ => h⟩
      rintro ⟨seq, -, previous, hmem, -⟩
      simp at hmem
  | some number =>
      rw [if_neg (show ¬ book.stale = true by rw [h.stale]; simp)]
      have horder : book.outOfOrder event.sequence.toInt = true ↔
          ∃ seq ∈ event.sequence.toInt, ∃ previous ∈ (some number).join, seq ≤ previous := by
        rw [outOfOrder_iff, h.number number rfl]
        rfl
      rw [← horder]
      by_cases hback : book.outOfOrder event.sequence.toInt = true
      · rw [if_pos hback]
        exact ⟨fun _ => ⟨rfl, rfl⟩, fun hnot => absurd hback hnot⟩
      · rw [if_neg hback]
        refine ⟨fun hyes => absurd hyes hback, fun _ => ?_⟩
        rw [List.all_append, ← setLevels_isOk payload.bids book.bids,
          ← setLevels_isOk payload.asks book.asks]
        generalize setLevels book.bids payload.bids = bidsSet
        generalize setLevels book.asks payload.asks = asksSet
        obtain ⟨bids, bidsOutcome⟩ := bidsSet
        obtain ⟨asks, asksOutcome⟩ := asksSet
        -- the number moves on only where both sides could be read
        cases bidsOutcome with
        | error e => exact h.levels _ _
        | ok _ =>
            cases asksOutcome with
            | error e => exact h.levels _ _
            | ok _ =>
                refine ⟨h.stale, fun next hnext => ?_, h.sound⟩
                rw [← Option.some.inj hnext]
                show event.sequence.toInt.or book.lastSequence = _
                rw [h.number number rfl]
                rfl

/-- **One event: the book refuses it, or stands where the fold says.** -/
theorem StandsAt.step (h : StandsAt book last) (event : Event) :
    (NotBeyond last.join event → (book.applyEvent event).1.Refused) ∧
      (¬ NotBeyond last.join event →
        StandsAt (book.applyEvent event).1 (depthSince Event.readable last event)) := by
  cases hbody : event.body with
  | orderBookDelta payload => exact h.delta hbody
  | orderBookSnapshot payload =>
      refine ⟨?_, fun _ => h.snapshot hbody⟩
      rintro ⟨⟨other, hother⟩, -⟩
      rw [hbody] at hother
      cases hother
  | _ =>
      unfold applyEvent depthSince
      rw [hbody]
      refine ⟨?_, fun _ => h⟩
      rintro ⟨⟨other, hother⟩, -⟩
      rw [hbody] at hother
      cases hother

theorem keepsOrder_iff_from : ∀ (events : List Event) (book : OrderBook)
    (last : Option (Option ℤ)), StandsAt book last →
    (book.KeepsOrder events ↔ Past.Each (fun before e =>
      ¬ NotBeyond (before.foldl (depthSince Event.readable) last).join e) events) := by
  intro events
  induction events with
  | nil =>
      intro book last h
      exact (keepsOrder_nil book).trans (iff_of_true h.sound Past.each_nil)
  | cons event rest ih =>
      intro book last h
      obtain ⟨hrefused, hkept⟩ := h.step event
      rw [keepsOrder_cons, Past.each_cons, and_iff_right h.sound]
      simp only [List.foldl_cons, List.foldl_nil]
      by_cases hback : NotBeyond last.join event
      · refine iff_of_false (fun hkeeps => ?_) fun hboth => hboth.1 hback
        exact hkeeps [] rest rfl (hrefused hback)
      · rw [and_iff_right hback]
        exact ih _ _ (hkept hback)

end OrderBook

/-- **A new book is never refused a delta exactly when every delta goes beyond the number
the readable events before it leave.** -/
theorem keepsOrder_iff (events : List Event) :
    OrderBook.KeepsOrder {} events ↔ ¬ StepsBackIn (depthNumber Event.readable) events :=
  (OrderBook.keepsOrder_iff_from events {} none OrderBook.standsAt_init).trans each_beyond_iff

/-! ### Where the two part -/

def Event.isSnapshot (event : Event) : Bool :=
  match event.body with
  | .orderBookSnapshot _ => true
  | _ => false

/-- The last snapshot of some events. -/
def lastSnapshot (events : List Event) : Option Event := (events.filter Event.isSnapshot).getLast?

/-- The number since the last snapshot, whether or not the levels can be read. -/
abbrev numberSince (events : List Event) : Option ℤ := depthNumber (fun _ => true) events

/-- Some delta does not go beyond the last number since a snapshot of this kind. -/
def StepsBackSince (kind : Event → Prop) (events : List Event) : Prop :=
  ∃ before e after, events = before ++ e :: after ∧ NotBeyond (numberSince before) e ∧
    ∃ snapshot, lastSnapshot before = some snapshot ∧ kind snapshot

/-- A snapshot, what the inspection remembers and what a book that reads everything does. -/
inductive DepthView : Option Event → Option ℤ → Option (Option ℤ) → Prop
  | before : DepthView none none none
  | unnumbered {snapshot : Event} (h : snapshot.number = none) (number : Option ℤ) :
      DepthView (some snapshot) none (some number)
  | numbered {snapshot : Event} (h : snapshot.number ≠ none) (number : ℤ) :
      DepthView (some snapshot) (some number) (some (some number))

theorem DepthView.step {snapshot : Option Event} {seen : Option ℤ} {last : Option (Option ℤ)}
    (h : DepthView snapshot seen last) (event : Event) :
    DepthView (if event.isSnapshot then some event else snapshot) (depthAfter seen event)
      (depthSince (fun _ => true) last event) := by
  unfold Event.isSnapshot depthAfter depthSince
  cases hbody : event.body with
  | orderBookSnapshot payload =>
      simp only [if_true]
      cases hseq : event.number with
      | none => exact .unnumbered hseq none
      | some seq => exact .numbered (by rw [hseq]; simp) seq
  | orderBookDelta payload =>
      cases h with
      | before =>
          cases event.number with
          | none => exact .before
          | some seq => exact .before
      | unnumbered hsnapshot number =>
          cases event.number with
          | none => exact .unnumbered hsnapshot _
          | some seq => exact .unnumbered hsnapshot _
      | numbered hsnapshot number =>
          cases event.number with
          | none => exact .numbered hsnapshot number
          | some seq => exact .numbered hsnapshot seq
  | _ => exact h

theorem depthView (events : List Event) : DepthView (lastSnapshot events) (lastDepth events)
    (events.foldl (depthSince fun _ => true) none) := by
  induction events using List.reverseRecOn with
  | nil => exact .before
  | append_singleton events event ih =>
      have hsnapshot : lastSnapshot (events ++ [event])
          = if event.isSnapshot then some event else lastSnapshot events := by
        unfold lastSnapshot
        rw [List.filter_append]
        by_cases hevent : event.isSnapshot = true
        · simp [hevent]
        · simp [hevent]
      have hseen : lastDepth (events ++ [event]) = depthAfter (lastDepth events) event := by
        unfold lastDepth
        rw [List.foldl_append]
        rfl
      rw [hsnapshot, hseen, List.foldl_append]
      exact ih.step event

/-- The inspection compares a delta just where the last snapshot has a number. -/
theorem notBeyond_lastDepth_iff (before : List Event) (event : Event) :
    NotBeyond (lastDepth before) event ↔ NotBeyond (numberSince before) event ∧
      ∃ snapshot, lastSnapshot before = some snapshot ∧ snapshot.number ≠ none := by
  have hview := depthView before
  have hnone : ¬ NotBeyond none event := by
    rintro ⟨-, seq, -, previous, hmem, -⟩
    cases hmem
  unfold numberSince depthNumber
  generalize before.foldl (depthSince fun _ => true) none = last at hview
  generalize lastDepth before = seen at hview
  generalize lastSnapshot before = snapshot at hview
  cases hview with
  | before => exact iff_of_false hnone fun h => hnone h.1
  | unnumbered hsnapshot number =>
      refine iff_of_false hnone ?_
      rintro ⟨-, snapshot, heq, hnumber⟩
      exact hnumber (Option.some.inj heq ▸ hsnapshot)
  | numbered hsnapshot number => exact (and_iff_left ⟨_, rfl, hsnapshot⟩).symm

theorem stepsBackIn_lastDepth_iff (events : List Event) :
    StepsBackIn lastDepth events ↔ StepsBackSince (fun s => s.number ≠ none) events := by
  unfold StepsBackIn StepsBackSince
  simp only [notBeyond_lastDepth_iff]

theorem stepsBackIn_numberSince_iff (events : List Event) :
    StepsBackIn numberSince events ↔ StepsBackSince (fun s => s.number = none) events ∨
      StepsBackSince (fun s => s.number ≠ none) events := by
  constructor
  · rintro ⟨before, e, after, hevents, hback⟩
    have hview := depthView before
    cases hsnapshot : lastSnapshot before with
    | none =>
        -- before the first snapshot there is nothing to compare with
        rw [hsnapshot] at hview
        unfold numberSince depthNumber at hback
        generalize before.foldl (depthSince fun _ => true) none = last at hview hback
        generalize lastDepth before = seen at hview
        cases hview
        obtain ⟨-, seq, -, previous, hmem, -⟩ := hback
        cases hmem
    | some snapshot =>
        by_cases hnumber : snapshot.number = none
        · exact Or.inl ⟨before, e, after, hevents, hback, snapshot, hsnapshot, hnumber⟩
        · exact Or.inr ⟨before, e, after, hevents, hback, snapshot, hsnapshot, hnumber⟩
  · rintro (⟨before, e, after, hevents, hback, -⟩ | ⟨before, e, after, hevents, hback, -⟩)
    · exact ⟨before, e, after, hevents, hback⟩
    · exact ⟨before, e, after, hevents, hback⟩

/-- Where every level can be read, reading makes no difference. -/
theorem stepsBackIn_readable {events : List Event} (h : ∀ e ∈ events, e.readable = true) :
    StepsBackIn (depthNumber Event.readable) events ↔ StepsBackIn numberSince events := by
  have hfold : ∀ before, (∀ e ∈ before, e.readable = true) →
      depthNumber Event.readable before = numberSince before := by
    intro before hbefore
    unfold numberSince depthNumber
    refine congrArg Option.join (List.foldl_ext _ _ _ fun last e he => ?_)
    unfold depthSince
    rw [hbefore e he]
  unfold StepsBackIn
  refine exists_congr fun before => exists_congr fun e => exists_congr fun after =>
    and_congr_right fun hevents => ?_
  rw [hfold before fun e' he' => h e' (hevents ▸ List.mem_append_left _ he')]

/-- The inspection counts no violation exactly when no book is refused a delta. -/
def InspectionAgrees (files : List (List RecordedLine)) (strict : Bool) : Prop :=
  (inspectRecording files strict).sequenceViolations = 0 ↔
    OrderBook.KeepsOrder {} (recordedEvents files)

/--
**The inspection and the book agree exactly when their two comparisons find the same.**  Where
every level can be read, that is when no step back after an unnumbered snapshot stands alone.
-/
theorem inspectionAgrees_iff (files : List (List RecordedLine)) (strict : Bool) :
    (InspectionAgrees files strict ↔
      (StepsBackSince (fun s => s.number ≠ none) (recordedEvents files) ↔
        StepsBackIn (depthNumber Event.readable) (recordedEvents files))) ∧
    ((∀ e ∈ recordedEvents files, e.readable = true) →
      (InspectionAgrees files strict ↔
        (StepsBackSince (fun s => s.number = none) (recordedEvents files) →
          StepsBackSince (fun s => s.number ≠ none) (recordedEvents files)))) := by
  have hboth : InspectionAgrees files strict ↔
      (StepsBackSince (fun s => s.number ≠ none) (recordedEvents files) ↔
        StepsBackIn (depthNumber Event.readable) (recordedEvents files)) := by
    unfold InspectionAgrees
    rw [violations_eq_zero_iff, each_beyond_iff, keepsOrder_iff, stepsBackIn_lastDepth_iff,
      not_iff_not]
  refine ⟨hboth, fun hreadable => ?_⟩
  rw [hboth, stepsBackIn_readable hreadable, stepsBackIn_numberSince_iff]
  constructor
  · intro h hunnumbered
    exact h.mpr (Or.inl hunnumbered)
  · intro h
    exact ⟨Or.inr, fun hstep => hstep.elim h id⟩

/-- A snapshot with this number and two deltas numbered 5 and `second`. -/
def twoDeltas (snapshot : Sequence) (second : ℤ) : List (List RecordedLine) :=
  [[{ event := marketEvent 0 snapshot (.orderBookSnapshot {}) },
    { event := marketEvent 1 (.int 5) (.orderBookDelta {}) },
    { event := marketEvent 2 (.int second) (.orderBookDelta {}) }]]

/-- After a numbered snapshot both refuse a repeated delta. -/
theorem inspectionAgrees_numbered : InspectionAgrees (twoDeltas (.int 4) 5) false := by
  refine ((inspectionAgrees_iff _ _).2 (by decide +kernel)).mpr fun _ => ?_
  exact ⟨[marketEvent 0 (.int 4) (.orderBookSnapshot {}),
      marketEvent 1 (.int 5) (.orderBookDelta {})],
    marketEvent 2 (.int 5) (.orderBookDelta {}), [], rfl,
    ⟨⟨_, rfl⟩, 5, rfl, 5, rfl, le_refl 5⟩, _, rfl, by decide⟩

/-- After an unnumbered snapshot only the book does. -/
theorem inspection_misses_repeated_delta : ¬ InspectionAgrees (twoDeltas .absent 5) false := by
  intro h
  have hkeeps := h.mp (by decide +kernel)
  exact hkeeps (recordedEvents (twoDeltas .absent 5)) [] (List.append_nil _).symm
    (by decide +kernel)

end GhostAmm
