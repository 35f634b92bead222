/-
What becomes of the order of a stream when a recording is rearranged.

Replay accepts a recording whose streams count upwards, so a rearrangement of an accepted
one is accepted when no two numbered events of a stream change places without need.  The
sort by exchange time is such a rearrangement only where texts sort as numbers do: events
of one millisecond are put in the order of the texts of their numbers.  A split is one
always.  It selects events by time and copies the first of each metadata type to the front,
and what is first of its type has nothing of its stream before it.
-/
import GhostAmm.Lib.Stable
import GhostAmm.Proofs.Sequences
import GhostAmm.Proofs.Splits

namespace GhostAmm

/-- Two events of one stream are in the order of their numbers. -/
abbrev EventsInStep : Event → Event → Prop := Streams.InStep streamKey Event.number

theorem assertMonotonicSequences_iff_pairwise (events : List Event) :
    assertMonotonicSequences Py.Table.empty events = .ok () ↔ events.Pairwise EventsInStep :=
  (assertMonotonicSequences_iff events).trans Streams.forward_iff_pairwise

/-! ### The sort by exchange time -/

theorem comesBefore_iff {a b : Event} : comesBefore a b = true ↔
    a.tsExchange < b.tsExchange ∨
      (a.tsExchange = b.tsExchange ∧ a.sequence.str ≤ b.sequence.str) := by
  unfold comesBefore
  rw [decide_eq_true_eq]

instance comesBefore_total : Std.Total fun a b : Event => comesBefore a b = true where
  total a b := by
    rw [comesBefore_iff, comesBefore_iff]
    rcases lt_trichotomy a.tsExchange b.tsExchange with h | h | h
    · exact Or.inl (Or.inl h)
    · rcases le_total a.sequence.str b.sequence.str with hs | hs
      · exact Or.inl (Or.inr ⟨h, hs⟩)
      · exact Or.inr (Or.inr ⟨h.symm, hs⟩)
    · exact Or.inr (Or.inl h)

instance comesBefore_trans : IsTrans Event fun a b => comesBefore a b = true where
  trans a b c hab hbc := by
    rw [comesBefore_iff] at hab hbc ⊢
    rcases hab with hab | ⟨hab, hsab⟩
    · rcases hbc with hbc | ⟨hbc, -⟩
      · exact Or.inl (hab.trans hbc)
      · exact Or.inl (hbc ▸ hab)
    · rcases hbc with hbc | ⟨hbc, hsbc⟩
      · exact Or.inl (hab ▸ hbc)
      · exact Or.inr ⟨hab.trans hbc, hsab.trans hsbc⟩

/-- Of two events of one stream and one time, the texts of the numbers sort as the numbers do. -/
def TextsSort (a b : Event) : Prop :=
  a.tsExchange = b.tsExchange → streamKey a = streamKey b →
    ∀ n ∈ a.number, ∀ m ∈ b.number, n < m → a.sequence.str ≤ b.sequence.str

/-- What the sort asks of two events that arrive in the order of their times and numbers. -/
theorem kept_iff_textsSort {a b : Event} (hts : a.tsExchange ≤ b.tsExchange)
    (hstep : EventsInStep a b) :
    Stable.Kept (fun a b => comesBefore a b = true) EventsInStep a b ↔ TextsSort a b := by
  constructor
  · intro hkept htie hkey n hn m hm hlt
    by_contra htext
    have hmoved : ¬ comesBefore a b = true := by
      rw [comesBefore_iff]
      rintro (h | ⟨-, h⟩)
      · exact absurd htie h.ne
      · exact htext h
    have hle := hkept.2 hmoved hkey.symm m hm n hn
    omega
  · intro hsort
    refine ⟨fun _ => hstep, fun (hmoved : ¬ comesBefore a b = true) hkey m hm n hn => ?_⟩
    rw [comesBefore_iff, not_or] at hmoved
    have htie : a.tsExchange = b.tsExchange := le_antisymm hts (not_lt.mp hmoved.1)
    by_contra hlt
    exact hmoved.2 ⟨htie, hsort htie hkey.symm n hn m hm (not_le.mp hlt)⟩

theorem orderEvents_sorted {cfg : ReplayConfig} {events sorted : List Event}
    {replayOrder : Option String}
    (h : orderEvents cfg events replayOrder = .ok ("exchange_time_sort", sorted)) :
    sorted = events.insertionSort fun a b => comesBefore a b = true := by
  unfold orderEvents at h
  simp only at h
  split at h
  · cases h
  · split at h
    · split at h
      · cases h
      · exact (Prod.mk.inj (Except.ok.inj h)).2.symm
    · rename_i hother
      exact absurd (Prod.mk.inj (Except.ok.inj h)).1 hother

/-- **Sorting by exchange time keeps an accepted recording accepted exactly when, within each
stream and millisecond, the texts of the numbers sort as the numbers do.** -/
theorem sort_keeps_sequences_iff (cfg : ReplayConfig) (events sorted : List Event)
    (replayOrder : Option String)
    (horder : orderEvents cfg events replayOrder = .ok ("exchange_time_sort", sorted))
    (hts : events.Pairwise fun a b => a.tsExchange ≤ b.tsExchange)
    (hstrict : assertMonotonicSequences Py.Table.empty events = .ok ()) :
    assertMonotonicSequences Py.Table.empty sorted = .ok () ↔ events.Pairwise TextsSort := by
  rw [assertMonotonicSequences_iff_pairwise] at hstrict ⊢
  rw [orderEvents_sorted horder, Stable.pairwise_insertionSort_iff]
  have hboth := hts.and hstrict
  constructor
  · intro hkept
    exact (hkept.and hboth).imp fun h => (kept_iff_textsSort h.2.1 h.2.2).mp h.1
  · intro hsort
    exact (hsort.and hboth).imp fun h => (kept_iff_textsSort h.2.1 h.2.2).mpr h.1

/-- Two trades in one millisecond. -/
def tiedTrades (first second : ℤ) : List Event :=
  [marketEvent 5 (.int first) (.trade ⟨some .sell, 10000000, 1⟩),
    marketEvent 5 (.int second) (.trade ⟨some .sell, 10000000, 1⟩)]

theorem sort_keeps_eight_nine :
    assertMonotonicSequences Py.Table.empty
      ((tiedTrades 8 9).insertionSort fun a b => comesBefore a b = true) = .ok () := by
  refine (sort_keeps_sequences_iff {} (tiedTrades 8 9) _ (some "exchange_time_sort") rfl
    (by decide +kernel) (by decide +kernel)).mpr ?_
  refine List.pairwise_pair.mpr fun _ _ n hn m hm _ => ?_
  decide +kernel

/-- The text of 10 sorts before the text of 9. -/
theorem sort_reverses_nine_ten :
    ¬ ∀ (cfg : ReplayConfig) (events sorted : List Event) (replayOrder : Option String),
      orderEvents cfg events replayOrder = .ok ("exchange_time_sort", sorted) →
      events.Pairwise (fun a b => a.tsExchange ≤ b.tsExchange) →
      assertMonotonicSequences Py.Table.empty events = .ok () →
      assertMonotonicSequences Py.Table.empty sorted = .ok () := by
  intro h
  have hsorted := h {} (tiedTrades 9 10) _ (some "exchange_time_sort") rfl (by decide +kernel)
    (by decide +kernel)
  exact absurd hsorted (by decide +kernel)

/-! ### A split -/

/-- Both halves of a recording keep its order. -/
theorem collected_sublist (metadataTypes : List String) : ∀ rest before : List Recorded,
    (retainedFrom metadataTypes before rest).Sublist (rest.map Recorded.event) ∧
      (dataFrom metadataTypes before rest).Sublist (rest.map Recorded.event) := by
  intro rest
  induction rest with
  | nil => intro before; exact ⟨List.Sublist.refl _, List.Sublist.refl _⟩
  | cons recorded rest ih =>
      intro before
      obtain ⟨hretained, hdata⟩ := ih (before ++ [recorded])
      rw [retainedFrom, dataFrom, List.map_cons]
      constructor
      · split
        · exact hretained.cons_cons _
        · exact hretained.cons _
      · split
        · exact hdata.cons_cons _
        · exact hdata.cons _

/-- What is retained has nothing of its type before it. -/
theorem retainedFrom_first {metadataTypes : List String} {m : Event} :
    ∀ {rest before : List Recorded}, m ∈ retainedFrom metadataTypes before rest →
      m.body.eventType ∈ metadataTypes ∧
        ∀ r ∈ before, r.event.body.eventType ≠ m.body.eventType := by
  intro rest
  induction rest with
  | nil => intro before h; simp [retainedFrom] at h
  | cons recorded rest ih =>
      intro before h
      have hmore : m ∈ retainedFrom metadataTypes (before ++ [recorded]) rest →
          m.body.eventType ∈ metadataTypes ∧
            ∀ r ∈ before, r.event.body.eventType ≠ m.body.eventType := fun hm =>
        ⟨(ih hm).1, fun r hr => (ih hm).2 r (List.mem_append_left _ hr)⟩
      rw [retainedFrom] at h
      split at h
      · rename_i hfirst
        rcases List.mem_cons.mp h with rfl | hm
        · exact hfirst
        · exact hmore hm
      · exact hmore h

/-- A law of the recording holds of a retained event and the data of its type. -/
theorem retained_before_data {metadataTypes : List String} {S : Event → Event → Prop}
    {m d : Event} (htype : d.body.eventType = m.body.eventType) :
    ∀ {rest before : List Recorded}, m ∈ retainedFrom metadataTypes before rest →
      d ∈ dataFrom metadataTypes before rest → (rest.map Recorded.event).Pairwise S → S m d := by
  intro rest
  induction rest with
  | nil => intro before h; simp [retainedFrom] at h
  | cons recorded rest ih =>
      intro before hm hd hlaw
      rw [List.map_cons, List.pairwise_cons] at hlaw
      rw [retainedFrom] at hm
      rw [dataFrom] at hd
      by_cases hfirst : IsFirstOfType metadataTypes before recorded
      · rw [if_pos hfirst] at hm
        rw [if_neg fun h => h.2 hfirst] at hd
        rcases List.mem_cons.mp hm with rfl | hm
        · exact hlaw.1 d ((collected_sublist _ _ _).2.subset hd)
        · exact ih hm hd hlaw.2
      · rw [if_neg hfirst] at hm
        split at hd
        · rcases List.mem_cons.mp hd with rfl | hd
          · -- the data would be an earlier event of the type
            exact absurd htype
              ((retainedFrom_first hm).2 recorded (List.mem_append_right _ List.mem_cons_self))
          · exact ih hm hd hlaw.2
        · exact ih hm hd hlaw.2

/-- In the stream of a default metadata type there is nothing but that type. -/
theorem eventType_of_stream {m d : Event} (hm : m.body.eventType ∈ defaultMetadataEventTypes)
    (h : streamKey m = streamKey d) : d.body.eventType = m.body.eventType := by
  have hstream : sequenceStream m.body.eventType = sequenceStream d.body.eventType :=
    (Prod.mk.inj (Prod.mk.inj h).2).2
  have hbook : m.body.eventType ≠ "order_book" ∧
      sequenceStream m.body.eventType = m.body.eventType := by
    unfold defaultMetadataEventTypes at hm
    simp only [List.mem_cons, List.not_mem_nil, or_false] at hm
    rcases hm with hm | hm
    · rw [hm]
      decide
    · rw [hm]
      decide
  rw [hbook.2] at hstream
  unfold sequenceStream at hstream
  split at hstream
  · exact absurd hstream hbook.1
  · exact hstream.symm

theorem map_stream_copies {kept copies : List Event} (h : List.Forall₂ CopyOf kept copies) :
    (copies.map fun e => (streamKey e, e.number)) = kept.map fun e => (streamKey e, e.number) := by
  induction h with
  | nil => rfl
  | cons hcopy _ ih =>
      obtain ⟨id, ts, rfl⟩ := hcopy
      rw [List.map_cons, List.map_cons, ih]
      rfl

/-- The metadata in front of a selection of the data of an accepted recording. -/
theorem split_forward {recording : List Recorded} {copies selected : List Event}
    (hcopies : List.Forall₂ CopyOf (retainedFrom defaultMetadataEventTypes [] recording) copies)
    (hselected : selected.Sublist (dataFrom defaultMetadataEventTypes [] recording))
    (hstrict : (recording.map Recorded.event).Pairwise EventsInStep) :
    Streams.Forward streamKey Event.number (copies ++ selected) := by
  have hmap : (copies ++ selected).map (fun e => (streamKey e, e.number))
      = (retainedFrom defaultMetadataEventTypes [] recording ++ selected).map
          fun e => (streamKey e, e.number) := by
    rw [List.map_append, List.map_append, map_stream_copies hcopies]
  rw [Streams.forward_congr hmap, Streams.forward_iff_pairwise, List.pairwise_append]
  obtain ⟨hretained, hdata⟩ := collected_sublist defaultMetadataEventTypes recording []
  refine ⟨hstrict.sublist hretained, hstrict.sublist (hselected.trans hdata),
    fun m hm d hd hkey => ?_⟩
  have htype := eventType_of_stream (retainedFrom_first hm).1 hkey
  exact retained_before_data htype hm (hselected.subset hd) hstrict hkey

/-- **Every file of a split of an accepted recording is accepted.** -/
theorem split_keeps_sequences (eventId : String → ℕ → ℚ → String) (inputs : List (List Recorded))
    (outName : List Char) (parts : ℤ) (result : RecordingSplitResult)
    (h : splitRecordingByTime eventId inputs outName parts defaultMetadataEventTypes = .ok result)
    (hstrict : assertMonotonicSequences Py.Table.empty (inputs.flatten.map Recorded.event)
      = .ok ()) :
    ∀ w ∈ result.splits, assertMonotonicSequences Py.Table.empty w.file = .ok () := by
  intro w hw
  obtain ⟨-, -, -, -, -, hparts⟩ := splitRecordingByTime_ok h
  obtain ⟨index, hindex⟩ := List.mem_iff_getElem?.mp hw
  have hpart := (part_of_getElem? hparts hindex).2
  rw [assertMonotonicSequences_iff, hpart.file]
  exact split_forward (metadataForSplit_spec _ _).2.2 List.filter_sublist
    ((assertMonotonicSequences_iff_pairwise _).mp hstrict)

/-- A recording with numbered metadata and a book, over four seconds. -/
def numberedRecording : List (List Recorded) :=
  [[⟨marketEvent 900 (.int 1) (.bitbankStatus { pair := "btc_jpy" }), true⟩,
    ⟨marketEvent 1000 (.int 7) (.orderBookSnapshot {}), true⟩,
    ⟨marketEvent 1500 (.int 2) (.bitbankStatus { pair := "btc_jpy" }), true⟩],
   [⟨marketEvent 5000 (.int 8) (.orderBookDelta {}), true⟩]]

theorem split_keeps_numberedRecording :
    ∃ result, splitRecordingByTime (fun id _ _ => id) numberedRecording "split".toList 2
        defaultMetadataEventTypes = .ok result ∧
      ∀ w ∈ result.splits, assertMonotonicSequences Py.Table.empty w.file = .ok () := by
  have hok : (splitRecordingByTime (fun id _ _ => id) numberedRecording "split".toList 2
      defaultMetadataEventTypes).isOk = true := by decide +kernel
  cases hresult : splitRecordingByTime (fun id _ _ => id) numberedRecording "split".toList 2
      defaultMetadataEventTypes with
  | error e =>
      rw [hresult] at hok
      cases hok
  | ok result =>
      exact ⟨result, rfl, split_keeps_sequences _ _ _ _ _ hresult (by decide +kernel)⟩

end GhostAmm
