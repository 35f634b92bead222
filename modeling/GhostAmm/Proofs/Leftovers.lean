/-
What a failed split leaves behind.

The parts are selected, checked and written one after the other, so a part without events is
found when the files of the parts before it are there already.  There is always one: the first
part holds the first event.  The other refusals come before the loop and write nothing, so a
split that fails leaves nothing behind exactly when it is refused at once
(`failed_split_writes_nothing_iff`).
-/
import GhostAmm.Proofs.Splits

namespace GhostAmm

/-! ### The loop over the parts -/

section Loop

variable {part : ℕ → Except Py.Error WrittenSplit}

/-- With and without its files the loop ends in the same way. -/
theorem writeParts_result : ∀ indices : List ℕ,
    splitParts part indices = (writeParts part indices).2.map fun _ =>
      (writeParts part indices).1 := by
  intro indices
  induction indices with
  | nil => rfl
  | cons index rest ih =>
      rw [splitParts, writeParts]
      cases part index with
      | error e => rfl
      | ok written =>
          show (splitParts part rest >>= fun more => pure (written :: more)) = _
          rw [ih]
          cases (writeParts part rest).2 <;> rfl

/-- The loop raises exactly when some part does. -/
theorem writeParts_raises_iff : ∀ indices : List ℕ,
    (∃ e, (writeParts part indices).2 = .error e) ↔
      ∃ index ∈ indices, ∃ e, part index = .error e := by
  intro indices
  induction indices with
  | nil => simp [writeParts]
  | cons index rest ih =>
      rw [writeParts]
      cases hpart : part index with
      | error e => simp [hpart]
      | ok written => simp [hpart, ih]

/-- The file of a first part that is found is written. -/
theorem writeParts_ne_nil {index : ℕ} {rest : List ℕ} {w : WrittenSplit}
    (h : part index = .ok w) : (writeParts part (index :: rest)).1 ≠ [] := by
  rw [writeParts, h]
  exact List.cons_ne_nil _ _

end Loop

theorem map_raises_iff {ε α β : Type} {x : Except ε α} {f : α → β} :
    (∃ e, x.map f = .error e) ↔ ∃ e, x = .error e := by
  cases x <;> simp [Except.map]

/-! ### The parts -/

section Splitting

variable {eventId : String → ℕ → ℚ → String} {inputs : List (List Recorded)}
  {outName : List Char} {parts : ℤ} {metadataTypes : List String}
  {metadataEvents dataEvents : List Event} {firstTs lastTs : ℚ} {n index : ℕ}

/-- A part raises exactly when no event of the data falls in it. -/
theorem splitPart_raises_iff :
    (∃ e, splitPart eventId outName metadataEvents dataEvents firstTs lastTs n index = .error e) ↔
      ∀ event ∈ dataEvents, inPart firstTs lastTs n index event = false := by
  have hselected : (dataEvents.filter (inPart firstTs lastTs n index) = []) ↔
      ∀ event ∈ dataEvents, inPart firstTs lastTs n index event = false := by
    simp [List.filter_eq_nil_iff]
  rw [← hselected]
  unfold splitPart
  dsimp only
  generalize hsame : List.filter (fun event => eventInSplit _ _ _ _) dataEvents = selected
  rw [show dataEvents.filter (inPart firstTs lastTs n index) = selected from hsame]
  cases selected with
  | nil => simp
  | cons event rest => simp [List.min?_cons, List.max?_cons]

/-- The first event of the data falls in the first part. -/
theorem first_inPart (hn : 2 ≤ n) (hspan : firstTs < lastTs) {event : Event}
    (hevent : event.tsExchange = firstTs) : inPart firstTs lastTs n 0 event = true := by
  unfold inPart
  rw [eventInSplit_iff, hevent]
  refine ⟨(splitBoundary_zero _ _ _).le, Or.inl ?_⟩
  have hpos : (0 : ℚ) < n := by exact_mod_cast (by omega : 0 < n)
  have hstretch : 0 < (lastTs - firstTs) / n := div_pos (sub_pos.mpr hspan) hpos
  unfold splitBoundary
  rw [zero_add, Nat.cast_one, mul_one]
  linarith

/-- The file of the first part is written. -/
theorem first_written (hn : 2 ≤ n) (hspan : firstTs < lastTs)
    (hmin : (dataEvents.map Event.tsExchange).min? = some firstTs) :
    (writeParts (splitPart eventId outName metadataEvents dataEvents firstTs lastTs n)
      (List.range n)).1 ≠ [] := by
  obtain ⟨event, hevent, hfirst⟩ := List.mem_map.mp (List.min?_eq_some_iff.mp hmin).1
  have hin := first_inPart hn hspan hfirst
  obtain ⟨m, rfl⟩ : ∃ m, n = m + 1 := ⟨n - 1, by omega⟩
  rw [List.range_succ_eq_map]
  cases hpart : splitPart eventId outName metadataEvents dataEvents firstTs lastTs (m + 1) 0 with
  | ok written => exact writeParts_ne_nil hpart
  | error e =>
      have hempty := splitPart_raises_iff.mp ⟨e, hpart⟩ event hevent
      exact absurd hin (Bool.eq_false_iff.mp hempty)

/-- What is returned does not depend on whether the files are looked at. -/
theorem splitRecordingFiles_result (eventId : String → ℕ → ℚ → String)
    (inputs : List (List Recorded)) (outName : List Char) (parts : ℤ)
    (metadataTypes : List String) :
    (splitRecordingFiles eventId inputs outName parts metadataTypes).2
      = splitRecordingByTime eventId inputs outName parts metadataTypes := by
  unfold splitRecordingFiles splitRecordingByTime
  dsimp only
  split
  · rfl
  · split
    · rfl
    · split
      · split
        · rfl
        · rw [writeParts_result]
          generalize writeParts _ _ = loop
          obtain ⟨written, result⟩ := loop
          cases result <;> rfl
      · rfl

/--
**A split that fails has written nothing exactly where each part has data, once the data spans
some time.**  Then it does not fail after all; where the recording has no data, or all of it at
one time, it is refused before the first part; and where a part is empty, the files of the parts
before it are left.
-/
theorem failed_split_writes_nothing_iff (hparts : 2 ≤ parts) :
    ((∃ e, (splitRecordingFiles eventId inputs outName parts metadataTypes).2 = .error e) →
      (splitRecordingFiles eventId inputs outName parts metadataTypes).1 = []) ↔
    ∀ firstTs lastTs : ℚ,
      ((dataOf metadataTypes inputs).map Event.tsExchange).min? = some firstTs →
      ((dataOf metadataTypes inputs).map Event.tsExchange).max? = some lastTs →
      firstTs < lastTs → ∀ index < parts.toNat, ∃ event ∈ dataOf metadataTypes inputs,
        inPart firstTs lastTs parts.toNat index event = true := by
  unfold splitRecordingFiles
  rw [if_neg (not_lt.mpr hparts), collectEvents_nil]
  by_cases hinputs : inputs.length = 0
  · obtain rfl := List.length_eq_zero_iff.mp hinputs
    simp [dataOf, dataFrom]
  rw [if_neg hinputs]
  dsimp only
  rw [show dataFrom metadataTypes [] inputs.flatten = dataOf metadataTypes inputs from rfl]
  split
  case h_2 hnone =>
    refine iff_of_true (fun _ => rfl) fun firstTs lastTs hmin hmax => ?_
    exact absurd hmax (hnone firstTs lastTs hmin)
  case h_1 firstTs lastTs hmin hmax =>
    simp only [hmin, hmax, Option.some.injEq]
    split
    · rename_i hspan
      refine iff_of_true (fun _ => rfl) fun first last hfirst hlast hlt => ?_
      subst hfirst hlast
      exact absurd hlt (not_lt.mpr hspan)
    · rename_i hspan
      have hn : 2 ≤ parts.toNat := by omega
      have hwritten := @first_written eventId outName
        (retainedFrom metadataTypes [] inputs.flatten) _ _ _ _ hn (not_le.mp hspan) hmin
      have hraises := @writeParts_raises_iff (splitPart eventId outName
        (retainedFrom metadataTypes [] inputs.flatten) (dataOf metadataTypes inputs) firstTs lastTs
        parts.toNat) (List.range parts.toNat)
      simp only [splitPart_raises_iff, List.mem_range] at hraises
      generalize writeParts _ _ = loop at hwritten hraises ⊢
      obtain ⟨written, result⟩ := loop
      rw [map_raises_iff, hraises]
      constructor
      · rintro hnone first last rfl rfl - index hindex
        by_contra hempty
        refine hwritten (hnone ⟨index, hindex, fun event hevent => ?_⟩)
        exact Bool.eq_false_iff.mpr fun hin => hempty ⟨event, hevent, hin⟩
      · rintro hall ⟨index, hindex, hempty⟩
        obtain ⟨event, hevent, hin⟩ := hall _ _ rfl rfl (not_le.mp hspan) index hindex
        exact absurd hin (Bool.eq_false_iff.mp (hempty event hevent))

end Splitting

/-- Tickers, the first two of them close together. -/
private def unevenRecording : List (List Recorded) :=
  [[⟨marketEvent 1000 .absent (.bitbankTicker {}), true⟩,
    ⟨marketEvent 1100 .absent (.bitbankTicker {}), true⟩,
    ⟨marketEvent 3000 .absent (.bitbankTicker {}), true⟩]]

theorem failed_split_writes_nothing_iff_thirds :
    ((∃ e, (splitRecordingFiles (fun id _ _ => id) unevenRecording "part".toList 3
        defaultMetadataEventTypes).2 = .error e) →
      (splitRecordingFiles (fun id _ _ => id) unevenRecording "part".toList 3
        defaultMetadataEventTypes).1 = []) ↔
    ∀ firstTs lastTs : ℚ,
      ((dataOf defaultMetadataEventTypes unevenRecording).map Event.tsExchange).min?
        = some firstTs →
      ((dataOf defaultMetadataEventTypes unevenRecording).map Event.tsExchange).max?
        = some lastTs →
      firstTs < lastTs → ∀ index < (3 : ℤ).toNat,
        ∃ event ∈ dataOf defaultMetadataEventTypes unevenRecording,
          inPart firstTs lastTs (3 : ℤ).toNat index event = true :=
  failed_split_writes_nothing_iff (by decide)

/-- With the second third empty, the split fails and the file of the first third is left. -/
theorem failed_split_leaves_file :
    (∃ e, (splitRecordingFiles (fun id _ _ => id) unevenRecording "part".toList 3
        defaultMetadataEventTypes).2 = .error e) ∧
      (splitRecordingFiles (fun id _ _ => id) unevenRecording "part".toList 3
        defaultMetadataEventTypes).1.map (fun w => w.split.path) = ["part_01.jsonl".toList] := by
  refine ⟨?_, by decide +kernel⟩
  have hnone : (splitRecordingFiles (fun id _ _ => id) unevenRecording "part".toList 3
      defaultMetadataEventTypes).2.toOption = none :=
    Option.isNone_iff_eq_none.mp (by decide +kernel)
  cases hresult : (splitRecordingFiles (fun id _ _ => id) unevenRecording "part".toList 3
      defaultMetadataEventTypes).2 with
  | error e => exact ⟨e, rfl⟩
  | ok result =>
      rw [hresult] at hnone
      simp [Except.toOption] at hnone

end GhostAmm
