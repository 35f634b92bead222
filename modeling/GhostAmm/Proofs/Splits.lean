/-
What splitting a recording keeps.

The stretches of time are the cells between equally spaced boundaries, so each data event
falls in exactly one of them, an event on a boundary included, and each file is a filter of
the data: the files together are the data, each event once and in the order it had.  What
stands before the data of a file is a copy of the first event of each metadata type.

That copy is what was in force when the recording began.  Metadata that came later stays
where it fell, so a split starts from the metadata in force only if none of what came before
it had changed.
-/
import GhostAmm.Lib.Cells
import GhostAmm.Model.Split
import GhostAmm.Proofs.Gates

namespace GhostAmm

/-! ### The data and the metadata of a recording -/

/-- The first event of a metadata type, after the events `before` it. -/
def IsFirstOfType (metadataTypes : List String) (before : List Recorded) (recorded : Recorded) :
    Prop :=
  recorded.event.body.eventType ∈ metadataTypes ∧
    ∀ r ∈ before, r.event.body.eventType ≠ recorded.event.body.eventType

instance (metadataTypes : List String) (before : List Recorded) (recorded : Recorded) :
    Decidable (IsFirstOfType metadataTypes before recorded) := by
  unfold IsFirstOfType
  infer_instance

/-- The first events of the metadata types, in what follows `before`. -/
def retainedFrom (metadataTypes : List String) (before : List Recorded) :
    List Recorded → List Event
  | [] => []
  | recorded :: rest =>
      let more := retainedFrom metadataTypes (before ++ [recorded]) rest
      if IsFirstOfType metadataTypes before recorded then recorded.event :: more else more

/-- The timestamped events that are not the first of a metadata type, in what follows
`before`. -/
def dataFrom (metadataTypes : List String) (before : List Recorded) : List Recorded → List Event
  | [] => []
  | recorded :: rest =>
      let more := dataFrom metadataTypes (before ++ [recorded]) rest
      if recorded.timestamped = true ∧ ¬ IsFirstOfType metadataTypes before recorded then
        recorded.event :: more
      else more

/-- The loop remembers which metadata types it has seen. -/
theorem collectEvents_eq (metadataTypes : List String) : ∀ (rest before : List Recorded)
    (seen : List String),
    (∀ eventType ∈ metadataTypes,
      eventType ∈ seen ↔ ∃ r ∈ before, r.event.body.eventType = eventType) →
    collectEvents metadataTypes seen rest
      = (retainedFrom metadataTypes before rest, dataFrom metadataTypes before rest) := by
  intro rest
  induction rest with
  | nil => intro before seen _; rfl
  | cons recorded rest ih =>
      intro before seen hseen
      have hfirst : (recorded.event.body.eventType ∈ metadataTypes ∧
          recorded.event.body.eventType ∉ seen) ↔ IsFirstOfType metadataTypes before recorded := by
        refine and_congr_right fun hmem => ?_
        rw [hseen _ hmem]
        simp
      rw [collectEvents, retainedFrom, dataFrom]
      by_cases hnew : IsFirstOfType metadataTypes before recorded
      · have hnext : ∀ eventType ∈ metadataTypes,
            eventType ∈ recorded.event.body.eventType :: seen ↔
              ∃ r ∈ before ++ [recorded], r.event.body.eventType = eventType := by
          intro eventType hmem
          rw [List.mem_cons, hseen eventType hmem]
          simp [or_comm, eq_comm]
        simp only [if_pos (hfirst.mpr hnew), ih _ _ hnext]
        simp [hnew]
      · have hnext : ∀ eventType ∈ metadataTypes,
            eventType ∈ seen ↔ ∃ r ∈ before ++ [recorded], r.event.body.eventType = eventType := by
          intro eventType hmem
          rw [hseen eventType hmem]
          constructor
          · rintro ⟨r, hr, hty⟩
            exact ⟨r, by simp [hr], hty⟩
          · rintro ⟨r, hr, hty⟩
            rcases List.mem_append.mp hr with hr | hr
            · exact ⟨r, hr, hty⟩
            · rw [List.mem_singleton] at hr
              subst hr
              by_contra hnone
              refine hnew ⟨hty ▸ hmem, fun r hr heq => hnone ⟨r, hr, heq.trans hty⟩⟩
        simp only [if_neg (fun h => hnew (hfirst.mp h)), ih _ _ hnext]
        simp [hnew]

theorem collectEvents_nil (metadataTypes : List String) (recording : List Recorded) :
    collectEvents metadataTypes [] recording
      = (retainedFrom metadataTypes [] recording, dataFrom metadataTypes [] recording) :=
  collectEvents_eq metadataTypes recording [] [] fun _ _ => by simp

/-! ### The stretches of time -/

theorem splitBoundary_mono {firstTs span : ℚ} {parts : ℕ} (hspan : 0 ≤ span) :
    Monotone (splitBoundary firstTs span parts) := by
  intro i j hij
  unfold splitBoundary
  have hcast : (i : ℚ) ≤ j := by exact_mod_cast hij
  gcongr

theorem splitBoundary_zero (firstTs span : ℚ) (parts : ℕ) :
    splitBoundary firstTs span parts 0 = firstTs := by
  unfold splitBoundary
  simp

theorem splitBoundary_parts (firstTs lastTs : ℚ) {parts : ℕ} (hparts : 0 < parts) :
    splitBoundary firstTs (lastTs - firstTs) parts parts = lastTs := by
  unfold splitBoundary
  have hne : (parts : ℚ) ≠ 0 := by exact_mod_cast hparts.ne'
  field_simp
  ring

theorem eventInSplit_iff {ts : ℚ} {b : ℕ → ℚ} {parts index : ℕ} :
    eventInSplit ts (b index) (b (index + 1)) (decide (index + 1 = parts)) = true ↔
      Cells.InCell b parts index ts := by
  unfold eventInSplit Cells.InCell
  by_cases hlast : index + 1 = parts
  · simp only [hlast, decide_true, if_true, decide_eq_true_eq, true_and]
    refine and_congr_right fun _ => ⟨Or.inr, ?_⟩
    rintro (hlt | hle)
    · exact hlt.le
    · exact hle
  · simp [hlast]

/-! ### The parts -/

theorem splitParts_ok {part : ℕ → Except Py.Error WrittenSplit} : ∀ {indices : List ℕ}
    {splits : List WrittenSplit}, splitParts part indices = .ok splits →
      List.Forall₂ (fun index w => part index = .ok w) indices splits := by
  intro indices
  induction indices with
  | nil =>
      intro splits h
      obtain rfl := Except.ok.inj h
      exact List.Forall₂.nil
  | cons index rest ih =>
      intro splits h
      rw [splitParts] at h
      cases hpart : part index with
      | error e => simp [hpart, bind, Except.bind] at h
      | ok w =>
          cases hmore : splitParts part rest with
          | error e => simp [hpart, hmore, bind, Except.bind] at h
          | ok more =>
              simp only [hpart, hmore, bind, Except.bind, pure, Except.pure,
                Except.ok.injEq] at h
              rw [← h]
              exact List.Forall₂.cons hpart (ih hmore)

/-- What a part holds, for its index. -/
structure IsPart (eventId : String → ℕ → ℚ → String) (outName : List Char)
    (metadataEvents selected : List Event) (index : ℕ) (w : WrittenSplit) : Prop where
  file : w.file = metadataForSplit eventId metadataEvents w.split.startTs ++ selected
  startTs : (selected.map Event.tsExchange).min? = some w.split.startTs
  dataEvents : w.split.dataEvents = selected.length
  path : w.split.path = splitPath outName index

theorem splitPart_ok {eventId : String → ℕ → ℚ → String} {outName : List Char}
    {metadataEvents dataEvents : List Event} {firstTs lastTs : ℚ} {parts index : ℕ}
    {w : WrittenSplit}
    (h : splitPart eventId outName metadataEvents dataEvents firstTs lastTs parts index = .ok w) :
    IsPart eventId outName metadataEvents
      (dataEvents.filter fun event => eventInSplit event.tsExchange
        (splitBoundary firstTs (lastTs - firstTs) parts index)
        (splitBoundary firstTs (lastTs - firstTs) parts (index + 1))
        (decide (index + 1 = parts))) index w := by
  unfold splitPart at h
  dsimp only at h
  split at h
  · rename_i splitStart splitEnd hmin hmax
    rw [← Except.ok.inj h]
    exact ⟨rfl, hmin, rfl, rfl⟩
  · simp at h

/-- The metadata a recording keeps apart. -/
def retainedOf (metadataTypes : List String) (inputs : List (List Recorded)) : List Event :=
  retainedFrom metadataTypes [] inputs.flatten

/-- The data of a recording. -/
def dataOf (metadataTypes : List String) (inputs : List (List Recorded)) : List Event :=
  dataFrom metadataTypes [] inputs.flatten

/-- Whether an event of the data goes to a part. -/
def inPart (firstTs lastTs : ℚ) (parts index : ℕ) (event : Event) : Bool :=
  eventInSplit event.tsExchange (splitBoundary firstTs (lastTs - firstTs) parts index)
    (splitBoundary firstTs (lastTs - firstTs) parts (index + 1)) (decide (index + 1 = parts))

section Splitting

variable {eventId : String → ℕ → ℚ → String} {inputs : List (List Recorded)}
  {outName : List Char} {parts : ℤ} {metadataTypes : List String} {result : RecordingSplitResult}

/-- What a split that returns has found, and the parts it has made. -/
theorem splitRecordingByTime_ok
    (h : splitRecordingByTime eventId inputs outName parts metadataTypes = .ok result) :
    2 ≤ parts ∧ result.parts = parts.toNat ∧ result.firstTs < result.lastTs ∧
      ((dataOf metadataTypes inputs).map Event.tsExchange).min? = some result.firstTs ∧
      ((dataOf metadataTypes inputs).map Event.tsExchange).max? = some result.lastTs ∧
      List.Forall₂ (fun index w => IsPart eventId outName (retainedOf metadataTypes inputs)
        ((dataOf metadataTypes inputs).filter
          (inPart result.firstTs result.lastTs result.parts index)) index w)
        (List.range result.parts) result.splits := by
  unfold splitRecordingByTime at h
  rw [collectEvents_nil] at h
  split at h
  · simp at h
  · rename_i hparts
    split at h
    · simp at h
    · dsimp only at h
      split at h
      · rename_i firstTs lastTs hmin hmax
        split at h
        · simp at h
        · rename_i hspan
          generalize hloop : splitParts _ _ = loop at h
          cases loop with
          | error e => simp [bind, Except.bind] at h
          | ok splits =>
              rw [← Except.ok.inj h]
              exact ⟨not_lt.mp hparts, rfl, not_le.mp hspan, hmin, hmax,
                (splitParts_ok hloop).imp fun _ _ => splitPart_ok⟩
      · simp at h

/-- Each event of the data falls in exactly one part. -/
theorem existsUnique_part {dataEvents : List Event} {firstTs lastTs : ℚ} {n : ℕ} (hn : 0 < n)
    (hmin : (dataEvents.map Event.tsExchange).min? = some firstTs)
    (hmax : (dataEvents.map Event.tsExchange).max? = some lastTs) (hspan : firstTs < lastTs)
    {event : Event} (hevent : event ∈ dataEvents) :
    ∃! index, index ∈ List.range n ∧ inPart firstTs lastTs n index event = true := by
  have hmem : event.tsExchange ∈ dataEvents.map Event.tsExchange := List.mem_map_of_mem hevent
  have hlo : firstTs ≤ event.tsExchange := (List.min?_eq_some_iff.mp hmin).2 _ hmem
  have hhi : event.tsExchange ≤ lastTs := (List.max?_eq_some_iff.mp hmax).2 _ hmem
  have hcell := Cells.existsUnique_cell
    (b := splitBoundary firstTs (lastTs - firstTs) n) (n := n) (x := event.tsExchange)
    (splitBoundary_mono (by linarith)) hn (by rw [splitBoundary_zero]; exact hlo)
    (by rw [splitBoundary_parts _ _ hn]; exact hhi)
  simpa only [List.mem_range, inPart, eventInSplit_iff] using hcell

/-- A copy of an event under another id and at another time. -/
def CopyOf (kept copy : Event) : Prop :=
  ∃ id ts, copy = { kept with eventId := id, tsExchange := ts, tsLocal := ts }

/-- The copies of the metadata, at increasing times below the split's first. -/
theorem metadataForSplit_spec (metadataEvents : List Event) (splitStartTs : ℚ) :
    (metadataForSplit eventId metadataEvents splitStartTs).Pairwise
        (fun a b => a.tsExchange < b.tsExchange) ∧
      (∀ copy ∈ metadataForSplit eventId metadataEvents splitStartTs,
        copy.tsExchange < splitStartTs) ∧
      List.Forall₂ CopyOf metadataEvents
        (metadataForSplit eventId metadataEvents splitStartTs) := by
  have hlen : (metadataForSplit eventId metadataEvents splitStartTs).length
      = metadataEvents.length := List.length_mapIdx
  refine ⟨?_, ?_, ?_⟩
  · rw [List.pairwise_iff_getElem]
    intro i j hi hj hij
    have hcast : (i : ℚ) < j := by exact_mod_cast hij
    simp only [metadataForSplit, List.getElem_mapIdx]
    linarith
  · intro copy hcopy
    obtain ⟨i, hi, rfl⟩ := List.mem_mapIdx.mp hcopy
    have hcast : (i : ℚ) < metadataEvents.length := by exact_mod_cast hi
    show splitStartTs - _ < splitStartTs
    linarith
  · refine List.forall₂_iff_get.mpr ⟨hlen.symm, fun i hi hi' => ?_⟩
    simp only [metadataForSplit, List.get_eq_getElem, List.getElem_mapIdx]
    exact ⟨_, _, rfl⟩

end Splitting

namespace WrittenSplit

/-- What stands before the data, of a file that begins with `n` metadata events. -/
def head (n : ℕ) (w : WrittenSplit) : List Event := w.file.take n

/-- The data of such a file. -/
def data (n : ℕ) (w : WrittenSplit) : List Event := w.file.drop n

end WrittenSplit

/-- Files that partition the data of a recording, each behind the metadata. -/
structure IsTimePartition (metadataEvents dataEvents : List Event) (splits : List WrittenSplit) :
    Prop where
  /-- Each event of the data is in one file. -/
  one : ∀ event ∈ dataEvents, ∃! index : ℕ, ∃ w : WrittenSplit, splits[index]? = some w ∧
    event ∈ w.data metadataEvents.length
  /-- The files hold each event as often as the data does, and nothing else. -/
  all : (splits.flatMap (WrittenSplit.data metadataEvents.length)).Perm dataEvents
  order : ∀ w ∈ splits, List.Sublist (w.data metadataEvents.length) dataEvents
  copies : ∀ w ∈ splits, List.Forall₂ CopyOf metadataEvents (w.head metadataEvents.length)
  increasing : ∀ w ∈ splits, (w.head metadataEvents.length).Pairwise fun a b =>
    a.tsExchange < b.tsExchange
  below : ∀ w ∈ splits, ∀ copy ∈ w.head metadataEvents.length,
    ∀ event ∈ w.data metadataEvents.length, copy.tsExchange < event.tsExchange
  nonempty : ∀ w ∈ splits, w.data metadataEvents.length ≠ []
  counts : (splits.map fun w => w.split.dataEvents).sum = dataEvents.length
  paths : (splits.map fun w => w.split.path).Nodup

namespace IsPart

variable {eventId : String → ℕ → ℚ → String} {outName : List Char}
  {metadataEvents selected : List Event} {index : ℕ} {w : WrittenSplit}

theorem head_eq (h : IsPart eventId outName metadataEvents selected index w) :
    w.head metadataEvents.length
      = metadataForSplit eventId metadataEvents w.split.startTs := by
  unfold WrittenSplit.head
  rw [h.file]
  exact List.take_left' List.length_mapIdx

theorem data_eq (h : IsPart eventId outName metadataEvents selected index w) :
    w.data metadataEvents.length = selected := by
  unfold WrittenSplit.data
  rw [h.file]
  exact List.drop_left' List.length_mapIdx

theorem copies (h : IsPart eventId outName metadataEvents selected index w) :
    List.Forall₂ CopyOf metadataEvents (w.head metadataEvents.length) := by
  rw [h.head_eq]
  exact (metadataForSplit_spec metadataEvents _).2.2

theorem increasing (h : IsPart eventId outName metadataEvents selected index w) :
    (w.head metadataEvents.length).Pairwise fun a b => a.tsExchange < b.tsExchange := by
  rw [h.head_eq]
  exact (metadataForSplit_spec metadataEvents _).1

/-- The copies come before the split's first time, and its first time before its data. -/
theorem below (h : IsPart eventId outName metadataEvents selected index w) {copy event : Event}
    (hcopy : copy ∈ w.head metadataEvents.length) (hevent : event ∈ w.data metadataEvents.length) :
    copy.tsExchange < event.tsExchange := by
  rw [h.head_eq] at hcopy
  rw [h.data_eq] at hevent
  have hcopied := (metadataForSplit_spec metadataEvents _).2.1 copy hcopy
  have hfirst := (List.min?_eq_some_iff.mp h.startTs).2 _ (List.mem_map_of_mem hevent)
  exact lt_of_lt_of_le hcopied hfirst

/-- A split that is written has data. -/
theorem nonempty (h : IsPart eventId outName metadataEvents selected index w) :
    w.data metadataEvents.length ≠ [] := by
  intro hempty
  have hstart := h.startTs
  rw [← h.data_eq, hempty] at hstart
  simp at hstart

end IsPart

theorem splitPath_injective {outName : List Char} {i j : ℕ}
    (h : splitPath outName i = splitPath outName j) : i = j := by
  unfold splitPath at h
  rw [List.append_cancel_right_eq, List.append_cancel_left_eq, List.cons.injEq] at h
  have := Py.zeroPad_injective 2 h.2
  omega

section Parts

variable {eventId : String → ℕ → ℚ → String} {outName : List Char}
  {metadataEvents dataEvents : List Event} {inPart : ℕ → Event → Bool} {indices : List ℕ}
  {splits : List WrittenSplit}

theorem flatMap_data (h : List.Forall₂ (fun index w =>
      IsPart eventId outName metadataEvents (dataEvents.filter (inPart index)) index w)
      indices splits) :
    splits.flatMap (WrittenSplit.data metadataEvents.length)
      = indices.flatMap fun index => dataEvents.filter (inPart index) := by
  induction h with
  | nil => rfl
  | cons hpart _ ih => rw [List.flatMap_cons, List.flatMap_cons, hpart.data_eq, ih]

theorem map_path (h : List.Forall₂ (fun index w =>
      IsPart eventId outName metadataEvents (dataEvents.filter (inPart index)) index w)
      indices splits) :
    (splits.map fun w => w.split.path) = indices.map (splitPath outName) := by
  induction h with
  | nil => rfl
  | cons hpart _ ih => rw [List.map_cons, List.map_cons, hpart.path, ih]

/-- The split that stands at an index is the part of that index. -/
theorem part_of_getElem? {n : ℕ} (h : List.Forall₂ (fun index w =>
      IsPart eventId outName metadataEvents (dataEvents.filter (inPart index)) index w)
      (List.range n) splits) {index : ℕ} {w : WrittenSplit} (hw : splits[index]? = some w) :
    index ∈ List.range n ∧
      IsPart eventId outName metadataEvents (dataEvents.filter (inPart index)) index w := by
  have hlen : splits.length = n := by
    rw [← h.length_eq, List.length_range]
  obtain ⟨hindex, rfl⟩ := List.getElem?_eq_some_iff.mp hw
  have hpart := (List.forall₂_iff_get.mp h).2 index (by simpa using hlen ▸ hindex) hindex
  simp only [List.get_eq_getElem, List.getElem_range] at hpart
  exact ⟨List.mem_range.mpr (hlen ▸ hindex), hpart⟩

/-- An event that falls in one part is in one file. -/
theorem existsUnique_split {n : ℕ} (h : List.Forall₂ (fun index w =>
      IsPart eventId outName metadataEvents (dataEvents.filter (inPart index)) index w)
      (List.range n) splits) {event : Event} (hevent : event ∈ dataEvents)
    (hcell : ∃! index, index ∈ List.range n ∧ inPart index event = true) :
    ∃! index : ℕ, ∃ w : WrittenSplit, splits[index]? = some w ∧
      event ∈ w.data metadataEvents.length := by
  obtain ⟨index, ⟨hindex, hin⟩, huniq⟩ := hcell
  have hlt : index < splits.length := by
    rw [← h.length_eq, List.length_range]
    exact List.mem_range.mp hindex
  have hw : splits[index]? = some splits[index] := List.getElem?_eq_getElem hlt
  refine ⟨index, ⟨splits[index], hw, ?_⟩, ?_⟩
  · rw [(part_of_getElem? h hw).2.data_eq]
    exact List.mem_filter.mpr ⟨hevent, hin⟩
  · rintro j ⟨w, hw, hj⟩
    obtain ⟨hrange, hpart⟩ := part_of_getElem? h hw
    rw [hpart.data_eq] at hj
    exact huniq j ⟨hrange, (List.mem_filter.mp hj).2⟩

/-- Parts that select the data by cells partition it. -/
theorem isTimePartition_of_parts {n : ℕ} (hparts : List.Forall₂ (fun index w =>
      IsPart eventId outName metadataEvents (dataEvents.filter (inPart index)) index w)
      (List.range n) splits)
    (hcell : ∀ event ∈ dataEvents,
      ∃! index, index ∈ List.range n ∧ inPart index event = true) :
    IsTimePartition metadataEvents dataEvents splits := by
  have hmem : ∀ w ∈ splits, ∃ index,
      IsPart eventId outName metadataEvents (dataEvents.filter (inPart index)) index w := by
    intro w hw
    obtain ⟨index, hindex⟩ := List.mem_iff_getElem?.mp hw
    exact ⟨index, (part_of_getElem? hparts hindex).2⟩
  have hall : splits.flatMap (WrittenSplit.data metadataEvents.length)
      = (List.range n).flatMap fun index => dataEvents.filter (inPart index) :=
    flatMap_data hparts
  have hperm := Cells.flatMap_filter_perm inPart List.nodup_range hcell
  refine ⟨fun event hevent => existsUnique_split hparts hevent (hcell event hevent),
    hall ▸ hperm, ?_, ?_, ?_, ?_, ?_, ?_, ?_⟩
  · intro w hw
    obtain ⟨index, hpart⟩ := hmem w hw
    rw [hpart.data_eq]
    exact List.filter_sublist
  · intro w hw
    obtain ⟨index, hpart⟩ := hmem w hw
    exact hpart.copies
  · intro w hw
    obtain ⟨index, hpart⟩ := hmem w hw
    exact hpart.increasing
  · intro w hw copy hcopy event hevent
    obtain ⟨index, hpart⟩ := hmem w hw
    exact hpart.below hcopy hevent
  · intro w hw
    obtain ⟨index, hpart⟩ := hmem w hw
    exact hpart.nonempty
  · rw [← hperm.length_eq, ← hall, List.length_flatMap]
    congr 1
    refine List.map_congr_left fun w hw => ?_
    obtain ⟨index, hpart⟩ := hmem w hw
    rw [hpart.dataEvents, hpart.data_eq]
  · rw [map_path hparts]
    exact List.Nodup.map (fun _ _ => splitPath_injective) List.nodup_range

end Parts

/--
**Splitting is a partition.**  Whenever a recording is split, each timestamped event that is
not the first of a metadata type is in exactly one file, as often as in the recording and in
the order it has there, behind copies of the retained metadata at strictly increasing times
below the file's first, and the reported counts add up.
-/
theorem split_is_partition {eventId : String → ℕ → ℚ → String} {inputs : List (List Recorded)}
    {outName : List Char} {parts : ℤ} {metadataTypes : List String}
    {result : RecordingSplitResult}
    (h : splitRecordingByTime eventId inputs outName parts metadataTypes = .ok result) :
    (result.splits.length : ℤ) = parts ∧
      IsTimePartition (retainedOf metadataTypes inputs) (dataOf metadataTypes inputs)
        result.splits := by
  obtain ⟨htwo, hparts, hspan, hmin, hmax, hall⟩ := splitRecordingByTime_ok h
  have hlen : result.splits.length = result.parts := by
    rw [← hall.length_eq, List.length_range]
  refine ⟨?_, isTimePartition_of_parts hall fun event hevent => ?_⟩
  · rw [hlen, hparts]
    omega
  · exact existsUnique_part (by omega) hmin hmax hspan hevent

/-- A status event as the exchange sends it. -/
private def statusEvent (ts : ℚ) (status : String) : Event :=
  marketEvent ts .absent (.bitbankStatus
    { pair := "btc_jpy", status := some status, minAmount := some (some (1 / 10000)) })

/-- A pair spec and a status, a ticker, another status, and a ticker in the second half. -/
private def restatedRecording (status : String) : List Event :=
  [pairSpecEvent 900, statusEvent 900 "NORMAL", marketEvent 1000 .absent (.bitbankTicker {}),
    statusEvent 1500 status, marketEvent 3000 .absent (.bitbankTicker {})]

private def inHalves (status : String) : Except Py.Error RecordingSplitResult :=
  splitRecordingByTime (fun id _ _ => id) [(restatedRecording status).map fun e => ⟨e, true⟩]
    "split".toList 2 defaultMetadataEventTypes

private theorem inHalves_ok (status : String) (h : (inHalves status).isOk = true) :
    ∃ result, inHalves status = .ok result := by
  cases hresult : inHalves status with
  | error e =>
      rw [hresult] at h
      simp [Except.isOk, Except.toBool] at h
  | ok result => exact ⟨result, rfl⟩

theorem split_is_partition_halves :
    ∃ result, inHalves "NORMAL" = .ok result ∧ (result.splits.length : ℤ) = 2 ∧
      IsTimePartition
        (retainedOf defaultMetadataEventTypes
          [(restatedRecording "NORMAL").map fun e => ⟨e, true⟩])
        (dataOf defaultMetadataEventTypes [(restatedRecording "NORMAL").map fun e => ⟨e, true⟩])
        result.splits := by
  obtain ⟨result, h⟩ := inHalves_ok "NORMAL" (by decide +kernel)
  exact ⟨result, h, split_is_partition h⟩

/-! ### The metadata in force -/

namespace Pipeline

/-- Whatever becomes of the event, its metadata has been taken in. -/
theorem process_metadata (rt : Runtime) (cfg : Config) (self : Pipeline) (event : Event) :
    (process rt cfg self event).1.pairSpec = (self.ingestMetadata cfg event).pairSpec ∧
      (process rt cfg self event).1.status = (self.ingestMetadata cfg event).status := by
  have hframe := onMarket_eq cfg self event
  have hcourse := process_course rt cfg self event
  generalize process rt cfg self event = outcome at hcourse ⊢
  cases hcourse with
  | book h =>
      rw [hframe]
      exact ⟨rfl, rfl⟩
  | fair h =>
      rw [hframe]
      exact ⟨rfl, rfl⟩
  | stopped hfair happly =>
      obtain ⟨-, paid, fill, rest, -, rfl⟩ := applyFills_error happly
      exact ⟨rfl, rfl⟩
  | @returned fairState paid hbook hfair happly =>
      obtain rfl := applyFills_ok happly
      dsimp only
      generalize hfilled : (self.atFills rt cfg event fairState).settled cfg
        (fills (self.fillEventsAt rt cfg event fairState)) = filled
      obtain ⟨projector, projectorEvents, riskEvent, live, hquoted, -⟩ := requote_spec rt cfg
        filled event fairState (self.shockAt rt cfg event fairState).2.1
      rw [hquoted]
      subst hfilled
      exact ⟨rfl, rfl⟩

theorem after_metadata (rt : Runtime) (cfg : Config) (events : List Event) :
    (after rt cfg events).pairSpec = latestSpec events ∧
      (after rt cfg events).status = latestStatus events := by
  induction events using List.reverseRecOn with
  | nil => exact ⟨rfl, rfl⟩
  | append_singleton events event ih =>
      rw [after_concat]
      obtain ⟨hspec, hstatus⟩ := process_metadata rt cfg (after rt cfg events) event
      obtain ⟨hspec', hstatus'⟩ := @latest_ingestMetadata cfg _ _ ih.1 ih.2 event
      exact ⟨hspec.trans hspec', hstatus.trans hstatus'⟩

end Pipeline

/-- Copies say what their originals say. -/
theorem latest_copies {events copies : List Event} (h : List.Forall₂ CopyOf events copies) :
    latestSpec copies = latestSpec events ∧ latestStatus copies = latestStatus events := by
  have hsame : copies.filterMap Event.pairSpec? = events.filterMap Event.pairSpec? ∧
      copies.filterMap Event.status? = events.filterMap Event.status? := by
    induction h with
    | nil => exact ⟨rfl, rfl⟩
    | cons hcopy _ ih =>
        obtain ⟨id, ts, rfl⟩ := hcopy
        rw [List.filterMap_cons, List.filterMap_cons, List.filterMap_cons, List.filterMap_cons,
          ih.1, ih.2]
        exact ⟨rfl, rfl⟩
  unfold latestSpec latestStatus
  rw [hsame.1, hsame.2]
  exact ⟨rfl, rfl⟩

/-- Where every metadata type has been seen, the rest is not metadata. -/
theorem from_seen {metadataTypes : List String} (rest : List Event) : ∀ (before : List Recorded),
    (∀ eventType ∈ metadataTypes, ∃ r ∈ before, r.event.body.eventType = eventType) →
      retainedFrom metadataTypes before (rest.map fun e => ⟨e, true⟩) = [] := by
  induction rest with
  | nil => intro before _; rfl
  | cons event rest ih =>
      intro before hseen
      have hold : ¬ IsFirstOfType metadataTypes before ⟨event, true⟩ := by
        rintro ⟨hmem, hnone⟩
        obtain ⟨r, hr, hty⟩ := hseen _ hmem
        exact hnone r hr hty
      have hretained := ih (before ++ [⟨event, true⟩]) fun eventType hmem => by
        obtain ⟨r, hr, hty⟩ := hseen eventType hmem
        exact ⟨r, by simp [hr], hty⟩
      rw [List.map_cons, retainedFrom, hretained]
      simp [hold]

/-- A recording that begins with a pair spec and a status. -/
structure BeginsWithMetadata (inputs : List (List Recorded)) (recording : List Event) : Prop where
  timed : inputs.flatten = recording.map fun e => ⟨e, true⟩
  leading : ∃ specEvent statusEvent rest spec status,
    recording = specEvent :: statusEvent :: rest ∧
      specEvent.body = .bitbankPairSpec spec ∧ statusEvent.body = .bitbankStatus status

namespace BeginsWithMetadata

variable {inputs : List (List Recorded)} {recording : List Event}

/-- The leading two events are the metadata. -/
theorem collected (h : BeginsWithMetadata inputs recording) :
    retainedOf defaultMetadataEventTypes inputs = recording.take 2 ∧
      (recording.take 2).length = 2 := by
  obtain ⟨specEvent, statusEvent, rest, spec, status, rfl, hspec, hstatus⟩ := h.leading
  have hseen : ∀ eventType ∈ defaultMetadataEventTypes,
      ∃ r ∈ ([⟨specEvent, true⟩, ⟨statusEvent, true⟩] : List Recorded),
        r.event.body.eventType = eventType := by
    intro eventType hmem
    simp only [defaultMetadataEventTypes, List.mem_cons, List.not_mem_nil, or_false] at hmem
    rcases hmem with rfl | rfl
    · exact ⟨⟨specEvent, true⟩, by simp, by simp [hspec, Body.eventType]⟩
    · exact ⟨⟨statusEvent, true⟩, by simp, by simp [hstatus, Body.eventType]⟩
  have hretained := from_seen rest _ hseen
  have hfirst : IsFirstOfType defaultMetadataEventTypes [] ⟨specEvent, true⟩ := by
    simp [IsFirstOfType, hspec, Body.eventType, defaultMetadataEventTypes]
  have hsecond : IsFirstOfType defaultMetadataEventTypes [⟨specEvent, true⟩]
      ⟨statusEvent, true⟩ := by
    simp [IsFirstOfType, hspec, hstatus, Body.eventType, defaultMetadataEventTypes]
  refine ⟨?_, rfl⟩
  rw [retainedOf, h.timed, List.map_cons, List.map_cons, retainedFrom, retainedFrom]
  simp [hfirst, hsecond, hretained]

end BeginsWithMetadata

/-- `before` is what the recording holds before the first data event of a split. -/
def StartsAfter (recording : List Event) (w : WrittenSplit) (before : List Event) : Prop :=
  ∃ event after, recording = before ++ event :: after ∧ (w.data 2).head? = some event ∧
    2 ≤ before.length ∧ event ∉ before.drop 2

section InForce

variable {eventId : String → ℕ → ℚ → String} {inputs : List (List Recorded)}
  {outName : List Char} {parts : ℤ} {recording : List Event} {result : RecordingSplitResult}

/--
**Split replays start from the metadata in force exactly where, before each split's first
data event, the last pair spec and the last complete status of the recording read as its
leading ones do.**
-/
theorem split_metadata_in_force_iff (rt : Runtime) (cfg : Config)
    (hrecording : BeginsWithMetadata inputs recording)
    (h : splitRecordingByTime eventId inputs outName parts defaultMetadataEventTypes
      = .ok result) :
    (∀ w ∈ result.splits, ∃ before, StartsAfter recording w before ∧
      (Pipeline.after rt cfg (w.head 2)).pairSpec = (Pipeline.after rt cfg before).pairSpec ∧
      (Pipeline.after rt cfg (w.head 2)).status = (Pipeline.after rt cfg before).status) ↔
    ∀ w ∈ result.splits, ∃ before, StartsAfter recording w before ∧
      latestSpec before = latestSpec (recording.take 2) ∧
      latestStatus before = latestStatus (recording.take 2) := by
  obtain ⟨hretained, htwo⟩ := hrecording.collected
  refine forall₂_congr fun w hw => exists_congr fun before => and_congr_right fun _ => ?_
  have hcopies := (split_is_partition h).2.copies w hw
  rw [hretained, htwo] at hcopies
  obtain ⟨hspec, hstatus⟩ := latest_copies hcopies
  rw [(Pipeline.after_metadata rt cfg _).1, (Pipeline.after_metadata rt cfg _).1,
    (Pipeline.after_metadata rt cfg _).2, (Pipeline.after_metadata rt cfg _).2, hspec, hstatus,
    eq_comm (a := latestSpec before), eq_comm (a := latestStatus before)]

end InForce

private theorem restated_begins (status : String) : BeginsWithMetadata
    [(restatedRecording status).map fun e => ⟨e, true⟩] (restatedRecording status) :=
  ⟨List.flatten_singleton, _, _, _, _, _, rfl, rfl, rfl⟩

theorem split_metadata_in_force_iff_halves :
    ∃ result, inHalves "NORMAL" = .ok result ∧
      ((∀ w ∈ result.splits, ∃ before, StartsAfter (restatedRecording "NORMAL") w before ∧
        (Pipeline.after seriesRuntime flatConfig (w.head 2)).pairSpec
          = (Pipeline.after seriesRuntime flatConfig before).pairSpec ∧
        (Pipeline.after seriesRuntime flatConfig (w.head 2)).status
          = (Pipeline.after seriesRuntime flatConfig before).status) ↔
      ∀ w ∈ result.splits, ∃ before, StartsAfter (restatedRecording "NORMAL") w before ∧
        latestSpec before = latestSpec ((restatedRecording "NORMAL").take 2) ∧
        latestStatus before = latestStatus ((restatedRecording "NORMAL").take 2)) := by
  obtain ⟨result, h⟩ := inHalves_ok "NORMAL" (by decide +kernel)
  exact ⟨result, h, split_metadata_in_force_iff seriesRuntime flatConfig (restated_begins _) h⟩

/-- After a halt in the first half, the second half is replayed from a normal status. -/
theorem split_forgets_halt :
    ∃ result, inHalves "HALT" = .ok result ∧ ∃ w ∈ result.splits,
      ∃ before, StartsAfter (restatedRecording "HALT") w before ∧
        (Pipeline.after seriesRuntime flatConfig (w.head 2)).status
          = some ⟨"btc_jpy", "NORMAL", 1 / 10000⟩ ∧
        (Pipeline.after seriesRuntime flatConfig before).status
          = some ⟨"btc_jpy", "HALT", 1 / 10000⟩ := by
  obtain ⟨result, h⟩ := inHalves_ok "HALT" (by decide +kernel)
  have hfiles : ((inHalves "HALT").toOption.map fun r => r.splits.map WrittenSplit.file)
      = some [[pairSpecEvent 998, statusEvent 999 "NORMAL",
          marketEvent 1000 .absent (.bitbankTicker {}), statusEvent 1500 "HALT"],
        [pairSpecEvent 2998, statusEvent 2999 "NORMAL",
          marketEvent 3000 .absent (.bitbankTicker {})]] := by decide +kernel
  rw [h] at hfiles
  have hmap : result.splits.map WrittenSplit.file = _ := Option.some.inj hfiles
  obtain ⟨w, hw, hfile⟩ : ∃ w ∈ result.splits, w.file = [pairSpecEvent 2998,
      statusEvent 2999 "NORMAL", marketEvent 3000 .absent (.bitbankTicker {})] := by
    refine List.mem_map.mp ?_
    rw [hmap]
    simp
  refine ⟨result, h, w, hw, (restatedRecording "HALT").take 4, ⟨_, [], rfl, ?_, ?_, ?_⟩, ?_, ?_⟩
  · unfold WrittenSplit.data
    rw [hfile]
    rfl
  · decide
  · decide +kernel
  · rw [(Pipeline.after_metadata _ _ _).2]
    unfold WrittenSplit.head
    rw [hfile]
    decide +kernel
  · rw [(Pipeline.after_metadata _ _ _).2]
    decide +kernel

end GhostAmm
