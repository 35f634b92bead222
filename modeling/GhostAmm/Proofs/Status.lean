/-
When a recording has a status.

The inspection always comes to a verdict, and so do the ages of the files.  The duration is known
as soon as one line has a time (`durationHours_isSome_iff`); until then a minimum it is compared
with makes the status raise, and there is no status at all (`recordingStatus_decides_iff`).
-/
import GhostAmm.Model.Status
import GhostAmm.Proofs.Step

namespace GhostAmm

/-! ### The inspection -/

/-- **On lines that have both times this is the inspection.** -/
theorem inspectLines_timed (files : List (List RecordedLine)) (strict : Bool) :
    inspectLines (files.map fun lines => lines.map fun line => { line := line }) strict
      = inspectRecording files strict := by
  unfold inspectLines inspectRecording
  rw [← List.map_flatten, List.foldl_map, List.length_map]
  rfl

namespace Inspector

/-- A line that has a time is the last one seen, and the first one if there was none. -/
theorem seeLine_times (self : Inspector) (line : StatusLine) :
    ((self.seeLine line).firstEventTs.isSome ↔
        self.firstEventTs.isSome ∨ line.exchangeTimed = true) ∧
      ((self.seeLine line).lastEventTs.isSome ↔
        self.lastEventTs.isSome ∨ line.exchangeTimed = true) := by
  have hdepth : ∀ seen : Inspector, (seen.seeLineDepth line).firstEventTs = seen.firstEventTs ∧
      (seen.seeLineDepth line).lastEventTs = seen.lastEventTs := by
    intro seen
    unfold seeLineDepth seeDepth
    constructor <;> grind
  unfold seeLine
  rw [(hdepth _).1, (hdepth _).2]
  unfold seePayload seeLineTimes
  cases line.exchangeTimed <;> cases line.localTimed <;> simp [seeTimes]

theorem foldl_seeLine_times : ∀ (lines : List StatusLine) (self : Inspector),
    ((lines.foldl seeLine self).firstEventTs.isSome ↔
        self.firstEventTs.isSome ∨ ∃ line ∈ lines, line.exchangeTimed = true) ∧
      ((lines.foldl seeLine self).lastEventTs.isSome ↔
        self.lastEventTs.isSome ∨ ∃ line ∈ lines, line.exchangeTimed = true) := by
  intro lines
  induction lines with
  | nil => intro self; simp
  | cons line rest ih =>
      intro self
      obtain ⟨hfirst, hlast⟩ := self.seeLine_times line
      rw [List.foldl_cons, (ih _).1, (ih _).2, hfirst, hlast]
      simp [or_assoc]

end Inspector

/-- The duration is known as soon as one line has a time. -/
theorem durationHours_isSome_iff (files : List (List StatusLine)) (strict : Bool) :
    (inspectLines files strict).durationHours.isSome ↔
      ∃ lines ∈ files, ∃ line ∈ lines, line.exchangeTimed = true := by
  obtain ⟨hfirst, hlast⟩ := Inspector.foldl_seeLine_times files.flatten {}
  unfold inspectLines Inspector.report
  generalize files.flatten.foldl Inspector.seeLine {} = seen at hfirst hlast
  have hlines : (∃ line ∈ files.flatten, line.exchangeTimed = true) ↔
      ∃ lines ∈ files, ∃ line ∈ lines, line.exchangeTimed = true := by
    simp only [List.mem_flatten]
    grind
  rw [hlines] at hfirst hlast
  generalize (∃ lines ∈ files, ∃ line ∈ lines, line.exchangeTimed = true) = timed at hfirst hlast
  cases hf : seen.firstEventTs <;> cases hl : seen.lastEventTs <;> simp_all

/-! ### The ages of the files -/

/-- The newest file is no older than that. -/
def NewestWithin (now maxStaleSec : ℚ) (files : List StoredFile) : Prop :=
  ∃ newest ∈ files, (∀ file ∈ files, file.mtime ≤ newest.mtime) ∧ newest.age now ≤ maxStaleSec

theorem newestWithin_iff {now maxStaleSec : ℚ} {files : List StoredFile} :
    NewestWithin now maxStaleSec files ↔ ∃ file ∈ files, file.age now ≤ maxStaleSec := by
  constructor
  · rintro ⟨newest, hmem, -, hage⟩
    exact ⟨newest, hmem, hage⟩
  · rintro ⟨file, hmem, hage⟩
    cases hnewest : files.argmax StoredFile.mtime with
    | none => simp [List.argmax_eq_none.mp hnewest] at hmem
    | some newest =>
        have hle : ∀ file ∈ files, file.mtime ≤ newest.mtime := fun file hfile =>
          List.le_of_mem_argmax hfile hnewest
        refine ⟨newest, List.argmax_mem hnewest, hle, le_trans ?_ hage⟩
        exact max_le_max_left 0 (sub_le_sub_left (hle file hmem) now)

section Existing

variable {number : ℚ → String} {files : List StoredFile} {strict : Bool} {maxStaleSec now : ℚ}
  {minDurationHours : Option ℚ}

/-- Files that exist give no reason exactly when the newest is new enough. -/
theorem filesReason_eq_none_iff :
    filesReason number [] ((files.map fun file => file.age now).min?) maxStaleSec = none ↔
      NewestWithin now maxStaleSec files := by
  rw [newestWithin_iff]
  unfold filesReason
  rw [if_neg (by simp)]
  cases hage : (files.map fun file => file.age now).min? with
  | none =>
      obtain rfl := List.map_eq_nil_iff.mp (List.min?_eq_none_iff.mp hage)
      simp
  | some age =>
      obtain ⟨hmem, hle⟩ := List.min?_eq_some_iff.mp hage
      obtain ⟨file, hfile, rfl⟩ := List.mem_map.mp hmem
      simp only [ite_eq_right_iff, reduceCtorEq, imp_false, not_lt]
      constructor
      · intro hwithin
        exact ⟨file, hfile, hwithin⟩
      · rintro ⟨other, hother, hwithin⟩
        exact (hle _ (List.mem_map_of_mem hother)).trans hwithin

/-! ### The status -/

/-- An inspection gives no reason exactly when it is ok, and long enough. -/
theorem inspectionReason_eq_none_iff {result : RecordingInspection}
    (hknown : minDurationHours = none ∨ result.durationHours.isSome) :
    inspectionReason number result minDurationHours = none ↔
      result.okForReplay = true ∧
        ∀ least ∈ minDurationHours, ∃ hours ∈ result.durationHours, least ≤ hours := by
  unfold inspectionReason
  cases hok : result.okForReplay
  · simp
  · cases minDurationHours with
    | none => simp
    | some least =>
        obtain ⟨hours, hhours⟩ := Option.isSome_iff_exists.mp (hknown.resolve_left (by simp))
        rw [hhours]
        simp

/-- None of the files is missing, and each gives its age. -/
theorem fileStatus_existing (now : ℚ) (files : List StoredFile) :
    ((files.map Sum.inr).map (fileStatus now)).filter (fun item => !item.isThere) = [] ∧
      ((files.map Sum.inr).map (fileStatus now)).filter RecordingFileStatus.isThere
        = (files.map Sum.inr).map (fileStatus now) ∧
      ((files.map Sum.inr).map (fileStatus now)).filterMap RecordingFileStatus.lastWriteAgeSec
        = files.map fun file => file.age now := by
  rw [List.map_map]
  refine ⟨?_, ?_, ?_⟩
  · rw [List.filter_eq_nil_iff]
    intro item hitem
    obtain ⟨file, -, rfl⟩ := List.mem_map.mp hitem
    simp [fileStatus]
  · rw [List.filter_eq_self]
    intro item hitem
    obtain ⟨file, -, rfl⟩ := List.mem_map.mp hitem
    rfl
  · rw [List.filterMap_map, ← List.filterMap_eq_map]
    rfl

/-- The inspection of the files. -/
def inspectionOf (files : List StoredFile) (strict : Bool) : RecordingInspection :=
  inspectLines (files.map StoredFile.lines) strict

/-- A status of files that exist is ok when nothing gives a reason, and there is none when a
duration that is not known is asked for. -/
theorem recordingStatus_existing :
    (minDurationHours = none ∨ (inspectionOf files strict).durationHours.isSome →
      ∃ status, recordingStatus number (files.map Sum.inr) strict maxStaleSec true
          minDurationHours now = .ok status ∧
        status.ok = ((filesReason number [] ((files.map fun file => file.age now).min?)
          maxStaleSec).or (inspectionReason number (inspectionOf files strict)
            minDurationHours)).isNone) ∧
    (¬ (minDurationHours = none ∨ (inspectionOf files strict).durationHours.isSome) →
      ∃ e, recordingStatus number (files.map Sum.inr) strict maxStaleSec true minDurationHours
        now = .error e) := by
  obtain ⟨hmissing, hexisting, hages⟩ := fileStatus_existing now files
  have hstored : (files.map Sum.inr : List (String ⊕ StoredFile)).filterMap Sum.getRight?
      = files := by
    rw [List.filterMap_map]
    exact List.filterMap_some
  unfold recordingStatus
  dsimp only
  rw [hmissing, hexisting, hages, hstored]
  simp only [List.map_nil, and_self, if_true]
  rw [show inspectLines (files.map StoredFile.lines) strict = inspectionOf files strict from rfl]
  cases minDurationHours with
  | none => exact ⟨fun _ => ⟨_, rfl, rfl⟩, fun hunknown => absurd (Or.inl rfl) hunknown⟩
  | some least =>
      cases hhours : (inspectionOf files strict).durationHours with
      | none => exact ⟨by simp, fun _ => ⟨_, rfl⟩⟩
      | some hours => exact ⟨fun _ => ⟨_, rfl, rfl⟩, by simp⟩

end Existing

/--
**A recording has the status it should have exactly when no minimum of the duration is asked for
or some line has a time.**  Otherwise it has none.
-/
theorem recordingStatus_decides_iff (number : ℚ → String) (files : List StoredFile)
    (strict : Bool) (maxStaleSec : ℚ) (minDurationHours : Option ℚ) (now : ℚ) :
    (∃ status, recordingStatus number (files.map Sum.inr) strict maxStaleSec true
        minDurationHours now = .ok status ∧
      (status.ok = true ↔ NewestWithin now maxStaleSec files ∧
        (inspectionOf files strict).okForReplay = true ∧
        ∀ least ∈ minDurationHours,
          ∃ hours ∈ (inspectionOf files strict).durationHours, least ≤ hours)) ↔
    minDurationHours = none ∨
      ∃ file ∈ files, ∃ line ∈ file.lines, line.exchangeTimed = true := by
  have htimed : (inspectionOf files strict).durationHours.isSome ↔
      ∃ file ∈ files, ∃ line ∈ file.lines, line.exchangeTimed = true := by
    rw [inspectionOf, durationHours_isSome_iff]
    simp
  rw [← htimed]
  obtain ⟨hknown, hunknown⟩ := @recordingStatus_existing number files strict maxStaleSec now
    minDurationHours
  constructor
  · rintro ⟨status, hstatus, -⟩
    by_contra hnot
    obtain ⟨e, herror⟩ := hunknown hnot
    rw [hstatus] at herror
    exact absurd herror (by simp)
  · intro h
    obtain ⟨status, hstatus, hok⟩ := hknown h
    refine ⟨status, hstatus, ?_⟩
    rw [hok, Option.isNone_iff_eq_none, Option.or_eq_none_iff, filesReason_eq_none_iff,
      inspectionReason_eq_none_iff h]

/-- An empty file has no status when a day of recording is asked for. -/
theorem recordingStatus_raises_empty :
    ∃ e, recordingStatus (fun _ => "") [.inr ⟨"recording.jsonl", 0, 1000, []⟩] true 300 true
      (some 24) 1010 = .error e :=
  ⟨.typeError "'>=' not supported between instances of 'NoneType' and 'float'", rfl⟩

end GhostAmm
