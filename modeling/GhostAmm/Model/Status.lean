/-
The status of a recording (`recorder/status.py`).

A recording is watched while it is being written, so a file may be empty and its lines may have
no usable time: the inspection is run on lines whose two times may each be null.

The reason is the first that applies: a missing file, then stale files, then the inspection, and
last the duration.  The duration is null when no line has a time, and is compared all the same.
-/
import GhostAmm.Model.Inspection

namespace GhostAmm

/-- A line of a recording that is looked at while it grows; a time of the event is null when the
line is not timed. -/
structure StatusLine where
  line : RecordedLine
  exchangeTimed : Bool := true
  localTimed : Bool := true

namespace Inspector

/-- The times of a line, as far as it has them. -/
def seeLineTimes (self : Inspector) (line : StatusLine) : Inspector :=
  if line.exchangeTimed then
    let seen := self.seeTimes line.line.event
    if line.localTimed then seen
    else { seen with maxLocalExchangeDriftMs := self.maxLocalExchangeDriftMs }
  else self

/-- The depth sequence, and the times of the snapshots that have one. -/
def seeLineDepth (self : Inspector) (line : StatusLine) : Inspector :=
  let seen := self.seeDepth line.line.event
  if line.exchangeTimed then seen
  else { seen with
    depthSnapshotFirstTs := self.depthSnapshotFirstTs
    depthSnapshotLastTs := self.depthSnapshotLastTs }

/-- The body of the loop. -/
def seeLine (self : Inspector) (line : StatusLine) : Inspector :=
  ((self.seeLineTimes line).seePayload line.line).seeLineDepth line

end Inspector

/-- `inspect_recording`, on lines that may have no times. -/
def inspectLines (files : List (List StatusLine)) (strict : Bool) : RecordingInspection :=
  (files.flatten.foldl Inspector.seeLine {}).report files.length strict

/-- A file that exists. -/
structure StoredFile where
  path : String
  bytes : ℕ
  mtime : ℚ
  lines : List StatusLine

structure RecordingFileStatus where
  path : String
  isThere : Bool
  bytes : ℕ
  lastWriteTime : Option ℚ
  lastWriteAgeSec : Option ℚ

structure RecordingStatus where
  ok : Bool
  stale : Bool
  totalBytes : ℕ
  latestWriteAgeSec : Option ℚ
  minDurationHours : Option ℚ
  durationHours : Option ℚ
  durationOk : Option Bool
  files : List RecordingFileStatus
  inspection : Option RecordingInspection
  reason : Option String

/-- `max(0.0, now - stat.st_mtime)`. -/
def StoredFile.age (self : StoredFile) (now : ℚ) : ℚ := max 0 (now - self.mtime)

/-- `_file_status`; a path is given with the file it leads to, or alone. -/
def fileStatus (now : ℚ) : String ⊕ StoredFile → RecordingFileStatus
  | .inl path =>
      { path := path, isThere := false, bytes := 0, lastWriteTime := none,
        lastWriteAgeSec := none }
  | .inr file =>
      { path := file.path, isThere := true, bytes := file.bytes, lastWriteTime := some file.mtime,
        lastWriteAgeSec := some (file.age now) }

/-- `duration_hours >= min_duration_hours`. -/
def atLeastHours (durationHours : Option ℚ) (minDurationHours : ℚ) : Except Py.Error Bool :=
  match durationHours with
  | some hours => .ok (decide (minDurationHours ≤ hours))
  | none => .error (.typeError "'>=' not supported between instances of 'NoneType' and 'float'")

/-- The reason the files give before any is read; `number` writes a number into a text. -/
def filesReason (number : ℚ → String) (missing : List String) (latestAge : Option ℚ)
    (maxStaleSec : ℚ) : Option String :=
  if missing ≠ [] then some ("missing_files:" ++ String.intercalate "," missing)
  else
    match latestAge with
    | none => some ("recording_stale:None>" ++ number maxStaleSec)
    | some age =>
        if maxStaleSec < age then
          some ("recording_stale:" ++ number age ++ ">" ++ number maxStaleSec)
        else none

/-- The reason the inspection gives when there is none yet. -/
def inspectionReason (number : ℚ → String) (result : RecordingInspection)
    (minDurationHours : Option ℚ) : Option String :=
  if !result.okForReplay then some ("inspection_failed:" ++ result.reason.getD "None")
  else
    match minDurationHours, result.durationHours with
    | some least, some hours =>
        if hours < least then
          some ("recording_duration_below_min:" ++ number hours ++ "<" ++ number least)
        else none
    | _, _ => none

/-- `recording_status`. -/
def recordingStatus (number : ℚ → String) (paths : List (String ⊕ StoredFile)) (strict : Bool)
    (maxStaleSec : ℚ) (inspect : Bool) (minDurationHours : Option ℚ) (now : ℚ) :
    Except Py.Error RecordingStatus := do
  let fileStatuses := paths.map (fileStatus now)
  let missing := (fileStatuses.filter fun item => !item.isThere).map RecordingFileStatus.path
  let existing := fileStatuses.filter RecordingFileStatus.isThere
  let latestAge := (existing.filterMap RecordingFileStatus.lastWriteAgeSec).min?
  let reason := filesReason number missing latestAge maxStaleSec
  let status : RecordingStatus :=
    { ok := reason.isNone
      stale := match latestAge with
        | none => true
        | some age => decide (maxStaleSec < age)
      totalBytes := (existing.map RecordingFileStatus.bytes).sum
      latestWriteAgeSec := latestAge
      minDurationHours := minDurationHours
      durationHours := none
      durationOk := none
      files := fileStatuses
      inspection := none
      reason := reason }
  if inspect ∧ missing = [] then
    let result := inspectLines ((paths.filterMap Sum.getRight?).map StoredFile.lines) strict
    let durationOk ← match minDurationHours with
      | none => pure none
      | some least => do
          let long ← atLeastHours result.durationHours least
          pure (some long)
    let reason := reason.or (inspectionReason number result minDurationHours)
    return { status with
      ok := reason.isNone, durationHours := result.durationHours, durationOk := durationOk,
      inspection := some result, reason := reason }
  else if minDurationHours.isSome ∧ reason = none then
    return { status with
      ok := false, durationOk := some false,
      reason := some "inspection_required_for_min_duration" }
  else return status

end GhostAmm
