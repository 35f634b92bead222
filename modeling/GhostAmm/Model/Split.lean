/-
Splitting a recording by time (`recorder/split.py`).

The first event of each metadata type is kept apart and copied to the front of every split,
at times just below the split's first.  The other events that have a time are the data, and
go to the split whose stretch of time they fall in: equal stretches, each without its end but
the last.

A recorded event may have a null time, and then only its type is looked at.  The result and
the files are returned together, a split with what is written to it; `splitRecordingFiles`
also has the files that are left when the function raises.
-/
import GhostAmm.Model.Events

namespace GhostAmm

/-- A line of a recording; its time is null when it is not `timestamped`. -/
structure Recorded where
  event : Event
  timestamped : Bool := true
  deriving DecidableEq

/-- `DEFAULT_METADATA_EVENT_TYPES`. -/
def defaultMetadataEventTypes : List String := ["bitbank_pair_spec", "bitbank_status"]

structure RecordingSplit where
  index : ℕ
  path : List Char
  events : ℕ
  dataEvents : ℕ
  startTs : ℚ
  endTs : ℚ
  durationHours : ℚ

/-- A split, and the events in its file. -/
structure WrittenSplit where
  split : RecordingSplit
  file : List Event

structure RecordingSplitResult where
  parts : ℕ
  firstTs : ℚ
  lastTs : ℚ
  metadataEvents : ℕ
  splits : List WrittenSplit

/-- The loop over the recording: the first event of each metadata type, and the data. -/
def collectEvents (metadataTypes : List String) (metadataSeen : List String) :
    List Recorded → List Event × List Event
  | [] => ([], [])
  | recorded :: rest =>
      let eventType := recorded.event.body.eventType
      if eventType ∈ metadataTypes ∧ eventType ∉ metadataSeen then
        let (metadataEvents, dataEvents) :=
          collectEvents metadataTypes (eventType :: metadataSeen) rest
        (recorded.event :: metadataEvents, dataEvents)
      else
        let (metadataEvents, dataEvents) := collectEvents metadataTypes metadataSeen rest
        (metadataEvents, if recorded.timestamped then recorded.event :: dataEvents else dataEvents)

/-- `_event_in_split`. -/
def eventInSplit (ts start end_ : ℚ) (final : Bool) : Bool :=
  if final then decide (start ≤ ts ∧ ts ≤ end_) else decide (start ≤ ts ∧ ts < end_)

/-- `first_ts + span * index / parts`. -/
def splitBoundary (firstTs span : ℚ) (parts index : ℕ) : ℚ := firstTs + span * index / parts

/-- `_metadata_for_split`; `eventId` is `deterministic_event_id("recording_split_metadata", ..)`. -/
def metadataForSplit (eventId : String → ℕ → ℚ → String) (metadataEvents : List Event)
    (splitStartTs : ℚ) : List Event :=
  metadataEvents.mapIdx fun index event =>
    let ts := splitStartTs - ((metadataEvents.length : ℚ) - index)
    { event with eventId := eventId event.eventId index ts, tsExchange := ts, tsLocal := ts }

/-- `f"{out.name}_{index + 1:02d}.jsonl"`. -/
def splitPath (outName : List Char) (index : ℕ) : List Char :=
  outName ++ '_' :: Py.zeroPad 2 (index + 1) ++ ".jsonl".toList

/-- One turn of the loop over the parts. -/
def splitPart (eventId : String → ℕ → ℚ → String) (outName : List Char)
    (metadataEvents dataEvents : List Event) (firstTs lastTs : ℚ) (parts index : ℕ) :
    Except Py.Error WrittenSplit :=
  let span := lastTs - firstTs
  let start := splitBoundary firstTs span parts index
  let end_ := splitBoundary firstTs span parts (index + 1)
  let selected := dataEvents.filter fun event =>
    eventInSplit event.tsExchange start end_ (decide (index + 1 = parts))
  match (selected.map Event.tsExchange).min?, (selected.map Event.tsExchange).max? with
  | some splitStart, some splitEnd =>
      let outputEvents := metadataForSplit eventId metadataEvents splitStart ++ selected
      .ok
        { split :=
            { index := index + 1, path := splitPath outName index, events := outputEvents.length,
              dataEvents := selected.length, startTs := splitStart, endTs := splitEnd,
              durationHours := max 0 (splitEnd - splitStart) / 3600000 },
          file := outputEvents }
  | _, _ => .error (.valueError ("empty_split:" ++ toString (index + 1)))

/-- The loop over the parts, from one on. -/
def splitParts (part : ℕ → Except Py.Error WrittenSplit) :
    List ℕ → Except Py.Error (List WrittenSplit)
  | [] => .ok []
  | index :: rest => do
      let written ← part index
      let more ← splitParts part rest
      return written :: more

/-- `split_recording_by_time`, on the events of each input file. -/
def splitRecordingByTime (eventId : String → ℕ → ℚ → String) (inputs : List (List Recorded))
    (outName : List Char) (parts : ℤ) (metadataEventTypes : List String) :
    Except Py.Error RecordingSplitResult :=
  if parts < 2 then .error (.valueError "parts_must_be_at_least_2")
  else if inputs.length = 0 then .error (.valueError "no_input_files")
  else
    let (metadataEvents, dataEvents) := collectEvents metadataEventTypes [] inputs.flatten
    match (dataEvents.map Event.tsExchange).min?, (dataEvents.map Event.tsExchange).max? with
    | some firstTs, some lastTs =>
        if lastTs ≤ firstTs then .error (.valueError "recording_duration_zero")
        else do
          let splits ← splitParts
            (splitPart eventId outName metadataEvents dataEvents firstTs lastTs parts.toNat)
            (List.range parts.toNat)
          return { parts := parts.toNat, firstTs := firstTs, lastTs := lastTs,
                   metadataEvents := metadataEvents.length, splits := splits }
    | _, _ => .error (.valueError "no_timestamped_data_events")

/-- The loop over the parts with the files it writes: those of the parts before one that raises
stay. -/
def writeParts (part : ℕ → Except Py.Error WrittenSplit) :
    List ℕ → List WrittenSplit × Except Py.Error Unit
  | [] => ([], .ok ())
  | index :: rest =>
      match part index with
      | .error e => ([], .error e)
      | .ok written =>
          let (more, result) := writeParts part rest
          (written :: more, result)

/-- `split_recording_by_time` with the files it leaves, whether it returns or raises. -/
def splitRecordingFiles (eventId : String → ℕ → ℚ → String) (inputs : List (List Recorded))
    (outName : List Char) (parts : ℤ) (metadataEventTypes : List String) :
    List WrittenSplit × Except Py.Error RecordingSplitResult :=
  if parts < 2 then ([], .error (.valueError "parts_must_be_at_least_2"))
  else if inputs.length = 0 then ([], .error (.valueError "no_input_files"))
  else
    let (metadataEvents, dataEvents) := collectEvents metadataEventTypes [] inputs.flatten
    match (dataEvents.map Event.tsExchange).min?, (dataEvents.map Event.tsExchange).max? with
    | some firstTs, some lastTs =>
        if lastTs ≤ firstTs then ([], .error (.valueError "recording_duration_zero"))
        else
          let (written, loop) := writeParts
            (splitPart eventId outName metadataEvents dataEvents firstTs lastTs parts.toNat)
            (List.range parts.toNat)
          (written, loop.map fun _ =>
            { parts := parts.toNat, firstTs := firstTs, lastTs := lastTs,
              metadataEvents := metadataEvents.length, splits := written })
    | _, _ => ([], .error (.valueError "no_timestamped_data_events"))

end GhostAmm
