/-
The inspection of a recording (`recorder/inspection.py`).

One loop over the lines of all files fills counters, and the verdict is read off them
at the end.  A line is an event together with the few entries of its two payloads that
the loop looks at and no typed payload has.  The loop keeps a single depth sequence for
the whole recording: a snapshot sets it, whatever its number, and only a delta is
compared with it.
-/
import GhostAmm.Model.Events

namespace GhostAmm

/-- A line of a recording; the entries are `none` where a payload does not have them. -/
structure RecordedLine where
  event : Event
  /-- `payload["room_name"]` and `raw_payload["room_name"]`. -/
  payloadRoom : Option String := none
  rawRoom : Option String := none
  /-- `payload["reconnects"]` as a number, a null counting as zero. -/
  reconnects : Option ℤ := none
  /-- `payload["reason"]`. -/
  reason : Option String := none
  /-- `payload["heartbeat_type"]`. -/
  heartbeatType : Option String := none

/-- `_room_name`: an empty name is no name. -/
def RecordedLine.roomName (line : RecordedLine) : Option String :=
  (line.payloadRoom.filter fun name => decide (name ≠ "")).or
    (line.rawRoom.filter fun name => decide (name ≠ ""))

/-- `_is_connection_heartbeat`. -/
def RecordedLine.isConnectionHeartbeat (line : RecordedLine) : Bool :=
  match line.heartbeatType with
  | none => true
  | some kind => decide (kind ∈ ["connect", "disconnect"])

/-- Whether the payload gives a failed fetch of the metadata as its reason. -/
def RecordedLine.metadataFailed (line : RecordedLine) : Bool :=
  let reason := Py.textOr line.reason ""
  "metadata_fetch_failed".toList.isPrefixOf reason.toList ||
    decide (reason = "metadata_pair_or_status_missing")

/-- `Counter[str]`. -/
abbrev Counter := Py.Table (Prod.fst : String × ℕ → String)

namespace Counter

def count (self : Counter) (name : String) : ℕ := ((self.get? name).map Prod.snd).getD 0

/-- `counter[name] += 1`. -/
def add (self : Counter) (name : String) : Counter := self.put (name, self.count name + 1)

/-- `dict(sorted(counter.items()))`. -/
def sorted (self : Counter) : List (String × ℕ) :=
  self.rows.insertionSort fun a b => a.1 ≤ b.1

end Counter

/-- The variables of the loop. -/
structure Inspector where
  counts : Counter := Py.Table.empty
  rooms : Counter := Py.Table.empty
  events : ℕ := 0
  sequenceViolations : ℕ := 0
  lastDepthSequence : Option ℤ := none
  depthSnapshotFirstTs : Option ℚ := none
  depthSnapshotLastTs : Option ℚ := none
  firstEventTs : Option ℚ := none
  lastEventTs : Option ℚ := none
  maxEventGapMs : Option ℚ := none
  maxLocalExchangeDriftMs : Option ℚ := none
  reconnectCount : ℤ := 0
  heartbeatEvents : ℕ := 0
  connectionEvents : ℕ := 0
  metadataFetchFailed : Bool := false

namespace Inspector

/-- `value if best is None else max(best, value)`. -/
def atLeast (best : Option ℚ) (value : ℚ) : Option ℚ :=
  match best with
  | none => some value
  | some best => some (max best value)

/-- The times of an event. -/
def seeTimes (self : Inspector) (event : Event) : Inspector :=
  { self with
    firstEventTs := self.firstEventTs.or (some event.tsExchange)
    maxEventGapMs := match self.lastEventTs with
      | none => self.maxEventGapMs
      | some last => atLeast self.maxEventGapMs (max 0 (event.tsExchange - last))
    lastEventTs := some event.tsExchange
    maxLocalExchangeDriftMs :=
      atLeast self.maxLocalExchangeDriftMs |event.tsLocal - event.tsExchange| }

/-- The counters, and the entries of the payloads. -/
def seePayload (self : Inspector) (line : RecordedLine) : Inspector :=
  let isHeartbeat := decide (line.event.body.eventType = "dry_run_heartbeat")
  { self with
    events := self.events + 1
    counts := self.counts.add line.event.body.eventType
    rooms := match line.roomName with
      | some name => self.rooms.add name
      | none => self.rooms
    heartbeatEvents := if isHeartbeat then self.heartbeatEvents + 1 else self.heartbeatEvents
    connectionEvents :=
      if isHeartbeat && line.isConnectionHeartbeat then self.connectionEvents + 1
      else self.connectionEvents
    reconnectCount := match line.reconnects with
      | some reconnects => max self.reconnectCount reconnects
      | none => self.reconnectCount
    metadataFetchFailed := self.metadataFetchFailed || line.metadataFailed }

/-- The depth sequence: a snapshot starts it anew, and a delta must go beyond it. -/
def seeDepth (self : Inspector) (event : Event) : Inspector :=
  match event.body with
  | .orderBookSnapshot _ =>
      { self with
        lastDepthSequence := event.sequence.toInt
        depthSnapshotFirstTs := self.depthSnapshotFirstTs.or (some event.tsExchange)
        depthSnapshotLastTs := some event.tsExchange }
  | .orderBookDelta _ =>
      match event.sequence.toInt, self.lastDepthSequence with
      | some seq, some last =>
          { self with
            sequenceViolations :=
              if seq ≤ last then self.sequenceViolations + 1 else self.sequenceViolations
            lastDepthSequence := some seq }
      | _, _ => self
  | _ => self

/-- The body of the loop. -/
def see (self : Inspector) (line : RecordedLine) : Inspector :=
  ((self.seeTimes line.event).seePayload line).seeDepth line.event

end Inspector

structure RecordingInspection where
  files : ℕ
  events : ℕ
  eventCounts : List (String × ℕ)
  rooms : List (String × ℕ)
  hasPairSpec : Bool
  hasStatus : Bool
  hasTicker : Bool
  hasTrades : Bool
  hasDepthSnapshot : Bool
  hasDepthDelta : Bool
  sequenceViolations : ℕ
  depthDeltaSequenceMonotonic : Bool
  depthSnapshotFirstTs : Option ℚ
  depthSnapshotLastTs : Option ℚ
  tickerCount : ℕ
  transactionCount : ℕ
  reconnectCount : ℤ
  heartbeatEvents : ℕ
  connectionEvents : ℕ
  firstEventTs : Option ℚ
  lastEventTs : Option ℚ
  durationMs : Option ℚ
  durationHours : Option ℚ
  maxEventGapMs : Option ℚ
  maxLocalExchangeDriftMs : Option ℚ
  metadataFetchFailed : Bool
  okForReplay : Bool
  reason : Option String

/-- What follows the loop. -/
def Inspector.report (self : Inspector) (files : ℕ) (strict : Bool) : RecordingInspection :=
  let has (name : String) : Bool := decide (0 < self.counts.count name)
  let required := ["bitbank_pair_spec", "bitbank_status", "order_book_snapshot",
    "order_book_delta"] ++ if strict then ["bitbank_ticker", "trade"] else []
  let missing := required.filter fun name => !has name
  let durationMs := match self.firstEventTs, self.lastEventTs with
    | some first, some last => some (max 0 (last - first))
    | _, _ => none
  { files := files
    events := self.events
    eventCounts := self.counts.sorted
    rooms := self.rooms.sorted
    hasPairSpec := has "bitbank_pair_spec"
    hasStatus := has "bitbank_status"
    hasTicker := has "bitbank_ticker"
    hasTrades := has "trade"
    hasDepthSnapshot := has "order_book_snapshot"
    hasDepthDelta := has "order_book_delta"
    sequenceViolations := self.sequenceViolations
    depthDeltaSequenceMonotonic := decide (self.sequenceViolations = 0)
    depthSnapshotFirstTs := self.depthSnapshotFirstTs
    depthSnapshotLastTs := self.depthSnapshotLastTs
    tickerCount := self.counts.count "bitbank_ticker"
    transactionCount := self.counts.count "trade"
    reconnectCount := self.reconnectCount
    heartbeatEvents := self.heartbeatEvents
    connectionEvents := self.connectionEvents
    firstEventTs := self.firstEventTs
    lastEventTs := self.lastEventTs
    durationMs := durationMs
    durationHours := durationMs.map fun ms => ms / 3600000
    maxEventGapMs := self.maxEventGapMs
    maxLocalExchangeDriftMs := self.maxLocalExchangeDriftMs
    metadataFetchFailed := self.metadataFetchFailed
    okForReplay :=
      missing.isEmpty && decide (self.sequenceViolations = 0) && !self.metadataFetchFailed
    reason :=
      if !missing.isEmpty then some ("missing:" ++ String.intercalate "," missing)
      else if self.metadataFetchFailed then some "metadata_fetch_failed"
      else if self.sequenceViolations ≠ 0 then some "sequence_violations"
      else none }

/-- `inspect_recording`. -/
def inspectRecording (files : List (List RecordedLine)) (strict : Bool) : RecordingInspection :=
  (files.flatten.foldl Inspector.see {}).report files.length strict

end GhostAmm
