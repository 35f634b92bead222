/-
The public recorder (`recorder/bitbank_public_recorder.py`).

`run` is a coroutine, and the handlers of the stream, the heartbeat and the idle watchdog run
whenever it waits.  The recorder is therefore a machine whose actions are the stretches of code
between one await and the next, and a session is any order of them in which each is due: a
handler whenever there has been a client, a late one after the writer is closed included, a
task from its start to its end, and the stretches of `run` one after the other.

What an action reads of the world is an argument of it: the fetched metadata, the message, and the
clock, once an action and twice at the start, where the fetch blocks in between.  The socket
itself, the joining of the channels and the delay before a reconnect change nothing that is
recorded and are left out.
-/
import GhostAmm.Model.DryRun
import GhostAmm.Model.Inspection
import GhostAmm.Model.Writer

namespace GhostAmm

open Py (Json Texts)

/-- The arguments of `BitbankPublicRecorder` that are read after `__init__`. -/
structure RecorderSettings where
  pair : String
  writer : WriterSettings
  maxEvents : Option ℤ := none
  timeoutSec : Option ℚ := some 60
  fetchMetadataOnStart : Bool := true
  maxReconnects : ℤ := 10
  heartbeatIntervalSec : Option ℚ := some 60
  maxIdleSec : Option ℚ := some 300

/-- What the two calls of `_metadata_events` get from the exchange. -/
inductive MetadataFetch where
  | failed (errorName : String)
  | lists (specs : List BitbankPairSpec) (statuses : List BitbankStatus)

/-- Where `run` waits.  On the way out it remembers whether the wait timed out. -/
inductive RecorderPhase where
  | created
  /-- `await sio.connect(...)`. -/
  | connecting
  /-- `await asyncio.wait(...)`. -/
  | waiting
  /-- The wait is over and its tasks are being canceled. -/
  | leaving (timedOut : Bool)
  /-- `await heartbeat_task`, canceled. -/
  | heartbeatStopped (timedOut : Bool)
  /-- `await idle_task`, canceled, and then `await sio.disconnect()`. -/
  | watchdogStopped (timedOut : Bool)
  /-- `await asyncio.sleep(self.reconnect_delay_sec)`. -/
  | sleeping
  | closed
  deriving DecidableEq

/-- A task: created and not yet run, in its sleep, or over. -/
inductive TaskState where
  | created
  | sleeping
  | finished
  deriving DecidableEq

/-- `BitbankPublicRecorder` and the variables of `run`. -/
structure Recorder where
  events : List RecordedLine := []
  outputPaths : List (List Char) := []
  writer : RotatingJsonlEventWriter := {}
  phase : RecorderPhase := .created
  /-- A client has been made, so its handlers can run. -/
  client : Bool := false
  startedMs : ℚ := 0
  reconnects : ℕ := 0
  /-- `done.is_set()`. -/
  done : Bool := false
  /-- `idle.is_set()`. -/
  idle : Bool := false
  /-- `last_message_ms["value"]`. -/
  lastMessageMs : ℚ := 0
  /-- The `connect` handlers that are joining the channels. -/
  joining : ℕ := 0
  heartbeat : TaskState := .finished
  /-- The number of reconnects the heartbeat was created with. -/
  heartbeatReconnects : ℕ := 0
  watchdog : TaskState := .finished
  /-- The number of reconnects the watchdog was created with. -/
  watchdogReconnects : ℕ := 0

/-- How `sio.connect` fails. -/
inductive ConnectError where
  | timeout
  | other (errorName : String)

/-- A stretch of code between two awaits. -/
inductive RecorderAction where
  /-- `run` up to its first await; its loop begins when the metadata are there. -/
  | start (fetched : MetadataFetch) (startedMs nowMs : ℚ)
  /-- `sio.connect` has returned. -/
  | connected
  /-- `sio.connect` has raised. -/
  | connectFailed (error : ConnectError) (nowMs : ℚ)
  /-- `asyncio.wait` has returned, with nothing completed when it timed out. -/
  | wake (timedOut : Bool)
  | stopHeartbeat
  | stopWatchdog
  /-- What follows the `finally` block. -/
  | settle (nowMs : ℚ)
  /-- The delay before a reconnect is over. -/
  | retry (nowMs : ℚ)
  /-- The `connect` handler up to the joining of the channels. -/
  | connect (nowMs : ℚ)
  /-- The rest of it. -/
  | joined (nowMs : ℚ)
  | disconnect (nowMs : ℚ)
  | message (data : Json) (nowMs : ℚ)
  /-- `_heartbeat_loop` up to its first sleep. -/
  | heartbeatStarts
  /-- `_heartbeat_loop` from one sleep to the next. -/
  | heartbeatTick (nowMs : ℚ)
  /-- `_idle_watchdog_loop` up to its first sleep. -/
  | watchdogStarts
  /-- `_idle_watchdog_loop` from one sleep to the next. -/
  | watchdogTick (nowMs : ℚ)

namespace Recorder

/-! ### What is recorded -/

/-- A `dry_run_heartbeat`. -/
def heartbeatLine (rt : Runtime) (texts : Texts) (settings : RecorderSettings)
    (heartbeatType : String) (reconnects : ℕ) (nowMs : ℚ) : RecordedLine where
  event := makeEvent rt (.other "dry_run_heartbeat") nowMs "bitbank" (symbolOf texts settings.pair)
  reconnects := some reconnects
  heartbeatType := some heartbeatType

/-- A `risk_state` that refuses everything for a reason. -/
def refusalLine (rt : Runtime) (texts : Texts) (settings : RecorderSettings) (reason : String)
    (reconnects : Option ℕ) (nowMs : ℚ) : RecordedLine where
  event := makeEvent rt (.other "risk_state") nowMs "bitbank" (symbolOf texts settings.pair)
  reconnects := reconnects.map fun n => (n : ℤ)
  reason := some reason

/-- An event of the stream: the raw one has the room in both of its payloads. -/
def streamLine (roomName : String) (event : Event) : RecordedLine where
  event := event
  payloadRoom := if event.body = .other "bitbank_raw" then some roomName else none
  rawRoom := some roomName

/-- `_metadata_events`: the first spec and the first status of the pair. -/
def metadataEvents (rt : Runtime) (texts : Texts) (settings : RecorderSettings)
    (fetched : MetadataFetch) (ts : ℚ) : List RecordedLine :=
  let symbol := symbolOf texts settings.pair
  match fetched with
  | .failed errorName =>
      [refusalLine rt texts settings ("metadata_fetch_failed:" ++ errorName) none ts]
  | .lists specs statuses =>
      let spec := specs.find? fun spec => decide (spec.name = settings.pair)
      let status := statuses.find? fun status => decide (status.pair = settings.pair)
      let events := (spec.map fun spec => pairSpecEventOf rt spec ts symbol).toList ++
        (status.map fun status => statusEventOf rt status (ts + 1) symbol).toList
      if events.isEmpty then
        [refusalLine rt texts settings "metadata_pair_or_status_missing" none ts]
      else events.map fun event => { event := event }

/-- `_record`. -/
def record (toJson : RecordedLine → String) (settings : RecorderSettings) (self : Recorder)
    (line : RecordedLine) : Recorder :=
  { self with
    events := self.events ++ [line],
    writer := self.writer.write settings.writer (RotatingJsonlEventWriter.lineOf toJson line) }

/-! ### The stretches of `run` -/

/-- The end of `run`: the paths are kept and the writer is closed. -/
def finish (self : Recorder) : Recorder :=
  { self with
    outputPaths := self.writer.paths, writer := self.writer.close, phase := .closed }

/-- The head of the loop: a new client, unless the session is done or its time is over. -/
def loopHead (settings : RecorderSettings) (self : Recorder) (nowMs : ℚ) : Recorder :=
  if self.done then self.finish
  else if settings.timeoutSec.any fun limit => decide (limit * 1000 ≤ nowMs - self.startedMs) then
    self.finish
  else { self with phase := .connecting, client := true, lastMessageMs := nowMs, idle := false }

/-- Whether `asyncio.wait` can return, with or without having timed out. -/
def waitOver (settings : RecorderSettings) (self : Recorder) (timedOut : Bool) : Bool :=
  if timedOut then settings.timeoutSec.isSome else self.done || self.idle

variable (rt : Runtime) (texts : Texts) (toJson : RecordedLine → String)
  (settings : RecorderSettings)

/-- An action that is due: the state it leaves and what it records. -/
def act (self : Recorder) : RecorderAction → Option (Recorder × List RecordedLine)
  | .start fetched startedMs nowMs =>
      if self.phase = .created then
        let self :=
          { self with startedMs := startedMs, writer := self.writer.open_ settings.writer }
        let lines :=
          if settings.fetchMetadataOnStart then metadataEvents rt texts settings fetched startedMs
          else []
        some ((lines.foldl (record toJson settings) self).loopHead settings nowMs, lines)
      else none
  | .connected =>
      if self.phase = .connecting then
        some ({ self with
          phase := .waiting,
          heartbeat := .created, heartbeatReconnects := self.reconnects,
          watchdog := .created, watchdogReconnects := self.reconnects }, [])
      else none
  | .connectFailed error nowMs =>
      if self.phase = .connecting then
        match error with
        | .timeout => some ({ self with phase := .watchdogStopped true }, [])
        | .other errorName =>
            let line := refusalLine rt texts settings ("recording_connection_error:" ++ errorName)
              (some self.reconnects) nowMs
            some ({ self.record toJson settings line with phase := .watchdogStopped false }, [line])
      else none
  | .wake timedOut =>
      if self.phase = .waiting ∧ self.waitOver settings timedOut = true then
        some ({ self with phase := .leaving timedOut }, [])
      else none
  | .stopHeartbeat =>
      match self.phase with
      | .leaving timedOut =>
          some ({ self with phase := .heartbeatStopped timedOut, heartbeat := .finished }, [])
      | _ => none
  | .stopWatchdog =>
      match self.phase with
      | .heartbeatStopped timedOut =>
          some ({ self with phase := .watchdogStopped timedOut, watchdog := .finished }, [])
      | _ => none
  | .settle nowMs =>
      match self.phase with
      | .watchdogStopped timedOut =>
          if timedOut || self.done then some (self.finish, [])
          else
            let self := { self with reconnects := self.reconnects + 1 }
            if settings.maxReconnects < self.reconnects then
              let line := refusalLine rt texts settings "recording_max_reconnects_exceeded"
                (some self.reconnects) nowMs
              some ((self.record toJson settings line).finish, [line])
            else some ({ self with phase := .sleeping }, [])
      | _ => none
  | .retry nowMs =>
      if self.phase = .sleeping then some (self.loopHead settings nowMs, []) else none
  | .connect nowMs =>
      if self.client then
        some ({ self with lastMessageMs := nowMs, joining := self.joining + 1 }, [])
      else none
  | .joined nowMs =>
      if self.joining = 0 then none
      else
        let line := heartbeatLine rt texts settings "connect" self.reconnects nowMs
        some ({ self.record toJson settings line with joining := self.joining - 1 }, [line])
  | .disconnect nowMs =>
      if self.client then
        let line := heartbeatLine rt texts settings "disconnect" self.reconnects nowMs
        some (self.record toJson settings line, [line])
      else none
  | .message data nowMs =>
      if self.client then
        match data with
        | .obj fields =>
            let roomName := PublicStreamDryRunEngine.roomNameOf texts fields
            if roomName = "" then some (self, [])
            else
              let self := { self with lastMessageMs := nowMs }
              match normalizeBitbankMessage rt texts roomName fields nowMs with
              | .error _ => some (self, [])
              | .ok events =>
                  let lines := events.map (streamLine roomName)
                  let self := lines.foldl (record toJson settings) self
                  let full := settings.maxEvents.any fun (limit : ℤ) =>
                    decide (limit ≤ self.writer.totalEvents)
                  some ({ self with done := self.done || full }, lines)
        | _ => some (self, [])
      else none
  | .heartbeatStarts =>
      if self.heartbeat = .created then
        let runs := settings.heartbeatIntervalSec.any fun interval => decide (0 < interval)
        some ({ self with
          heartbeat := if runs && !self.done then .sleeping else .finished }, [])
      else none
  | .heartbeatTick nowMs =>
      if self.heartbeat = .sleeping then
        if self.done then some ({ self with heartbeat := .finished }, [])
        else
          let line := heartbeatLine rt texts settings "periodic" self.heartbeatReconnects nowMs
          some (self.record toJson settings line, [line])
      else none
  | .watchdogStarts =>
      if self.watchdog = .created then
        let runs := settings.maxIdleSec.any fun limit => decide (0 < limit)
        some ({ self with
          watchdog := if runs && !self.done && !self.idle then .sleeping else .finished }, [])
      else none
  | .watchdogTick nowMs =>
      if self.watchdog = .sleeping then
        if settings.maxIdleSec.any fun limit =>
            decide (limit * 1000 ≤ nowMs - self.lastMessageMs) then
          let line := refusalLine rt texts settings "recording_idle_timeout"
            (some self.watchdogReconnects) nowMs
          some ({ self.record toJson settings line with idle := true, watchdog := .finished },
            [line])
        else
          some ({ self with
            watchdog := if self.done || self.idle then .finished else .sleeping }, [])
      else none

/-- What an action that is not due raises. -/
inductive NotDue where
  | notDue

/-- The recorder as a machine: an action that is not due does not happen. -/
def step (self : Recorder) (action : RecorderAction) :
    Recorder × Except NotDue (List RecordedLine) :=
  match self.act rt texts toJson settings action with
  | some (self, lines) => (self, .ok lines)
  | none => (self, .error .notDue)

end Recorder

end GhostAmm
