/-
A session of the recorder.

`Acted` says once what an action that is due can do, one constructor for each way it can go, and
nothing after `act_acted` unfolds the machine.

The writer is driven by calls that can be read off the steps: opened at the start, one write for
each recorded line, closed where `run` ends.  So the files hold exactly what was recorded unless a
handler records after that close (`session_on_disk_iff`).
-/
import GhostAmm.Lib.Machine
import GhostAmm.Model.Recorder
import GhostAmm.Proofs.DryRun
import GhostAmm.Proofs.Writer

namespace GhostAmm

open Py (Json Texts)

namespace Recorder

/-! ### What an action does -/

section Acted

variable (rt : Runtime) (texts : Texts) (toJson : RecordedLine → String)
  (settings : RecorderSettings)

/-- The recorder with some more lines recorded. -/
def recorded (self : Recorder) (lines : List RecordedLine) : Recorder :=
  { self with
    events := self.events ++ lines,
    writer := (lines.map WriterCall.write).foldl
      (RotatingJsonlEventWriter.call toJson settings.writer) self.writer }

theorem foldl_record (lines : List RecordedLine) (self : Recorder) :
    lines.foldl (record toJson settings) self = self.recorded toJson settings lines := by
  induction lines generalizing self with
  | nil => simp [recorded]
  | cons line lines ih =>
      rw [List.foldl_cons, ih]
      simp [recorded, record, RotatingJsonlEventWriter.call]

/-- What `run` fetches and records before its first connection. -/
def primed (fetched : MetadataFetch) (startedMs : ℚ) : List RecordedLine :=
  if settings.fetchMetadataOnStart then metadataEvents rt texts settings fetched startedMs else []

/-- `run` as it begins. -/
def started (self : Recorder) (startedMs : ℚ) : Recorder :=
  { self with startedMs := startedMs, writer := self.writer.open_ settings.writer }

/-- A new connection. -/
def attempt (self : Recorder) (nowMs : ℚ) : Recorder :=
  { self with phase := .connecting, client := true, lastMessageMs := nowMs, idle := false }

/-- The ways an action that is due can go: the action, the state it leaves, what it records. -/
inductive Acted (self : Recorder) : RecorderAction → Recorder → List RecordedLine → Prop
  | startOver (fetched : MetadataFetch) (startedMs nowMs : ℚ) (h : self.phase = .created) :
      Acted self (.start fetched startedMs nowMs)
        (((self.started settings startedMs).recorded toJson settings
          (primed rt texts settings fetched startedMs)).finish)
        (primed rt texts settings fetched startedMs)
  | startConnecting (fetched : MetadataFetch) (startedMs nowMs : ℚ) (h : self.phase = .created)
      (hdone : self.done = false) :
      Acted self (.start fetched startedMs nowMs)
        (((self.started settings startedMs).recorded toJson settings
          (primed rt texts settings fetched startedMs)).attempt nowMs)
        (primed rt texts settings fetched startedMs)
  | connected (h : self.phase = .connecting) :
      Acted self .connected
        { self with
          phase := .waiting,
          heartbeat := .created, heartbeatReconnects := self.reconnects,
          watchdog := .created, watchdogReconnects := self.reconnects } []
  | connectTimedOut (nowMs : ℚ) (h : self.phase = .connecting) :
      Acted self (.connectFailed .timeout nowMs) { self with phase := .watchdogStopped true } []
  | connectRaised (errorName : String) (nowMs : ℚ) (h : self.phase = .connecting) :
      Acted self (.connectFailed (.other errorName) nowMs)
        { self.recorded toJson settings
            [refusalLine rt texts settings ("recording_connection_error:" ++ errorName)
              (some self.reconnects) nowMs] with phase := .watchdogStopped false }
        [refusalLine rt texts settings ("recording_connection_error:" ++ errorName)
          (some self.reconnects) nowMs]
  | wake (timedOut : Bool) (h : self.phase = .waiting)
      (hover : self.waitOver settings timedOut = true) :
      Acted self (.wake timedOut) { self with phase := .leaving timedOut } []
  | stopHeartbeat (timedOut : Bool) (h : self.phase = .leaving timedOut) :
      Acted self .stopHeartbeat
        { self with phase := .heartbeatStopped timedOut, heartbeat := .finished } []
  | stopWatchdog (timedOut : Bool) (h : self.phase = .heartbeatStopped timedOut) :
      Acted self .stopWatchdog
        { self with phase := .watchdogStopped timedOut, watchdog := .finished } []
  | settleOver (timedOut : Bool) (nowMs : ℚ) (h : self.phase = .watchdogStopped timedOut)
      (hover : (timedOut || self.done) = true) :
      Acted self (.settle nowMs) self.finish []
  | settleExceeded (nowMs : ℚ) (h : self.phase = .watchdogStopped false)
      (hbudget : settings.maxReconnects < (self.reconnects + 1 : ℕ)) :
      Acted self (.settle nowMs)
        (({ self with reconnects := self.reconnects + 1 }.recorded toJson settings
          [refusalLine rt texts settings "recording_max_reconnects_exceeded"
            (some (self.reconnects + 1)) nowMs]).finish)
        [refusalLine rt texts settings "recording_max_reconnects_exceeded"
          (some (self.reconnects + 1)) nowMs]
  | settleSleeping (nowMs : ℚ) (h : self.phase = .watchdogStopped false)
      (hbudget : ((self.reconnects + 1 : ℕ) : ℤ) ≤ settings.maxReconnects) :
      Acted self (.settle nowMs)
        { self with reconnects := self.reconnects + 1, phase := .sleeping } []
  | retryOver (nowMs : ℚ) (h : self.phase = .sleeping) : Acted self (.retry nowMs) self.finish []
  | retryConnecting (nowMs : ℚ) (h : self.phase = .sleeping) (hdone : self.done = false) :
      Acted self (.retry nowMs) (self.attempt nowMs) []
  | connect (nowMs : ℚ) (h : self.client = true) :
      Acted self (.connect nowMs)
        { self with lastMessageMs := nowMs, joining := self.joining + 1 } []
  | joined (nowMs : ℚ) (h : 0 < self.joining) :
      Acted self (.joined nowMs)
        { self.recorded toJson settings
            [heartbeatLine rt texts settings "connect" self.reconnects nowMs] with
          joining := self.joining - 1 }
        [heartbeatLine rt texts settings "connect" self.reconnects nowMs]
  | disconnect (nowMs : ℚ) (h : self.client = true) :
      Acted self (.disconnect nowMs)
        (self.recorded toJson settings
          [heartbeatLine rt texts settings "disconnect" self.reconnects nowMs])
        [heartbeatLine rt texts settings "disconnect" self.reconnects nowMs]
  | unheard (data : Json) (nowMs : ℚ) (h : self.client = true)
      (hroom : ∀ fields, data = .obj fields →
        PublicStreamDryRunEngine.roomNameOf texts fields = "") :
      Acted self (.message data nowMs) self []
  | unread (fields : List (String × Json)) (nowMs : ℚ) (h : self.client = true)
      (hroom : PublicStreamDryRunEngine.roomNameOf texts fields ≠ "") :
      Acted self (.message (.obj fields) nowMs) { self with lastMessageMs := nowMs } []
  | message (fields : List (String × Json)) (nowMs : ℚ) (events : List Event) (full : Bool)
      (h : self.client = true) (hroom : PublicStreamDryRunEngine.roomNameOf texts fields ≠ "")
      (hevents : normalizeBitbankMessage rt texts
        (PublicStreamDryRunEngine.roomNameOf texts fields) fields nowMs = .ok events) :
      Acted self (.message (.obj fields) nowMs)
        { self.recorded toJson settings
            (events.map (streamLine (PublicStreamDryRunEngine.roomNameOf texts fields))) with
          lastMessageMs := nowMs, done := self.done || full }
        (events.map (streamLine (PublicStreamDryRunEngine.roomNameOf texts fields)))
  | heartbeatStarts (task : TaskState) (h : self.heartbeat = .created) :
      Acted self .heartbeatStarts { self with heartbeat := task } []
  | heartbeatEnds (nowMs : ℚ) (h : self.heartbeat = .sleeping) (hdone : self.done = true) :
      Acted self (.heartbeatTick nowMs) { self with heartbeat := .finished } []
  | heartbeatTick (nowMs : ℚ) (h : self.heartbeat = .sleeping) (hdone : self.done = false) :
      Acted self (.heartbeatTick nowMs)
        (self.recorded toJson settings
          [heartbeatLine rt texts settings "periodic" self.heartbeatReconnects nowMs])
        [heartbeatLine rt texts settings "periodic" self.heartbeatReconnects nowMs]
  | watchdogStarts (task : TaskState) (h : self.watchdog = .created) :
      Acted self .watchdogStarts { self with watchdog := task } []
  | watchdogWaits (nowMs : ℚ) (task : TaskState) (h : self.watchdog = .sleeping)
      (hheard : ∀ limit ∈ settings.maxIdleSec, nowMs - self.lastMessageMs < limit * 1000) :
      Acted self (.watchdogTick nowMs) { self with watchdog := task } []
  | watchdogFires (nowMs limit : ℚ) (h : self.watchdog = .sleeping)
      (hlimit : settings.maxIdleSec = some limit)
      (hidle : limit * 1000 ≤ nowMs - self.lastMessageMs) :
      Acted self (.watchdogTick nowMs)
        { self.recorded toJson settings
            [refusalLine rt texts settings "recording_idle_timeout"
              (some self.watchdogReconnects) nowMs] with idle := true, watchdog := .finished }
        [refusalLine rt texts settings "recording_idle_timeout"
          (some self.watchdogReconnects) nowMs]

end Acted

variable {rt : Runtime} {texts : Texts} {toJson : RecordedLine → String}
  {settings : RecorderSettings} {self self' : Recorder} {action : RecorderAction}
  {lines : List RecordedLine}

/-- The loop's head ends the session or makes a new connection. -/
theorem loopHead_cases (settings : RecorderSettings) (self : Recorder) (nowMs : ℚ) :
    self.loopHead settings nowMs = self.finish ∨
      self.done = false ∧ self.loopHead settings nowMs = self.attempt nowMs := by
  unfold loopHead
  split
  · exact Or.inl rfl
  · rename_i hdone
    split
    · exact Or.inl rfl
    · exact Or.inr ⟨by simpa using hdone, rfl⟩

/-- **What an action that is due does.** -/
theorem act_acted (h : self.act rt texts toJson settings action = some (self', lines)) :
    Acted rt texts toJson settings self action self' lines := by
  cases action with
  | start fetched startedMs nowMs =>
      simp only [act] at h
      split at h
      · rename_i hphase
        obtain ⟨hself, rfl⟩ := Prod.mk.inj (Option.some.inj h)
        rw [foldl_record] at hself
        rcases loopHead_cases settings ((self.started settings startedMs).recorded toJson settings
          (primed rt texts settings fetched startedMs)) nowMs with hover | ⟨hdone, hnext⟩
        · rw [← hself]
          exact hover ▸ Acted.startOver fetched startedMs nowMs hphase
        · rw [← hself]
          exact hnext ▸ Acted.startConnecting fetched startedMs nowMs hphase hdone
      · cases h
  | connected =>
      simp only [act] at h
      split at h
      · obtain ⟨rfl, rfl⟩ := Prod.mk.inj (Option.some.inj h)
        exact Acted.connected ‹_›
      · cases h
  | connectFailed error nowMs =>
      simp only [act] at h
      split at h
      · cases error with
        | timeout =>
            obtain ⟨rfl, rfl⟩ := Prod.mk.inj (Option.some.inj h)
            exact Acted.connectTimedOut nowMs ‹_›
        | other errorName =>
            obtain ⟨rfl, rfl⟩ := Prod.mk.inj (Option.some.inj h)
            exact Acted.connectRaised errorName nowMs ‹_›
      · cases h
  | wake timedOut =>
      simp only [act] at h
      split at h
      · rename_i hdue
        obtain ⟨rfl, rfl⟩ := Prod.mk.inj (Option.some.inj h)
        exact Acted.wake timedOut hdue.1 hdue.2
      · cases h
  | stopHeartbeat =>
      simp only [act] at h
      split at h
      · obtain ⟨rfl, rfl⟩ := Prod.mk.inj (Option.some.inj h)
        exact Acted.stopHeartbeat _ ‹_›
      · cases h
  | stopWatchdog =>
      simp only [act] at h
      split at h
      · obtain ⟨rfl, rfl⟩ := Prod.mk.inj (Option.some.inj h)
        exact Acted.stopWatchdog _ ‹_›
      · cases h
  | settle nowMs =>
      simp only [act] at h
      split at h
      · rename_i timedOut hphase
        split at h
        · rename_i hover
          obtain ⟨rfl, rfl⟩ := Prod.mk.inj (Option.some.inj h)
          exact Acted.settleOver timedOut nowMs hphase hover
        · rename_i hgoes
          have htimed : timedOut = false := by
            cases timedOut with
            | false => rfl
            | true => simp at hgoes
          rw [htimed] at hphase
          split at h
          · rename_i hbudget
            obtain ⟨rfl, rfl⟩ := Prod.mk.inj (Option.some.inj h)
            exact Acted.settleExceeded nowMs hphase hbudget
          · rename_i hbudget
            obtain ⟨rfl, rfl⟩ := Prod.mk.inj (Option.some.inj h)
            exact Acted.settleSleeping nowMs hphase (not_lt.mp hbudget)
      · cases h
  | retry nowMs =>
      simp only [act] at h
      split at h
      · rename_i hphase
        obtain ⟨hself, rfl⟩ := Prod.mk.inj (Option.some.inj h)
        rcases loopHead_cases settings self nowMs with hover | ⟨hdone, hnext⟩
        · rw [← hself, hover]
          exact Acted.retryOver nowMs hphase
        · rw [← hself, hnext]
          exact Acted.retryConnecting nowMs hphase hdone
      · cases h
  | connect nowMs =>
      simp only [act] at h
      split at h
      · obtain ⟨rfl, rfl⟩ := Prod.mk.inj (Option.some.inj h)
        exact Acted.connect nowMs ‹_›
      · cases h
  | joined nowMs =>
      simp only [act] at h
      split at h
      · cases h
      · obtain ⟨rfl, rfl⟩ := Prod.mk.inj (Option.some.inj h)
        exact Acted.joined nowMs (Nat.pos_of_ne_zero ‹_›)
  | disconnect nowMs =>
      simp only [act] at h
      split at h
      · obtain ⟨rfl, rfl⟩ := Prod.mk.inj (Option.some.inj h)
        exact Acted.disconnect nowMs ‹_›
      · cases h
  | message data nowMs =>
      simp only [act] at h
      split at h
      · rename_i hclient
        split at h
        · split at h
          · rename_i hroom
            obtain ⟨rfl, rfl⟩ := Prod.mk.inj (Option.some.inj h)
            refine Acted.unheard _ nowMs hclient fun fields hdata => ?_
            rwa [← Json.obj.inj hdata]
          · rename_i hroom
            split at h
            · obtain ⟨rfl, rfl⟩ := Prod.mk.inj (Option.some.inj h)
              exact Acted.unread _ nowMs hclient hroom
            · rename_i events hevents
              obtain ⟨hself, rfl⟩ := Prod.mk.inj (Option.some.inj h)
              rw [foldl_record] at hself
              rw [← hself]
              exact Acted.message _ nowMs events _ hclient hroom hevents
        · rename_i hnotObj
          obtain ⟨rfl, rfl⟩ := Prod.mk.inj (Option.some.inj h)
          exact Acted.unheard _ nowMs hclient fun fields hdata => absurd hdata (hnotObj fields)
      · cases h
  | heartbeatStarts =>
      simp only [act] at h
      split at h
      · obtain ⟨rfl, rfl⟩ := Prod.mk.inj (Option.some.inj h)
        exact Acted.heartbeatStarts _ ‹_›
      · cases h
  | heartbeatTick nowMs =>
      simp only [act] at h
      split at h
      · rename_i htask
        split at h
        · rename_i hdone
          obtain ⟨rfl, rfl⟩ := Prod.mk.inj (Option.some.inj h)
          exact Acted.heartbeatEnds nowMs htask hdone
        · rename_i hdone
          obtain ⟨rfl, rfl⟩ := Prod.mk.inj (Option.some.inj h)
          exact Acted.heartbeatTick nowMs htask (by simpa using hdone)
      · cases h
  | watchdogStarts =>
      simp only [act] at h
      split at h
      · obtain ⟨rfl, rfl⟩ := Prod.mk.inj (Option.some.inj h)
        exact Acted.watchdogStarts _ ‹_›
      · cases h
  | watchdogTick nowMs =>
      simp only [act] at h
      split at h
      · rename_i htask
        split at h
        · rename_i hfires
          obtain ⟨rfl, rfl⟩ := Prod.mk.inj (Option.some.inj h)
          cases hlimit : settings.maxIdleSec with
          | none =>
              rw [hlimit] at hfires
              cases hfires
          | some limit =>
              rw [hlimit] at hfires
              exact Acted.watchdogFires nowMs limit htask hlimit (by simpa using hfires)
        · rename_i hheard
          obtain ⟨rfl, rfl⟩ := Prod.mk.inj (Option.some.inj h)
          refine Acted.watchdogWaits nowMs _ htask ?_
          intro limit hlimit
          rw [Option.mem_def] at hlimit
          rw [hlimit] at hheard
          simpa using hheard
      · cases h

/-! ### The writer of a session -/

section Session

variable (rt : Runtime) (texts : Texts) (toJson : RecordedLine → String)
  (settings : RecorderSettings)

/-- A session: actions that were due, one after the other. -/
abbrev Session (steps : List (Machine.Step Recorder RecorderAction (List RecordedLine)))
    (s : Recorder) : Prop :=
  Machine.Run (step rt texts toJson settings) {} steps s

end Session

theorem step_acted (h : step rt texts toJson settings self action = (self', .ok lines)) :
    Acted rt texts toJson settings self action self' lines := by
  unfold step at h
  split at h
  · rename_i hact
    obtain ⟨rfl, hlines⟩ := Prod.mk.inj h
    obtain rfl := Except.ok.inj hlines
    exact act_acted hact
  · cases (Prod.mk.inj h).2

/-- Before `run` begins there is no client and no task. -/
structure Fresh (s : Recorder) : Prop where
  client : s.client = false
  joining : s.joining = 0
  heartbeat : s.heartbeat = .finished
  watchdog : s.watchdog = .finished

/-- Nothing happens before `run` begins. -/
theorem Acted.fresh (h : Acted rt texts toJson settings self action self' lines)
    (hfresh : self.phase = .created → Fresh self) : self'.phase ≠ .created := by
  intro hphase
  cases h with
  | startOver | startConnecting | connected | connectTimedOut | connectRaised | wake
  | stopHeartbeat | stopWatchdog | settleOver | settleExceeded | settleSleeping | retryOver
  | retryConnecting => cases hphase
  | connect _ h | disconnect _ h | unheard _ _ h _ | unread _ _ h | message _ _ _ _ h =>
      rw [(hfresh hphase).client] at h
      cases h
  | joined _ h =>
      rw [(hfresh hphase).joining] at h
      omega
  | heartbeatStarts _ h | heartbeatEnds _ h | heartbeatTick _ h =>
      rw [(hfresh hphase).heartbeat] at h
      cases h
  | watchdogStarts _ h | watchdogWaits _ _ h | watchdogFires _ _ h =>
      rw [(hfresh hphase).watchdog] at h
      cases h

variable {steps : List (Machine.Step Recorder RecorderAction (List RecordedLine))} {s : Recorder}

theorem fresh_run (h : Session rt texts toJson settings steps s) :
    s.phase = .created → Fresh s := by
  refine h.invariant (P := fun s => s.phase = .created → Fresh s) ?_ ?_
  · intro _
    exact ⟨rfl, rfl, rfl, rfl⟩
  · intro s action lines s' hs hstep hphase
    exact absurd hphase ((step_acted hstep).fresh hs)

/-- The calls on the writer that an action makes. -/
def writerCalls (self self' : Recorder) (lines : List RecordedLine) :
    List (WriterCall RecordedLine) :=
  (if self.phase = .created then [.open_] else []) ++ lines.map .write ++
    if self.phase ≠ .closed ∧ self'.phase = .closed then [.close] else []

/-- What an action records and what the writer is told of it. -/
theorem Acted.writes (h : Acted rt texts toJson settings self action self' lines)
    (hfresh : self.phase = .created → Fresh self) :
    self'.events = self.events ++ lines ∧
      self'.writer = (writerCalls self self' lines).foldl
        (RotatingJsonlEventWriter.call toJson settings.writer) self.writer := by
  have hnew := h.fresh hfresh
  cases h with
  | startOver | startConnecting | connected | connectTimedOut | connectRaised | wake
  | stopHeartbeat | stopWatchdog | settleOver | settleExceeded | settleSleeping | retryOver
  | retryConnecting =>
      simp_all [writerCalls, recorded, finish, attempt, started, RotatingJsonlEventWriter.call]
  | connect | joined | disconnect | unheard | unread | message | heartbeatStarts | heartbeatEnds
  | heartbeatTick | watchdogStarts | watchdogWaits | watchdogFires =>
      simp_all [writerCalls, recorded]

/-- The end of a session is its end. -/
theorem Acted.closed (h : Acted rt texts toJson settings self action self' lines)
    (hclosed : self.phase = .closed) : self'.phase = .closed := by
  cases h <;> simp_all [recorded]

/-- What was recorded before the writer was closed. -/
def inTime (steps : List (Machine.Step Recorder RecorderAction (List RecordedLine))) :
    List RecordedLine :=
  (steps.filter fun r => decide (r.before.phase ≠ .closed)).flatMap Machine.Step.output

/-- What handlers recorded after that. -/
def late (steps : List (Machine.Step Recorder RecorderAction (List RecordedLine))) :
    List RecordedLine :=
  (steps.filter fun r => decide (r.before.phase = .closed)).flatMap Machine.Step.output

/-- The calls a session has made on its writer. -/
def sessionCalls (steps : List (Machine.Step Recorder RecorderAction (List RecordedLine)))
    (s : Recorder) : List (WriterCall RecordedLine) :=
  (if s.phase = .created then [] else [.open_]) ++ (inTime steps).map .write ++
    (if s.phase = .closed then [.close] else []) ++ (late steps).map .write

/-- The state of a session as what it has recorded. -/
structure Recorded (toJson : RecordedLine → String) (settings : RecorderSettings)
    (steps : List (Machine.Step Recorder RecorderAction (List RecordedLine)))
    (s : Recorder) : Prop where
  events : s.events = inTime steps ++ late steps
  writer : s.writer =
    RotatingJsonlEventWriter.calls toJson settings.writer (sessionCalls steps s)
  inTime_created : s.phase = .created → inTime steps = []
  late_open : s.phase ≠ .closed → late steps = []

theorem recorded_run (h : Session rt texts toJson settings steps s) :
    Recorded toJson settings steps s := by
  induction h with
  | nil => exact ⟨rfl, rfl, fun _ => rfl, fun _ => rfl⟩
  | @snoc steps s s' action lines hrun hs ih =>
      have hacted := step_acted hs
      have hfresh := fresh_run hrun
      have hnew := hacted.fresh hfresh
      obtain ⟨hevents, hwriter⟩ := hacted.writes hfresh
      by_cases hclosed : s.phase = .closed
      · have hclosed' := hacted.closed hclosed
        have htime : inTime (steps ++ [⟨s, action, lines, s'⟩]) = inTime steps := by
          simp [inTime, List.filter_append, hclosed]
        have hlate : late (steps ++ [⟨s, action, lines, s'⟩]) = late steps ++ lines := by
          simp [late, List.filter_append, hclosed]
        refine ⟨?_, ?_, fun hc => absurd hc hnew, fun ho => absurd hclosed' ho⟩
        · rw [hevents, ih.events, htime, hlate, List.append_assoc]
        · rw [hwriter, ih.writer]
          simp [sessionCalls, writerCalls, htime, hlate, hclosed, hclosed',
            RotatingJsonlEventWriter.calls]
      · have hempty := ih.late_open hclosed
        have htime : inTime (steps ++ [⟨s, action, lines, s'⟩]) = inTime steps ++ lines := by
          simp [inTime, List.filter_append, hclosed]
        have hlate : late (steps ++ [⟨s, action, lines, s'⟩]) = [] := by
          rw [← hempty]
          simp [late, List.filter_append, hclosed]
        refine ⟨?_, ?_, fun hc => absurd hc hnew, fun _ => hlate⟩
        · rw [hevents, ih.events, htime, hlate, hempty, List.append_nil, List.append_nil]
        · rw [hwriter, ih.writer]
          by_cases hcreated : s.phase = .created
          · simp [sessionCalls, writerCalls, htime, hlate, hempty, hcreated, hnew,
              ih.inTime_created hcreated, RotatingJsonlEventWriter.calls]
          · simp [sessionCalls, writerCalls, htime, hlate, hempty, hcreated, hclosed, hnew,
              RotatingJsonlEventWriter.calls]

/-- What is written is what the writes write. -/
@[simp] theorem written_map_write (lines : List RecordedLine) :
    RotatingJsonlEventWriter.written (lines.map .write) = lines := by
  simp [RotatingJsonlEventWriter.written, List.filterMap_map]

/-- A writer opened, written to, closed and perhaps written to again: it is closed for good unless
there are writes on both sides of the close. -/
theorem closedForGood_iff {before after : List RecordedLine} :
    RotatingJsonlEventWriter.ClosedForGood
      (.open_ :: before.map .write ++ .close :: after.map .write) ↔ before = [] ∨ after = [] := by
  have hwritten : ∀ lines : List RecordedLine,
      RotatingJsonlEventWriter.written (.open_ :: lines.map .write) = lines := written_map_write
  constructor
  · intro h
    by_contra hboth
    obtain ⟨hbefore, hafter⟩ := not_or.mp hboth
    obtain ⟨line, rest, rfl⟩ := List.exists_cons_of_ne_nil hafter
    have hwrite := h _ _ rfl (by rw [hwritten]; exact hbefore) (.write line) (by simp)
    cases hwrite
  · intro h xs ys hl hw c hc
    -- the close of the list is the only one, so it is cut there
    have hcut : xs = .open_ :: before.map .write ∧ ys = after.map .write := by
      have hnone : ∀ lines : List RecordedLine,
          (WriterCall.close : WriterCall RecordedLine) ∉ lines.map WriterCall.write := by
        intro lines hmem
        obtain ⟨line, -, hline⟩ := List.mem_map.mp hmem
        cases hline
      rcases List.append_eq_append_iff.mp hl with ⟨as, hx, hy⟩ | ⟨as, hx, hy⟩
      · cases as with
        | nil => exact ⟨by simpa using hx, by simpa using (List.cons.inj hy).2.symm⟩
        | cons a as =>
            obtain ⟨-, hrest⟩ := List.cons.inj hy
            have hmem : (WriterCall.close : WriterCall RecordedLine) ∈
                after.map WriterCall.write := by
              rw [hrest]
              simp
            exact absurd hmem (hnone after)
      · cases as with
        | nil => exact ⟨by simpa using hx.symm, by simpa using (List.cons.inj hy).2⟩
        | cons a as =>
            have hmem : (WriterCall.close : WriterCall RecordedLine) ∈
                WriterCall.open_ :: before.map WriterCall.write := by
              rw [hx]
              have : a = .close := (List.cons.inj hy).1.symm
              simp [this]
            rcases List.mem_cons.mp hmem with hopen | hwrite
            · cases hopen
            · exact absurd hwrite (hnone before)
    rw [hcut.1, hwritten] at hw
    rcases h with rfl | rfl
    · exact absurd rfl hw
    · rw [hcut.2] at hc
      simp at hc

/-- The lines of a session are what its calls write. -/
theorem written_sessionCalls (h : Recorded toJson settings steps s) :
    RotatingJsonlEventWriter.written (sessionCalls steps s) = s.events := by
  have happend : ∀ xs ys : List (WriterCall RecordedLine),
      RotatingJsonlEventWriter.written (xs ++ ys) =
        RotatingJsonlEventWriter.written xs ++ RotatingJsonlEventWriter.written ys :=
    fun xs ys => List.filterMap_append
  rw [h.events, sessionCalls, happend, happend, happend, written_map_write, written_map_write]
  split <;> split <;> simp [RotatingJsonlEventWriter.written]

/-- Which sessions use their writer well. -/
theorem closedForGood_sessionCalls (h : Recorded toJson settings steps s) :
    RotatingJsonlEventWriter.ClosedForGood (sessionCalls steps s) ↔
      inTime steps = [] ∨ late steps = [] := by
  by_cases hclosed : s.phase = .closed
  · have hcalls : sessionCalls steps s =
        .open_ :: (inTime steps).map .write ++ .close :: (late steps).map .write := by
      simp [sessionCalls, hclosed]
    rw [hcalls, closedForGood_iff]
  · have hlate := h.late_open hclosed
    refine iff_of_true ?_ (Or.inr hlate)
    intro before after hl
    have hmem : (WriterCall.close : WriterCall RecordedLine) ∈ sessionCalls steps s := by
      rw [hl]
      simp
    by_cases hcreated : s.phase = .created
    · simp [sessionCalls, hlate, hcreated] at hmem
    · simp [sessionCalls, hclosed, hlate, hcreated] at hmem

/--
**The files of a session hold exactly what was recorded, in order and each line once, unless
handlers recorded something after `run` closed the writer that it had written to.**
-/
theorem session_on_disk_iff (h : Session rt texts toJson settings steps s) :
    s.writer.recording = s.events.map (RotatingJsonlEventWriter.lineOf toJson) ↔
      inTime steps = [] ∨ late steps = [] := by
  have hrecorded := recorded_run h
  have hlog := @RotatingJsonlEventWriter.follows_calls settings.writer _ toJson
    (sessionCalls steps s)
  rw [hrecorded.writer, hlog.recording, ← written_sessionCalls hrecorded,
    ← RotatingJsonlEventWriter.appended_logActs toJson settings.writer, Segments.contents_eq_iff,
    RotatingJsonlEventWriter.kept_iff_closedForGood, closedForGood_sessionCalls hrecorded]

/-! ### A connection that fails -/

/-- A recorder that does not reconnect. -/
def stubborn : RecorderSettings where
  pair := "btc_jpy"
  writer := { path := ⟨"btc".toList, ".jsonl".toList⟩ }
  fetchMetadataOnStart := false
  maxReconnects := 0

/-- A session whose only connection fails, with a handler that runs before the session ends and
one that runs after. -/
def failedSession : Recorder × Except NotDue
    (List (Machine.Step Recorder RecorderAction (List RecordedLine))) :=
  Machine.exec (step seriesRuntime plainTexts (fun _ => "") stubborn) {}
    [.start (.lists [] []) 1000 1000, .disconnect 1500,
     .connectFailed (.other "ConnectionError") 2000, .settle 2500, .disconnect 3000]

/-- The handler that runs after the end writes over the recording. -/
theorem failedSession_not_on_disk :
    (failedSession.1.writer.recording =
        failedSession.1.events.map (RotatingJsonlEventWriter.lineOf fun _ => "") ↔
      inTime (Machine.stepsOf failedSession) = [] ∨ late (Machine.stepsOf failedSession) = []) ∧
    ¬ (inTime (Machine.stepsOf failedSession) = [] ∨
      late (Machine.stepsOf failedSession) = []) :=
  ⟨session_on_disk_iff (Machine.run_exec (by decide +kernel)), by decide +kernel⟩

end Recorder

end GhostAmm
