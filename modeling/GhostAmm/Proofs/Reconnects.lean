/-
The connections of a session, and what the inspection of its recording reads of them.

The lines of the recorder's own carry the number of reconnects at the time.  A heartbeat and a
watchdog carry the number they were created with, which is the current one as long as they run:
both are stopped before the number goes up.  So the numbers of a recording never step back, and
the largest of them, which the inspection reports, is the last (`reconnects_accounted`).

A session makes one connection more than it has reconnected, and gives up when the budget is used
up; the line that says so is there exactly when the number is one beyond the budget.
-/
import GhostAmm.Lib.Text
import GhostAmm.Proofs.Session

namespace GhostAmm

open Py (Json Texts)

/-! ### The numbers an inspection sees -/

/-- The numbers of reconnects the lines carry. -/
def reconnectNumbers (lines : List RecordedLine) : List ℤ :=
  lines.filterMap RecordedLine.reconnects

/-- How often a session may reconnect. -/
def RecorderSettings.budget (settings : RecorderSettings) : ℕ := settings.maxReconnects.toNat

/-- Whether `run` is somewhere between a connection and what settles it. -/
def RecorderPhase.isConnection : RecorderPhase → Bool
  | .connecting | .waiting | .leaving _ | .heartbeatStopped _ | .watchdogStopped _ => true
  | .created | .sleeping | .closed => false

namespace Recorder

variable {rt : Runtime} {texts : Texts} {toJson : RecordedLine → String}
  {settings : RecorderSettings} {self self' : Recorder} {action : RecorderAction}
  {lines : List RecordedLine}
  {steps : List (Machine.Step Recorder RecorderAction (List RecordedLine))} {s : Recorder}

/-! ### The numbers a session records -/

theorem reconnectNumbers_stream (roomName : String) (events : List Event) :
    reconnectNumbers (events.map (streamLine roomName)) = [] := by
  simp [reconnectNumbers, streamLine]

theorem reconnectNumbers_metadata (settings : RecorderSettings) (fetched : MetadataFetch)
    (ts : ℚ) : reconnectNumbers (metadataEvents rt texts settings fetched ts) = [] := by
  unfold metadataEvents
  cases fetched with
  | failed errorName => rfl
  | lists specs statuses =>
      dsimp only
      split
      · rfl
      · simp [reconnectNumbers]

theorem reconnectNumbers_primed (settings : RecorderSettings) (fetched : MetadataFetch) (ts : ℚ) :
    reconnectNumbers (primed rt texts settings fetched ts) = [] := by
  unfold primed
  split
  · exact reconnectNumbers_metadata settings fetched ts
  · rfl

/-- The tasks of a connection know its number, and none of them outlives it. -/
structure TasksCurrent (s : Recorder) : Prop where
  heartbeat : s.heartbeat ≠ .finished →
    s.heartbeatReconnects = s.reconnects ∧ (s.phase = .waiting ∨ ∃ b, s.phase = .leaving b)
  watchdog : s.watchdog ≠ .finished →
    s.watchdogReconnects = s.reconnects ∧ (s.phase = .waiting ∨ (∃ b, s.phase = .leaving b) ∨
      ∃ b, s.phase = .heartbeatStopped b)

theorem Acted.tasksCurrent (h : Acted rt texts toJson settings self action self' lines)
    (hself : TasksCurrent self) : TasksCurrent self' := by
  obtain ⟨hheartbeat, hwatchdog⟩ := hself
  cases h <;> constructor <;> intro htask <;>
    simp_all [recorded, finish, attempt, started]

theorem tasksCurrent_run (h : Session rt texts toJson settings steps s) : TasksCurrent s :=
  h.invariant ⟨fun h => absurd rfl h, fun h => absurd rfl h⟩
    fun _ _ _ _ hs hstep => (step_acted hstep).tasksCurrent hs

/-- An action records its lines under the number of reconnects it leaves. -/
theorem Acted.numbers (h : Acted rt texts toJson settings self action self' lines)
    (hself : TasksCurrent self) :
    self.reconnects ≤ self'.reconnects ∧ ∀ n ∈ reconnectNumbers lines, n = self'.reconnects := by
  cases h with
  | startOver | startConnecting =>
      simp [reconnectNumbers_primed, finish, attempt, started, recorded]
  | message => simp [reconnectNumbers_stream, recorded]
  | heartbeatTick _ h =>
      have hcurrent := (hself.heartbeat (by rw [h]; decide)).1
      simp [reconnectNumbers, heartbeatLine, recorded, hcurrent]
  | watchdogFires _ _ h =>
      have hcurrent := (hself.watchdog (by rw [h]; decide)).1
      simp [reconnectNumbers, refusalLine, recorded, hcurrent]
  | connectRaised | settleExceeded | joined | disconnect =>
      simp [reconnectNumbers, refusalLine, heartbeatLine, recorded, finish]
  | connected | connectTimedOut | wake | stopHeartbeat | stopWatchdog | settleOver
  | settleSleeping | retryOver | retryConnecting | connect | unheard | unread | heartbeatStarts
  | heartbeatEnds | watchdogStarts | watchdogWaits =>
      simp [reconnectNumbers, finish, attempt]

/-- The connections a session has tried to make. -/
def attempts (steps : List (Machine.Step Recorder RecorderAction (List RecordedLine))) : ℕ :=
  steps.countP fun r => decide (r.before.phase ≠ .connecting ∧ r.after.phase = .connecting)

/-- The line that says that the budget is used up. -/
def gaveUp (lines : List RecordedLine) : Prop :=
  ∃ line ∈ lines, line.reason = some "recording_max_reconnects_exceeded"

/-- A session's connections against its number of reconnects and its budget. -/
structure WithinBudget (settings : RecorderSettings)
    (steps : List (Machine.Step Recorder RecorderAction (List RecordedLine)))
    (s : Recorder) : Prop where
  created : s.phase = .created → attempts steps = 0 ∧ s.reconnects = 0
  connection : s.phase.isConnection = true → attempts steps = s.reconnects + 1
  sleeping : s.phase = .sleeping → attempts steps = s.reconnects
  attempts_le : attempts steps ≤ settings.budget + 1
  running : s.phase ≠ .closed → s.reconnects ≤ settings.budget
  reconnects_le : s.reconnects ≤ settings.budget + 1
  gaveUp_iff : gaveUp s.events ↔ s.reconnects = settings.budget + 1

theorem gaveUp_append {xs ys : List RecordedLine} :
    gaveUp (xs ++ ys) ↔ gaveUp xs ∨ gaveUp ys := by
  simp [gaveUp, or_and_right, exists_or]

theorem not_gaveUp_stream (roomName : String) (events : List Event) :
    ¬ gaveUp (events.map (streamLine roomName)) := by
  simp [gaveUp, streamLine]

theorem not_gaveUp_primed (settings : RecorderSettings) (fetched : MetadataFetch) (ts : ℚ) :
    ¬ gaveUp (primed rt texts settings fetched ts) := by
  unfold primed
  split
  · unfold metadataEvents
    cases fetched with
    | failed errorName =>
        have hne := Py.append_ne errorName
          (show "metadata_fetch_failed:".toList.isPrefixOf
            "recording_max_reconnects_exceeded".toList = false by decide)
        simp [gaveUp, refusalLine, hne]
    | lists specs statuses =>
        dsimp only
        split
        · simp [gaveUp, refusalLine]
        · rintro ⟨line, hline, hreason⟩
          obtain ⟨event, -, rfl⟩ := List.mem_map.mp hline
          cases hreason
  · simp [gaveUp]

/-- Only one action gives up: it reconnects beyond the budget, and closes the session. -/
theorem Acted.gaveUp_iff (h : Acted rt texts toJson settings self action self' lines) :
    gaveUp lines ↔ self'.reconnects = self.reconnects + 1 ∧
      settings.maxReconnects < self'.reconnects := by
  cases h with
  | startOver | startConnecting =>
      simp [not_gaveUp_primed, finish, attempt, started, recorded]
  | message => simp [not_gaveUp_stream, recorded]
  | connectRaised errorName =>
      have hne := Py.append_ne errorName
        (show "recording_connection_error:".toList.isPrefixOf
          "recording_max_reconnects_exceeded".toList = false by decide)
      simp [gaveUp, refusalLine, hne, recorded]
  | settleExceeded _ _ hbudget => simpa [gaveUp, refusalLine, recorded, finish] using hbudget
  | settleSleeping _ _ hbudget => simpa [gaveUp] using hbudget
  | watchdogFires | joined | disconnect | heartbeatTick =>
      simp [gaveUp, refusalLine, heartbeatLine, recorded]
  | connected | connectTimedOut | wake | stopHeartbeat | stopWatchdog | settleOver | retryOver
  | retryConnecting | connect | unheard | unread | heartbeatStarts | heartbeatEnds
  | watchdogStarts | watchdogWaits =>
      simp [gaveUp, finish, attempt]

/-- A step that connects. -/
theorem attempts_snoc (steps : List (Machine.Step Recorder RecorderAction (List RecordedLine)))
    (r : Machine.Step Recorder RecorderAction (List RecordedLine)) :
    attempts (steps ++ [r]) = attempts steps +
      if r.before.phase ≠ .connecting ∧ r.after.phase = .connecting then 1 else 0 := by
  simp [attempts, List.countP_append, List.countP_singleton]

/-- The ways an action moves the session on: not, into a connection, to its end, and from a
connection to the next delay or beyond the budget. -/
inductive Moved (settings : RecorderSettings) (self self' : Recorder) : Prop
  | stays (h : self'.reconnects = self.reconnects) (hphase : self'.phase = self.phase)
  | within (h : self'.reconnects = self.reconnects) (hphase : self.phase.isConnection = true)
      (hphase' : self'.phase.isConnection = true) (hlater : self'.phase ≠ .connecting)
  | connects (h : self'.reconnects = self.reconnects)
      (hphase : self.phase = .created ∨ self.phase = .sleeping)
      (hphase' : self'.phase = .connecting)
  | ends (h : self'.reconnects = self.reconnects) (hphase' : self'.phase = .closed)
  | delays (h : self'.reconnects = self.reconnects + 1) (hphase : self.phase.isConnection = true)
      (hphase' : self'.phase = .sleeping) (hbudget : self'.reconnects ≤ settings.maxReconnects)
  | givesUp (h : self'.reconnects = self.reconnects + 1)
      (hphase : self.phase.isConnection = true) (hphase' : self'.phase = .closed)
      (hbudget : settings.maxReconnects < self'.reconnects)

theorem Acted.moved (h : Acted rt texts toJson settings self action self' lines) :
    Moved settings self self' := by
  cases h with
  | startOver | settleOver | retryOver => exact .ends rfl rfl
  | startConnecting _ _ _ hphase => exact .connects rfl (Or.inl hphase) rfl
  | retryConnecting _ hphase => exact .connects rfl (Or.inr hphase) rfl
  | connected hphase | connectTimedOut _ hphase | connectRaised _ _ hphase | wake _ hphase
  | stopHeartbeat _ hphase | stopWatchdog _ hphase =>
      exact .within rfl (by rw [hphase]; rfl) rfl (by simp)
  | settleExceeded _ hphase hbudget => exact .givesUp rfl (by rw [hphase]; rfl) rfl hbudget
  | settleSleeping _ hphase hbudget => exact .delays rfl (by rw [hphase]; rfl) rfl hbudget
  | connect | joined | disconnect | unheard | unread | message | heartbeatStarts | heartbeatEnds
  | heartbeatTick | watchdogStarts | watchdogWaits | watchdogFires => exact .stays rfl rfl

/-- What a move does to the two numbers, given how it counts as a connection and when it gives
up. -/
theorem WithinBudget.moved
    {steps' : List (Machine.Step Recorder RecorderAction (List RecordedLine))}
    (h : WithinBudget settings steps self) (hmoved : Moved settings self self')
    (hattempts : attempts steps' = attempts steps +
      if self.phase ≠ .connecting ∧ self'.phase = .connecting then 1 else 0)
    (hgave : gaveUp self'.events ↔ gaveUp self.events ∨
      self'.reconnects = self.reconnects + 1 ∧ settings.maxReconnects < self'.reconnects) :
    WithinBudget settings steps' self' := by
  have hover : settings.maxReconnects < (self.reconnects + 1 : ℕ) ↔
      settings.budget < self.reconnects + 1 := by
    unfold RecorderSettings.budget
    omega
  rw [h.gaveUp_iff] at hgave
  cases hmoved with
  | stays hsame hphase =>
      rw [if_neg (by simp [hphase]), Nat.add_zero] at hattempts
      exact
        { created := by rw [hphase, hattempts, hsame]; exact h.created
          connection := by rw [hphase, hattempts, hsame]; exact h.connection
          sleeping := by rw [hphase, hattempts, hsame]; exact h.sleeping
          attempts_le := hattempts ▸ h.attempts_le
          running := by rw [hphase, hsame]; exact h.running
          reconnects_le := hsame ▸ h.reconnects_le
          gaveUp_iff := hgave.trans (by omega) }
  | within hsame hphase hphase' hlater =>
      have hcount := h.connection hphase
      have hopen := h.running (by rintro hc; rw [hc] at hphase; cases hphase)
      rw [if_neg (by simp [hlater]), Nat.add_zero] at hattempts
      exact
        { created := fun hc => by rw [hc] at hphase'; cases hphase'
          connection := fun _ => by omega
          sleeping := fun hc => by rw [hc] at hphase'; cases hphase'
          attempts_le := by omega
          running := fun _ => by omega
          reconnects_le := by omega
          gaveUp_iff := hgave.trans (by omega) }
  | connects hsame hphase hphase' =>
      have hcount : attempts steps = self.reconnects := by
        rcases hphase with hphase | hphase
        · rw [(h.created hphase).1, (h.created hphase).2]
        · exact h.sleeping hphase
      have hopen := h.running (by rcases hphase with hphase | hphase <;> simp [hphase])
      rw [if_pos (by rcases hphase with hphase | hphase <;> simp [hphase, hphase'])]
        at hattempts
      exact
        { created := by simp [hphase']
          connection := fun _ => by omega
          sleeping := by simp [hphase']
          attempts_le := by omega
          running := fun _ => by omega
          reconnects_le := by omega
          gaveUp_iff := hgave.trans (by omega) }
  | ends hsame hphase' =>
      rw [if_neg (by simp [hphase']), Nat.add_zero] at hattempts
      exact
        { created := by simp [hphase']
          connection := by simp [hphase', RecorderPhase.isConnection]
          sleeping := by simp [hphase']
          attempts_le := hattempts ▸ h.attempts_le
          running := by simp [hphase']
          reconnects_le := hsame ▸ h.reconnects_le
          gaveUp_iff := hgave.trans (by omega) }
  | delays hnext hphase hphase' hbudget =>
      have hcount := h.connection hphase
      rw [if_neg (by simp [hphase']), Nat.add_zero] at hattempts
      exact
        { created := by simp [hphase']
          connection := by simp [hphase', RecorderPhase.isConnection]
          sleeping := fun _ => by omega
          attempts_le := hattempts ▸ h.attempts_le
          running := fun _ => by omega
          reconnects_le := by omega
          gaveUp_iff := hgave.trans (by omega) }
  | givesUp hnext hphase hphase' hbudget =>
      have hopen := h.running (by rintro hc; rw [hc] at hphase; cases hphase)
      rw [if_neg (by simp [hphase']), Nat.add_zero] at hattempts
      exact
        { created := by simp [hphase']
          connection := by simp [hphase', RecorderPhase.isConnection]
          sleeping := by simp [hphase']
          attempts_le := hattempts ▸ h.attempts_le
          running := by simp [hphase']
          reconnects_le := by omega
          gaveUp_iff := hgave.trans (by omega) }

theorem withinBudget_run (h : Session rt texts toJson settings steps s) :
    WithinBudget settings steps s := by
  induction h with
  | nil =>
      refine ⟨fun _ => ⟨rfl, rfl⟩, nofun, nofun, by simp [attempts], fun _ => Nat.zero_le _,
        Nat.zero_le _, by simp [gaveUp]⟩
  | @snoc steps s s' action lines hrun hs ih =>
      have hacted := step_acted hs
      refine ih.moved hacted.moved (attempts_snoc steps ⟨s, action, lines, s'⟩) ?_
      rw [(hacted.writes (fresh_run hrun)).1, gaveUp_append, hacted.gaveUp_iff]

/-- The line that gives up carries the number it gives up at. -/
theorem Acted.numbered (h : Acted rt texts toJson settings self action self' lines)
    (hgave : gaveUp lines) : (self'.reconnects : ℤ) ∈ reconnectNumbers lines := by
  obtain ⟨hnext, -⟩ := h.gaveUp_iff.mp hgave
  cases h with
  | settleExceeded => simp [reconnectNumbers, refusalLine, recorded, finish]
  | settleSleeping => simp [gaveUp] at hgave
  | startOver | startConnecting | connected | connectTimedOut | connectRaised | wake
  | stopHeartbeat | stopWatchdog | settleOver | retryOver | retryConnecting | connect | joined
  | disconnect | unheard | unread | message | heartbeatStarts | heartbeatEnds | heartbeatTick
  | watchdogStarts | watchdogWaits | watchdogFires =>
      simp [finish, attempt, started, recorded] at hnext

end Recorder

end GhostAmm
