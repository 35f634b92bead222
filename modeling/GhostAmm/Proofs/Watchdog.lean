/-
The idle watchdog of the recorder.

It is created with each connection and fires at most once in it, and it goes by the time of the
last thing the stream was heard with: a new connection, a `connect`, a message with a room.  So
an idle timeout is recorded exactly where the silence has reached the limit, and the numbers of
reconnects that these lines carry strictly ascend (`idle_timeouts_exact`).
-/
import GhostAmm.Proofs.Reconnects

namespace GhostAmm

open Py (Json Texts)

/-- An idle timeout. -/
def RecordedLine.isIdleTimeout (line : RecordedLine) : Bool :=
  decide (line.reason = some "recording_idle_timeout")

/-- The numbers of reconnects that the idle timeouts carry. -/
def idleNumbers (lines : List RecordedLine) : List ℤ :=
  reconnectNumbers (lines.filter RecordedLine.isIdleTimeout)

theorem idleNumbers_append (xs ys : List RecordedLine) :
    idleNumbers (xs ++ ys) = idleNumbers xs ++ idleNumbers ys := by
  simp [idleNumbers, reconnectNumbers, List.filter_append, List.filterMap_append]

namespace Recorder

variable {rt : Runtime} {texts : Texts} {toJson : RecordedLine → String}
  {settings : RecorderSettings} {self self' : Recorder} {action : RecorderAction}
  {lines : List RecordedLine}
  {steps : List (Machine.Step Recorder RecorderAction (List RecordedLine))} {s : Recorder}

/-! ### What records an idle timeout -/

theorem not_idle_stream (roomName : String) (events : List Event) :
    (events.map (streamLine roomName)).filter RecordedLine.isIdleTimeout = [] := by
  rw [List.filter_eq_nil_iff]
  rintro line hline
  obtain ⟨event, -, rfl⟩ := List.mem_map.mp hline
  simp [RecordedLine.isIdleTimeout, streamLine]

theorem not_idle_primed (settings : RecorderSettings) (fetched : MetadataFetch) (ts : ℚ) :
    (primed rt texts settings fetched ts).filter RecordedLine.isIdleTimeout = [] := by
  unfold primed
  split
  · unfold metadataEvents
    cases fetched with
    | failed errorName =>
        have hne := Py.append_ne errorName
          (show "metadata_fetch_failed:".toList.isPrefixOf
            "recording_idle_timeout".toList = false by decide)
        simp [RecordedLine.isIdleTimeout, refusalLine, hne]
    | lists specs statuses =>
        dsimp only
        split
        · simp [RecordedLine.isIdleTimeout, refusalLine]
        · rw [List.filter_eq_nil_iff]
          intro line hline
          obtain ⟨event, -, rfl⟩ := List.mem_map.mp hline
          simp [RecordedLine.isIdleTimeout]
  · rfl

/-- Only the watchdog records an idle timeout, exactly when the silence has reached the limit. -/
theorem Acted.idle_iff (h : Acted rt texts toJson settings self action self' lines) :
    lines.filter RecordedLine.isIdleTimeout ≠ [] ↔
      ∃ nowMs limit, action = .watchdogTick nowMs ∧ settings.maxIdleSec = some limit ∧
        limit * 1000 ≤ nowMs - self.lastMessageMs := by
  cases h with
  | startOver | startConnecting => simp [not_idle_primed]
  | message => simp [not_idle_stream]
  | connectRaised errorName =>
      have hne := Py.append_ne errorName
        (show "recording_connection_error:".toList.isPrefixOf
          "recording_idle_timeout".toList = false by decide)
      simp [RecordedLine.isIdleTimeout, refusalLine, hne]
  | watchdogFires nowMs limit _ hlimit hidle =>
      refine iff_of_true ?_ ⟨nowMs, limit, rfl, hlimit, hidle⟩
      simp [RecordedLine.isIdleTimeout, refusalLine]
  | watchdogWaits nowMs _ _ hheard =>
      refine iff_of_false (by simp) ?_
      rintro ⟨_, limit, haction, hlimit, hidle⟩
      obtain rfl := RecorderAction.watchdogTick.inj haction
      exact absurd hidle (not_le.mpr (hheard limit hlimit))
  | settleExceeded | joined | disconnect | heartbeatTick =>
      simp [RecordedLine.isIdleTimeout, refusalLine, heartbeatLine]
  | connected | connectTimedOut | wake | stopHeartbeat | stopWatchdog | settleOver
  | settleSleeping | retryOver | retryConnecting | connect | unheard | unread | heartbeatStarts
  | heartbeatEnds | watchdogStarts => simp

/-- Only a running watchdog checks. -/
theorem Acted.watching {nowMs : ℚ}
    (h : Acted rt texts toJson settings self (.watchdogTick nowMs) self' lines) :
    self.watchdog ≠ .finished := by
  cases h with
  | watchdogWaits _ _ htask | watchdogFires _ _ htask =>
      rw [htask]
      nofun

/-! ### Once in a connection -/

/-- Whether the connection there is, or the next one, can still have its idle timeout. -/
def unspent (s : Recorder) : Prop :=
  s.watchdog ≠ .finished ∨ s.phase = .created ∨ s.phase = .connecting ∨ s.phase = .sleeping

/-- A connection that can have an idle timeout could have it before, or is a new one. -/
theorem Acted.unspent (h : Acted rt texts toJson settings self action self' lines)
    (hself' : self'.unspent) : self.unspent ∨ self'.reconnects = self.reconnects + 1 := by
  cases h with
  | settleSleeping | settleExceeded => exact Or.inr rfl
  | watchdogStarts _ h | watchdogWaits _ _ h | watchdogFires _ _ h =>
      exact Or.inl (Or.inl (by rw [h]; nofun))
  | stopWatchdog => simp [Recorder.unspent] at hself'
  | startOver _ _ _ h | startConnecting _ _ _ h => exact Or.inl (Or.inr (Or.inl h))
  | connected h | connectTimedOut _ h | connectRaised _ _ h =>
      exact Or.inl (Or.inr (Or.inr (Or.inl h)))
  | retryOver _ h | retryConnecting _ h => exact Or.inl (Or.inr (Or.inr (Or.inr h)))
  | wake _ h | stopHeartbeat _ h | settleOver _ _ h =>
      simp only [Recorder.unspent, finish, reduceCtorEq, or_false] at hself'
      exact Or.inl (Or.inl hself')
  | connect | joined | disconnect | unheard | unread | message | heartbeatStarts | heartbeatEnds
  | heartbeatTick => exact Or.inl hself'

/-- No connection has had two idle timeouts. -/
structure OncePerConnection (settings : RecorderSettings) (s : Recorder) : Prop where
  ascending : (idleNumbers s.events).Pairwise (· < ·)
  upTo : ∀ n ∈ idleNumbers s.events, n ≤ s.reconnects
  unspent : s.unspent → ∀ n ∈ idleNumbers s.events, n < s.reconnects
  withinBudget : ∀ n ∈ idleNumbers s.events, n ≤ settings.budget

theorem oncePerConnection_run (h : Session rt texts toJson settings steps s) :
    OncePerConnection settings s := by
  induction h with
  | nil =>
      have hnone : idleNumbers ({} : Recorder).events = [] := rfl
      exact ⟨List.Pairwise.nil, by simp [hnone], by simp [hnone], by simp [hnone]⟩
  | @snoc steps s s' action lines hrun hs ih =>
      have hacted := step_acted hs
      have hevents : idleNumbers s'.events = idleNumbers s.events ++ idleNumbers lines := by
        rw [(hacted.writes (fresh_run hrun)).1, idleNumbers_append]
      have hup := (hacted.numbers (tasksCurrent_run hrun)).1
      by_cases hidle : lines.filter RecordedLine.isIdleTimeout = []
      · have hsame : idleNumbers s'.events = idleNumbers s.events := by
          rw [hevents, idleNumbers, idleNumbers, hidle]
          exact List.append_nil _
        refine ⟨hsame ▸ ih.ascending, ?_, ?_, hsame ▸ ih.withinBudget⟩
        · intro n hn
          rw [hsame] at hn
          have := ih.upTo n hn
          omega
        · intro hunspent n hn
          rw [hsame] at hn
          rcases hacted.unspent hunspent with hbefore | hnext
          · have := ih.unspent hbefore n hn
            omega
          · have := ih.upTo n hn
            omega
      · -- only the watchdog that was running records this, and it is over then
        obtain ⟨nowMs, limit, rfl, hlimit, hsilent⟩ := hacted.idle_iff.mp hidle
        cases hacted with
        | watchdogWaits _ _ _ hheard => exact absurd hsilent (not_le.mpr (hheard limit hlimit))
        | watchdogFires _ _ htask =>
            have hcurrent := ((tasksCurrent_run hrun).watchdog (by rw [htask]; nofun))
            have hbefore := ih.unspent (Or.inl (by rw [htask]; nofun))
            have hnew : idleNumbers [refusalLine rt texts settings "recording_idle_timeout"
                (some s.watchdogReconnects) nowMs] = [(s.reconnects : ℤ)] := by
              simp [idleNumbers, reconnectNumbers, RecordedLine.isIdleTimeout, refusalLine,
                hcurrent.1]
            rw [hnew] at hevents
            refine ⟨?_, ?_, ?_, ?_⟩
            · rw [hevents, List.pairwise_append]
              refine ⟨ih.ascending, List.pairwise_singleton _ _, ?_⟩
              intro a ha b hb
              rw [List.mem_singleton.mp hb]
              exact hbefore a ha
            · intro n hn
              rw [hevents, List.mem_append, List.mem_singleton] at hn
              rcases hn with hn | rfl
              · exact ih.upTo n hn
              · exact le_rfl
            · intro hunspent
              rcases hcurrent.2 with hphase | ⟨_, hphase⟩ | ⟨_, hphase⟩ <;>
                simp [Recorder.unspent, recorded, hphase] at hunspent
            · intro n hn
              rw [hevents, List.mem_append, List.mem_singleton] at hn
              rcases hn with hn | rfl
              · exact ih.withinBudget n hn
              · refine Int.ofNat_le.mpr ((withinBudget_run hrun).running ?_)
                rcases hcurrent.2 with hphase | ⟨_, hphase⟩ | ⟨_, hphase⟩ <;> simp [hphase]

/-! ### The silence -/

/-- When a step was heard: a new connection, a `connect`, a message with a room. -/
def heard (texts : Texts)
    (r : Machine.Step Recorder RecorderAction (List RecordedLine)) : Option ℚ :=
  match r.input with
  | .start _ _ nowMs | .retry nowMs => if r.after.phase = .connecting then some nowMs else none
  | .connect nowMs => some nowMs
  | .message (.obj fields) nowMs =>
      if PublicStreamDryRunEngine.roomNameOf texts fields = "" then none else some nowMs
  | _ => none

/-- When the session was heard last. -/
def lastHeard (texts : Texts)
    (steps : List (Machine.Step Recorder RecorderAction (List RecordedLine))) : Option ℚ :=
  (steps.filterMap (heard texts)).getLast?

/-- An action moves the last time to its own exactly if it is heard. -/
theorem Acted.heard (h : Acted rt texts toJson settings self action self' lines) :
    self'.client = (self.client || (Recorder.heard texts ⟨self, action, lines, self'⟩).isSome) ∧
      self'.lastMessageMs =
        (Recorder.heard texts ⟨self, action, lines, self'⟩).getD self.lastMessageMs := by
  cases h with
  | unheard data nowMs hclient hroom =>
      cases data with
      | obj fields => simp [Recorder.heard, hroom fields rfl]
      | null | bool | int | float | str | arr => simp [Recorder.heard]
  | startOver | startConnecting | connected | connectTimedOut | connectRaised | wake
  | stopHeartbeat | stopWatchdog | settleOver | settleExceeded | settleSleeping | retryOver
  | retryConnecting | connect | joined | disconnect | unread | message | heartbeatStarts
  | heartbeatEnds | heartbeatTick | watchdogStarts | watchdogWaits | watchdogFires =>
      simp_all [Recorder.heard, recorded, finish, attempt, started]

theorem lastHeard_run (h : Session rt texts toJson settings steps s) (hclient : s.client = true) :
    lastHeard texts steps = some s.lastMessageMs := by
  induction h with
  | nil => cases hclient
  | @snoc steps s s' action lines hrun hs ih =>
      obtain ⟨hclient', hlast⟩ := (step_acted hs).heard
      rw [lastHeard, List.filterMap_append]
      cases hheard : Recorder.heard texts ⟨s, action, lines, s'⟩ with
      | none =>
          rw [hheard, Option.isSome_none, Bool.or_false] at hclient'
          rw [hheard] at hlast
          rw [hclient'] at hclient
          have hsame := ih hclient
          rw [lastHeard] at hsame
          simp only [List.filterMap_cons, hheard, List.filterMap_nil, List.append_nil, hsame, hlast,
            Option.getD_none]
      | some t =>
          rw [hheard] at hlast
          simp [hheard, hlast]

/-- There is a client from the first connection on. -/
theorem Acted.client (h : Acted rt texts toJson settings self action self' lines)
    (hself : self.phase = .created ∨ self.phase = .closed ∨ self.client = true) :
    self'.phase = .created ∨ self'.phase = .closed ∨ self'.client = true := by
  cases h with
  | startOver | settleOver | settleExceeded | retryOver => exact Or.inr (Or.inl rfl)
  | startConnecting | retryConnecting => exact Or.inr (Or.inr rfl)
  | connected h | connectTimedOut _ h | connectRaised _ _ h | wake _ h | stopHeartbeat _ h
  | stopWatchdog _ h | settleSleeping _ h =>
      rw [h] at hself
      rcases hself with hself | hself | hself
      · cases hself
      · cases hself
      · exact Or.inr (Or.inr hself)
  | connect | joined | disconnect | unheard | unread | message | heartbeatStarts | heartbeatEnds
  | heartbeatTick | watchdogStarts | watchdogWaits | watchdogFires => exact hself

theorem client_run (h : Session rt texts toJson settings steps s) :
    s.phase = .created ∨ s.phase = .closed ∨ s.client = true := by
  refine h.invariant (P := fun s => s.phase = .created ∨ s.phase = .closed ∨ s.client = true)
    (Or.inl rfl) ?_
  intro s action lines s' hs hstep
  exact (step_acted hstep).client hs

/--
**A step of a session records an idle timeout exactly when it is a check of a running watchdog and
nothing has been heard for the limit; and no connection has two of them.**
-/
theorem idle_timeouts_exact (h : Session rt texts toJson settings steps s) :
    (∀ before r after, steps = before ++ r :: after →
      ((∃ line ∈ r.output, line.reason = some "recording_idle_timeout") ↔
        ∃ nowMs limit t, r.input = .watchdogTick nowMs ∧ settings.maxIdleSec = some limit ∧
          lastHeard texts before = some t ∧ limit * 1000 ≤ nowMs - t)) ∧
      (idleNumbers s.events).Pairwise (· < ·) ∧
      (∀ n ∈ idleNumbers s.events, n ≤ settings.budget) := by
  refine ⟨?_, (oncePerConnection_run h).ascending, ?_⟩
  · rintro before r after rfl
    obtain ⟨hbefore, hstep⟩ := h.split
    have hacted := step_acted hstep
    have hsome : (∃ line ∈ r.output, line.reason = some "recording_idle_timeout") ↔
        r.output.filter RecordedLine.isIdleTimeout ≠ [] := by
      simp [List.filter_eq_nil_iff, RecordedLine.isIdleTimeout]
    have hlast : ∀ nowMs, r.input = .watchdogTick nowMs →
        lastHeard texts before = some r.before.lastMessageMs := by
      intro nowMs hinput
      rw [hinput] at hacted
      refine lastHeard_run hbefore ?_
      have hphase := ((tasksCurrent_run hbefore).watchdog hacted.watching).2
      rcases client_run hbefore with hcreated | hclosed | hclient
      · simp [hcreated] at hphase
      · simp [hclosed] at hphase
      · exact hclient
    rw [hsome, hacted.idle_iff]
    constructor
    · rintro ⟨nowMs, limit, hinput, hlimit, hsilent⟩
      exact ⟨nowMs, limit, _, hinput, hlimit, hlast nowMs hinput, hsilent⟩
    · rintro ⟨nowMs, limit, t, hinput, hlimit, ht, hsilent⟩
      rw [hlast nowMs hinput] at ht
      obtain rfl := Option.some.inj ht
      exact ⟨nowMs, limit, hinput, hlimit, hsilent⟩
  · exact (oncePerConnection_run h).withinBudget

/-- A session that hears nothing for five minutes after it has connected. -/
def silentSession : Recorder × Except NotDue
    (List (Machine.Step Recorder RecorderAction (List RecordedLine))) :=
  Machine.exec (step seriesRuntime plainTexts (fun _ => "") stubborn) {}
    [.start (.lists [] []) 1000 1000, .connect 2000, .connected, .joined 2500, .watchdogStarts,
     .watchdogTick 151000, .watchdogTick 301000, .watchdogTick 302000, .wake false,
     .stopHeartbeat, .stopWatchdog, .settle 303000]

theorem silentSession_idle :
    idleNumbers silentSession.1.events = [0] ∧
      (∀ before r after, Machine.stepsOf silentSession = before ++ r :: after →
        ((∃ line ∈ r.output, line.reason = some "recording_idle_timeout") ↔
          ∃ nowMs limit t, r.input = .watchdogTick nowMs ∧ stubborn.maxIdleSec = some limit ∧
            lastHeard plainTexts before = some t ∧ limit * 1000 ≤ nowMs - t)) ∧
      (idleNumbers silentSession.1.events).Pairwise (· < ·) ∧
      (∀ n ∈ idleNumbers silentSession.1.events, n ≤ stubborn.budget) :=
  ⟨by decide +kernel, idle_timeouts_exact (Machine.run_exec (by decide +kernel))⟩

end Recorder

end GhostAmm
