/-
Replicas fed by updates and copies.

An original goes through a history: a start, then one update after the other, each
point under a stamp larger than the ones before.  A replica receives every update in
order and, at any time in between, copies of the original as it was at some point up
to then.  It applies an update to whatever it holds and takes a copy for what it is.

A copy may be older than updates that were applied already.  What it holds is still
the original at the point it names; it is the next update that is applied to the
wrong point.  `faithful_iff` says that nothing else can go wrong: a replica is right
after every message exactly when each update would also have led on from the point
it is applied to.
-/
import GhostAmm.Lib.Machine

namespace Replica

/-- A start, updates, and the increasing stamps of the points they lead to. -/
structure History (σ δ : Type) where
  start : σ
  update : ℕ → δ
  stamp : ℕ → ℤ
  increasing : StrictMono stamp

variable {σ δ : Type} (apply : σ → δ → σ) (history : History σ δ)

/-- The original after the first `n` updates. -/
def History.stateAt : ℕ → σ
  | 0 => history.start
  | n + 1 => apply (History.stateAt n) (history.update n)

/-- The next update, a copy of the original at some point, or nothing. -/
inductive Message where
  | update
  | copy (point : ℕ)
  | other
  deriving DecidableEq, Repr

/-- How many updates were delivered, and what is held, with the point it should be. -/
structure State (σ : Type) where
  delivered : ℕ := 0
  held : Option (ℕ × σ) := none

/-- Receive a message. -/
def receive (s : State σ) : Message → State σ
  | .update =>
      { delivered := s.delivered + 1
        held := s.held.map fun held =>
          (s.delivered + 1, apply held.2 (history.update s.delivered)) }
  | .copy point => { s with held := some (point, history.stateAt apply point) }
  | .other => s

/-- A replica as a machine; it never raises. -/
def step (s : State σ) (message : Message) : State σ × Except Empty Unit :=
  (receive apply history s message, .ok ())

/-- What is held is the original at the point it should be. -/
def Faithful (s : State σ) : Prop :=
  ∀ held ∈ s.held, held.2 = history.stateAt apply held.1

/-- The update leads on from the point that is held as it does from its own. -/
def Seamless (s : State σ) : Message → Prop
  | .update => ∀ held ∈ s.held, apply (history.stateAt apply held.1) (history.update s.delivered)
      = history.stateAt apply (s.delivered + 1)
  | _ => True

/-- An update to the point it is made for is seamless. -/
theorem seamless_of_current {s : State σ} {message : Message}
    (h : message = .update → ∀ held ∈ s.held, held.1 = s.delivered) :
    Seamless apply history s message := by
  cases message with
  | update =>
      intro held hheld
      rw [h rfl held hheld]
      rfl
  | copy point => trivial
  | other => trivial

variable {apply history}

/-- One message: a replica that is right stays right exactly on a seamless one. -/
theorem faithful_receive_iff {s : State σ} (h : Faithful apply history s) (message : Message) :
    Faithful apply history (receive apply history s message) ↔
      Seamless apply history s message := by
  cases message with
  | update =>
      unfold Faithful Seamless receive
      cases hheld : s.held with
      | none => simp
      | some held => simp [h held hheld]
  | copy point =>
      refine ⟨fun _ => trivial, fun _ held hheld => ?_⟩
      rw [← Option.some.inj hheld]
  | other => exact ⟨fun _ => trivial, fun _ => h⟩

/-- **A replica is right after every message exactly when every update was seamless.** -/
theorem faithful_iff {steps : List (Machine.Step (State σ) Message Unit)} {s : State σ}
    (h : Machine.Run (step apply history) {} steps s) :
    (∀ r ∈ steps, Faithful apply history r.after) ↔
      ∀ r ∈ steps, Seamless apply history r.before r.input := by
  refine h.forall_iff (P := Faithful apply history) ?_ ?_ ?_
  · intro held hheld
    simp at hheld
  · intro _ s message _ s' _ hs hright
    obtain ⟨rfl, -⟩ := Prod.mk.inj hs
    exact faithful_receive_iff hright message
  · intro _ _ _ _ _ _ hright
    exact hright

end Replica
