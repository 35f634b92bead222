/-
What the inspection of a session's recording says of the session.
-/
import GhostAmm.Proofs.Watchdog

namespace GhostAmm

open Py (Json Texts)

variable {rt : Runtime} {texts : Texts} {toJson : RecordedLine → String}
  {settings : RecorderSettings}

/-- Whether the exchange has the pair's status. -/
def MetadataFetch.hasStatus (pair : String) : MetadataFetch → Bool
  | .failed _ => false
  | .lists _ statuses => statuses.any fun status => decide (status.pair = pair)

/-! ### The counters of an inspection -/

namespace Inspector

end Inspector

namespace Recorder

variable {self self' : Recorder} {action : RecorderAction} {lines : List RecordedLine}
  {steps : List (Machine.Step Recorder RecorderAction (List RecordedLine))} {s : Recorder}

/-- Whether a step is a heartbeat of the connection. -/
def connects (r : Machine.Step Recorder RecorderAction (List RecordedLine)) : Bool :=
  match r.input with
  | .joined _ | .disconnect _ => true
  | _ => false

end Recorder

end GhostAmm
