/-
The gate on public data (`public-data-gate` of `cli.py`).

`_run_public_data_gate` inspects a recording, replays it under every config into a directory of
its own, asks the quality gate about the summaries on disk, and replays the parts of the
recording.  A stage that fails ends the command with a payload of its own: here it is an exception
that `runPublicDataGate` turns back into a return.

The recording and the configs are only read and do not lie under `out`; what `load_config` and the
constructor of the pipeline make of a path is `loadConfig`.  A file is what it decodes to, and the
renderings in Markdown and `fills.csv` are left out.
-/
import GhostAmm.Model.QualityGate
import GhostAmm.Model.Replay
import GhostAmm.Model.Split

/-- `str(exc)` of what `except ValueError` takes. -/
def Py.Error.asValueError? : Py.Error → Option String
  | .valueError message => some message
  | .statisticsError => some "no median for empty data"
  | _ => none

namespace GhostAmm

open Py (Json Texts)
open Files (Path Store join stem write)

/-- A file of the recording. -/
structure RecordingFile where
  path : Path
  lines : List RecordedLine

/-- The arguments of the command. -/
structure PublicDataGateArgs where
  events : List RecordingFile
  configs : List Path
  out : Path
  diagnosticConfigs : List Path := []
  strict : Bool := true
  replayOrder : Option String := some "arrival_order"
  strictSequence : Option Bool := none
  requireMinDurationBeforeReplay : Bool := false
  splitParts : ℤ := 0
  splitDiagnosticConfigs : Bool := false
  /-- `_quality_gate_thresholds`. -/
  thresholds : QualityGateThresholds := {}

/-- What the command finds around it. -/
structure GateRuntime where
  runtime : Runtime
  texts : Texts
  splitEventId : String → ℕ → ℚ → String
  /-- `none` where there is no file. -/
  loadConfig : Path → Option (Except Py.Error Config)
  preventSleep : Json

/-- What the two kinds of configs are replayed for. -/
inductive GateRole where
  | qualityGate
  | diagnostic

def GateRole.name : GateRole → String
  | .qualityGate => "quality_gate"
  | .diagnostic => "diagnostic"

/-- What the stages and the directories of a role are called by. -/
def GateRole.label : GateRole → String
  | .qualityGate => ""
  | .diagnostic => "diagnostic_"

/-- How the command ends before its end. -/
inductive GateStop where
  | returned (payload : List (String × Json))
  | raised (error : GateError)

/-- An entry of `replay_results`, `diagnostic_replays` or `split_replays`; the last have the source
role, the index and the path of their split. -/
structure GateReplay where
  config : Path
  role : String
  split : Option (String × ℕ × Path) := none
  out : Path
  report : ReplayEngine.Report
  replayOrder : String
  strictSequence : Bool

def GateReplay.summary (replay : GateReplay) : Path := join replay.out "summary.json".toList

def GateReplay.toDict (replay : GateReplay) : List (String × Json) :=
  let count (eventType : String) : ℕ :=
    replay.report.events.countP fun event => decide (event.body.eventType = eventType)
  let ofSplit : List (String × Json) := match replay.split with
    | none => []
    | some (sourceRole, index, path) => [("source_role", .str sourceRole),
        ("split_index", .int index), ("split", .str (pathText path))]
  let ofRun : List (String × Json) :=
    [("out", .str (pathText replay.out)), ("summary", .str (pathText replay.summary)),
     ("events", .int replay.report.events.length),
     ("virtual_orders", .int (count "virtual_order_placed")),
     ("virtual_fills", .int (count "virtual_fill")),
     ("replay_order", .str replay.replayOrder), ("strict_sequence", .bool replay.strictSequence)]
  ("config", .str (pathText replay.config)) :: ("role", .str replay.role) :: (ofSplit ++ ofRun)

/-- `to_dict` of a split recording. -/
def RecordingSplitResult.toDict (result : RecordingSplitResult) (inputs : List Path)
    (outPrefix : Path) : List (String × Json) :=
  [("inputs", .arr (inputs.map fun path => .str (pathText path))),
   ("out_prefix", .str (pathText outPrefix)), ("parts", .int result.parts),
   ("first_ts", .float result.firstTs), ("last_ts", .float result.lastTs),
   ("metadata_events", .int result.metadataEvents),
   ("splits", .arr (result.splits.map fun written =>
     .obj [("index", .int written.split.index), ("path", .str (pathText written.split.path)),
       ("events", .int written.split.events), ("data_events", .int written.split.dataEvents),
       ("start_ts", .float written.split.startTs), ("end_ts", .float written.split.endTs),
       ("duration_hours", .float written.split.durationHours)]))]

namespace PublicDataGate

abbrev Program := Files.Program GateStop Document

/-- A stage that fails. -/
def fail {α : Type} (stage : String) (reason : Json) (more : List (String × Json)) : Program α :=
  throw (.returned ([("ok", .bool false), ("stage", .str stage), ("reason", reason)] ++ more))

/-- An exception that nothing takes. -/
def raise {α : Type} (error : GateError) : Program α := throw (.raised error)

def ofExcept {α : Type} (result : Except GateError α) : Program α :=
  match result with
  | .error e => raise e
  | .ok value => pure value

/-- `except ValueError as exc`. -/
def exceptValueError {α : Type} (result : Except Py.Error α) (failed : String → Program α) :
    Program α :=
  match result with
  | .ok value => pure value
  | .error e => match e.asValueError? with
      | some message => failed message
      | none => raise (.raised e)

/-- `f"{index:02d}_{cfg_path.stem}"`. -/
def numbered (index : ℕ) (config : Path) : Path := Py.zeroPad 2 index ++ '_' :: stem config

section Gate

variable (gate : GateRuntime) (args : PublicDataGateArgs)

def pathJson (path : Path) : Json := .str (pathText path)

def inspectionPath : Path := join args.out "recording_inspection.json".toList

def qualityPath : Path := join args.out "quality_gate.json".toList

def qualityReportPath : Path := join args.out "quality_gate.md".toList

/-- The events of the recording. -/
def recordedEvents : List Event :=
  args.events.flatMap fun file => file.lines.map RecordedLine.event

/-- `_validate_public_data_gate_split_args`. -/
def validateSplitArgs : Option String :=
  if args.splitParts < 0 then some "split_parts_negative"
  else if args.splitParts = 1 then some "split_parts_must_be_zero_or_at_least_2"
  else if args.splitDiagnosticConfigs = true ∧ args.splitParts = 0 then
    some "split_diagnostic_configs_requires_split_parts"
  else none

def inspection : RecordingInspection :=
  inspectRecording (args.events.map RecordingFile.lines) args.strict

/-- What follows the check of the arguments, up to the replays. -/
def inspect : Program Unit := do
  let inspection := inspection args
  write (inspectionPath args) (.json (.obj inspection.toDict))
  let more := [("recording_inspection", pathJson (inspectionPath args)),
    ("prevent_sleep", gate.preventSleep), ("out", pathJson args.out)]
  if !inspection.okForReplay then fail "inspect_recording" (jsonText? inspection.reason) more
  else if args.requireMinDurationBeforeReplay then
    match inspection.durationHours with
    | none => raise (.raised (.typeError
        "'<' not supported between instances of 'NoneType' and 'float'"))
    | some hours =>
        if hours < args.thresholds.minRecordingHours then
          fail "recording_duration" (.str ("recording_duration_below_min:" ++
            floatText gate.texts hours ++ "<" ++
            floatText gate.texts args.thresholds.minRecordingHours)) more
        else return ()
  else return ()

/-- What a replay of some events comes to. -/
def replay (cfg : Config) (events : List Event) : Except Py.Error ReplayEngine.Report :=
  ReplayEngine.runFiles gate.runtime cfg events args.replayOrder args.strictSequence

/-- `engine.last_replay_order`. -/
def lastReplayOrder (cfg : Config) : String := Py.textOr args.replayOrder cfg.replay.order

/-- `engine.last_strict_sequence`. -/
def lastStrictSequence (cfg : Config) : Bool := args.strictSequence.getD cfg.replay.strictSequence

/-- What `write_report` writes into a directory. -/
def writeReport (cfg : Config) (runOut : Path) (report : ReplayEngine.Report) : Program Unit := do
  write (join runOut "events.jsonl".toList) (.events report.events)
  write (join runOut "summary.json".toList) (.json (.obj (summaryData report.summary
    (lastReplayOrder args cfg) (lastStrictSequence args cfg))))

/-- The directory of a replay. -/
def runOut (role : GateRole) (config : Path) (index : ℕ) : Path :=
  join args.out (role.label.toList ++ numbered index config)

/-- One turn of the loops over the configs and over the diagnostic configs. -/
def replayConfig (role : GateRole) (entry : Path × ℕ) : Program GateReplay := do
  let (config, index) := entry
  let runOut := runOut args role config index
  match gate.loadConfig config with
  | none =>
      fail (role.label ++ "config") (.str "config_not_found")
        [("path", pathJson config), ("recording_inspection", pathJson (inspectionPath args)),
         ("prevent_sleep", gate.preventSleep), ("out", pathJson args.out)]
  | some loaded =>
      let cfg ← ofExcept (loaded.mapError GateError.raised)
      let report ← exceptValueError (replay gate args cfg (recordedEvents args)) fun message =>
        fail (role.label ++ "replay") (.str message)
          [("config", pathJson config), ("out", pathJson runOut),
           ("recording_inspection", pathJson (inspectionPath args)),
           ("prevent_sleep", gate.preventSleep)]
      writeReport args cfg runOut report
      return { config := config, role := role.name, out := runOut, report := report,
               replayOrder := lastReplayOrder args cfg,
               strictSequence := lastStrictSequence args cfg }

/-- `out / "recording_splits" / "recording_split"`. -/
def splitPrefix : Path :=
  join (join args.out "recording_splits".toList) "recording_split".toList

/-- The file of a split. -/
def writeSplit (written : WrittenSplit) : Program Unit :=
  write written.split.path (.events written.file)

/-- `split_configs`. -/
def splitConfigs : List (GateRole × Path × ℕ) :=
  (args.configs.zipIdx 1).map (fun entry => (.qualityGate, entry)) ++
    if args.splitDiagnosticConfigs then
      (args.diagnosticConfigs.zipIdx 1).map fun entry => (.diagnostic, entry)
    else []

/-- `role_prefix`. -/
def rolePrefix (role : GateRole) : Path :=
  if args.splitDiagnosticConfigs then role.name.toList ++ ['_'] else []

/-- The directory of the replay of a split. -/
def splitRunOut (split : ℕ) (role : GateRole) (config : Path) (index : ℕ) : Path :=
  join args.out ("split_".toList ++ Py.zeroPad 2 split ++ '_' ::
    (rolePrefix args role ++ numbered index config))

/-- `read_jsonl` of a split. -/
def readEvents (path : Path) : Program (List Event) := do
  match (← get).read? path with
  | some (.events events) => return events
  | some (.json _) => raise (.jsonDecodeError path)
  | none => raise (.fileNotFoundError path)

/-- One turn of the loops over the splits and their configs; `failed` is what the payload of a
replay that fails has from the stages before. -/
def replaySplit (failed : List (String × Json))
    (entry : RecordingSplit × GateRole × Path × ℕ) : Program GateReplay := do
  let (split, role, config, index) := entry
  let runOut := splitRunOut args split.index role config index
  match gate.loadConfig config with
  | none => raise (.fileNotFoundError config)
  | some loaded =>
      let cfg ← ofExcept (loaded.mapError GateError.raised)
      let events ← readEvents split.path
      -- the dictionary has "out" twice, and the last one counts
      let report ← exceptValueError (replay gate args cfg events) fun message =>
        fail "split_replay" (.str message)
          ([("config", pathJson config), ("source_role", .str role.name),
            ("split", pathJson split.path), ("out", pathJson args.out)] ++ failed)
      writeReport args cfg runOut report
      return { config := config, role := "split_sanity",
               split := some (role.name, split.index, split.path), out := runOut,
               report := report, replayOrder := lastReplayOrder args cfg,
               strictSequence := lastStrictSequence args cfg }

/-- The quality gate on the summaries that are on disk. -/
def evaluateQuality (summaryPaths : List Path) : Program QualityGateResult := do
  let quality ← ofExcept (evaluateQualityGate gate.texts args.thresholds (← get) summaryPaths
    (some (inspectionPath args)))
  write (qualityPath args) (.json (.obj quality.toDict))
  return quality

/-- The splits and their replays, when there are to be any. -/
def splitRecording (replays diagnosticReplays : List GateReplay) (quality : QualityGateResult) :
    Program (Json × List GateReplay) := do
  if args.splitParts = 0 then return (.null, [])
  else
    let inspected : List (String × Json) :=
      [("recording_inspection", pathJson (inspectionPath args)),
       ("quality_gate", pathJson (qualityPath args)),
       ("quality_gate_report", pathJson (qualityReportPath args)),
       ("replays", .arr (replays.map fun replay => .obj replay.toDict)),
       ("diagnostic_replays", .arr (diagnosticReplays.map fun replay => .obj replay.toDict))]
    let failures : List (String × Json) :=
      [("quality_failures", .arr (quality.failures.map Json.str)),
       ("prevent_sleep", gate.preventSleep)]
    let recording := args.events.map fun file =>
      file.lines.map fun line => ({ event := line.event } : Recorded)
    let (written, result) := splitRecordingFiles gate.splitEventId recording (splitPrefix args)
      args.splitParts defaultMetadataEventTypes
    let _ ← written.mapM writeSplit
    let result ← exceptValueError result fun message =>
      fail "split_recording" (.str message)
        (inspected ++ failures ++ [("out", pathJson args.out)])
    let recordingSplits := Json.obj
      (result.toDict (args.events.map RecordingFile.path) (splitPrefix args))
    let entries := result.splits.flatMap fun written =>
      (splitConfigs args).map fun entry => (written.split, entry)
    let splitReplays ← entries.mapM (replaySplit gate args
      (inspected ++ [("recording_splits", recordingSplits)] ++ failures))
    return (recordingSplits, splitReplays)

/-- `_run_public_data_gate` up to its payload, and whether that is one of a gate that passed. -/
def stages : Program (Bool × List (String × Json)) := do
  match validateSplitArgs args with
  | some reason =>
      fail "split_args" (.str reason)
        [("prevent_sleep", gate.preventSleep), ("out", pathJson args.out)]
  | none =>
      inspect gate args
      let replays ← (args.configs.zipIdx 1).mapM (replayConfig gate args .qualityGate)
      let diagnosticReplays ←
        (args.diagnosticConfigs.zipIdx 1).mapM (replayConfig gate args .diagnostic)
      let quality ← evaluateQuality gate args (replays.map GateReplay.summary)
      let (recordingSplits, splitReplays) ←
        splitRecording gate args replays diagnosticReplays quality
      return (quality.ok,
        [("ok", .bool quality.ok),
         ("recording_inspection", pathJson (inspectionPath args)),
         ("quality_gate", pathJson (qualityPath args)),
         ("quality_gate_report", pathJson (qualityReportPath args)),
         ("replays", .arr (replays.map fun replay => .obj replay.toDict)),
         ("diagnostic_replays", .arr (diagnosticReplays.map fun replay => .obj replay.toDict)),
         ("recording_splits", recordingSplits),
         ("split_replays", .arr (splitReplays.map fun replay => .obj replay.toDict)),
         ("quality_failures", .arr (quality.failures.map Json.str)),
         ("prevent_sleep", gate.preventSleep), ("out", pathJson args.out)])

/-- `_write_public_data_gate_output`. -/
def writeOutput (payload : List (String × Json)) :
    Files.Program GateError Document (List (String × Json)) := do
  let payload := payload ++
    [("public_data_gate_report", pathJson (join args.out "public_data_gate.md".toList))]
  write (join args.out "public_data_gate.json".toList) (.json (.obj payload))
  return payload

end Gate

end PublicDataGate

open PublicDataGate in
/-- `_run_public_data_gate`: the exit code and the payload. -/
def runPublicDataGate (gate : GateRuntime) (args : PublicDataGateArgs) :
    Files.Program GateError Document (ℕ × List (String × Json)) := fun store =>
  match (stages gate args).run store with
  | .ok (ok, payload) after => (do return (if ok then 0 else 1, ← writeOutput args payload)) after
  | .error (.returned payload) after => (do return (1, ← writeOutput args payload)) after
  | .error (.raised e) after => .error e after

end GhostAmm
