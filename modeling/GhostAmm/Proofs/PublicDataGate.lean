/-
When the gate on public data passes.

The gate reads summaries and splits from disk, but only such as it has written before, and none of
them is written over in between (`Stage`).  So what it comes to does not depend on what is on disk
when it starts, and its verdict is one on the replays themselves (`public_data_gate_passes_iff`).
A file is left alone or given the content of its place (`public_data_gate_files`).
-/
import GhostAmm.Proofs.GateFiles
import GhostAmm.Proofs.Jsonl

namespace GhostAmm

open Py (Json Texts)
open Files (Path Store Writes join)

/-! ### The quality gate -/

/-- A summary that fails on none of the thresholds. -/
structure QualityGateThresholds.Met (thresholds : QualityGateThresholds)
    (summary : MetricsSummary) : Prop where
  fills : thresholds.minFills ≤ summary.virtualFills
  fillRate : thresholds.minFillRate ≤ summary.fillRate
  alpha : thresholds.minStrategyAlphaPnl < summary.strategyAlphaPnl
  orders : summary.ordersPerMinute ≤ thresholds.maxOrdersPerMinute
  cancels : summary.cancelsPerMinute ≤ thresholds.maxCancelsPerMinute

instance (thresholds : QualityGateThresholds) (summary : MetricsSummary) :
    Decidable (thresholds.Met summary) :=
  decidable_of_iff (thresholds.minFills ≤ summary.virtualFills ∧
    thresholds.minFillRate ≤ summary.fillRate ∧
    thresholds.minStrategyAlphaPnl < summary.strategyAlphaPnl ∧
    summary.ordersPerMinute ≤ thresholds.maxOrdersPerMinute ∧
    summary.cancelsPerMinute ≤ thresholds.maxCancelsPerMinute)
    ⟨fun ⟨fills, fillRate, alpha, orders, cancels⟩ => ⟨fills, fillRate, alpha, orders, cancels⟩,
      fun h => ⟨h.fills, h.fillRate, h.alpha, h.orders, h.cancels⟩⟩

section QualityGate

open PublicDataGate (summaryReportOf)

variable {texts : Texts} {thresholds : QualityGateThresholds}

theorem trunc_natCast (n : ℕ) : Py.trunc ((n : ℤ) : ℚ) = n := by simp [Py.trunc]

theorem requiredFloat_float {data : List (String × Json)} {key : String} {value : ℚ}
    (h : Json.get data key = .float value) : requiredFloat texts data key = .ok value := by
  unfold requiredFloat
  rw [h]
  rfl

theorem requiredFloat_int {data : List (String × Json)} {key : String} {value : ℤ}
    (h : Json.get data key = .int value) : requiredFloat texts data key = .ok value := by
  unfold requiredFloat
  rw [h]
  rfl

/-- A summary on disk is read as it was written. -/
theorem summaryReport_of_read {store : Store Document} {path : Path} {summary : MetricsSummary}
    {replayOrder : String} {strictSequence : Bool}
    (h : store.read? path
      = some (.json (.obj (summaryData summary replayOrder strictSequence)))) :
    summaryReport texts store path = .ok (summaryReportOf path summary) := by
  unfold summaryReport readJson
  rw [h]
  simp only [bind, Except.bind]
  rw [requiredFloat_float rfl, requiredFloat_int rfl, requiredFloat_int rfl,
    requiredFloat_float rfl, requiredFloat_float rfl, requiredFloat_float rfl,
    requiredFloat_float rfl]
  simp only [trunc_natCast]
  rfl

theorem reportFailures_eq_nil_iff {path : Path} {summary : MetricsSummary} :
    reportFailures texts thresholds (summaryReportOf path summary) = [] ↔
      thresholds.Met summary := by
  unfold reportFailures summaryReportOf
  simp only [List.append_eq_nil_iff, ite_eq_right_iff, List.cons_ne_nil, imp_false, not_lt, not_le]
  constructor
  · rintro ⟨⟨⟨⟨hfills, hfillRate⟩, halpha⟩, horders⟩, hcancels⟩
    exact ⟨hfills, hfillRate, halpha, horders, hcancels⟩
  · rintro ⟨hfills, hfillRate, halpha, horders, hcancels⟩
    exact ⟨⟨⟨⟨hfills, hfillRate⟩, halpha⟩, horders⟩, hcancels⟩

/-- The inspection on disk fails on nothing exactly when it is good for a replay and long enough. -/
theorem recordingFailures_eq_nil_iff {inspection : RecordingInspection} :
    recordingFailures texts thresholds inspection.toDict = [] ↔
      inspection.okForReplay = true ∧ ∃ hours, inspection.durationHours = some hours ∧
        thresholds.minRecordingHours ≤ hours := by
  have hok : Json.get inspection.toDict "ok_for_replay" = .bool inspection.okForReplay := rfl
  have hhours : Json.get inspection.toDict "duration_hours"
      = jsonNumber? inspection.durationHours := rfl
  unfold recordingFailures toFloat?
  rw [hok, hhours, seriesValue_number, List.append_eq_nil_iff]
  show ((if inspection.okForReplay = true then _ else _) = _ ∧ _) ↔ _
  refine and_congr ?_ ?_
  · cases inspection.okForReplay <;> simp
  · cases inspection.durationHours <;> simp

end QualityGate

namespace PublicDataGate

open Files (Stage AllPlaced Has)

variable {gate : GateRuntime} {args : PublicDataGateArgs} {before : List (Path × Document)}

theorem onePlace : Files.OnePlace (Placed gate args) := fun _ _ _ h h' => h.unique h'

theorem stage_exceptValueError {α : Type} {result : Except Py.Error α}
    {failed : String → Program α} (hfailed : ∀ message, ∃ stop, failed message = throw stop) :
    Stage (Placed gate args) before (exceptValueError result failed) (∃ a, result = .ok a)
      fun a _ => result = .ok a := by
  cases result with
  | ok a => exact Stage.of_iff (Stage.pure rfl) (by simp)
  | error e =>
      have hraised : ∃ stop, exceptValueError (.error e) failed = throw stop := by
        cases hvalue : e.asValueError? with
        | none => exact ⟨.raised (.raised e), by simp [exceptValueError, raise, hvalue]⟩
        | some message =>
            obtain ⟨stop, hstop⟩ := hfailed message
            exact ⟨stop, by simp [exceptValueError, hvalue, hstop]⟩
      obtain ⟨stop, hstop⟩ := hraised
      rw [hstop]
      exact Stage.of_iff (Stage.throw stop) (by simp)

theorem stage_loaded {loaded : Except Py.Error Config} :
    Stage (Placed gate args) before (ofExcept (loaded.mapError GateError.raised))
      (∃ cfg, loaded = .ok cfg) fun cfg _ => loaded = .ok cfg := by
  cases loaded with
  | ok cfg => exact Stage.of_iff (Stage.pure rfl) (by simp)
  | error e => exact Stage.of_iff (Stage.throw (GateStop.raised (.raised e))) (by simp)

/-! ### The inspection -/

/-- The recording is good enough to be replayed. -/
def Inspected (args : PublicDataGateArgs) : Prop :=
  (inspection args).okForReplay = true ∧ (args.requireMinDurationBeforeReplay = true →
    ∃ hours, (inspection args).durationHours = some hours ∧
      args.thresholds.minRecordingHours ≤ hours)

/-- The inspection, on disk. -/
def inspectionFile (args : PublicDataGateArgs) : Path × Document :=
  (inspectionPath args, .json (.obj (inspection args).toDict))

theorem stage_inspect (hbefore : AllPlaced (Placed gate args) before) :
    Stage (Placed gate args) before (inspect gate args) (Inspected args)
      fun _ after => inspectionFile args ∈ after := by
  have hplaced : Placed gate args (inspectionPath args)
      (.json (.obj (inspection args).toDict)) := ⟨_, _, .inspection, rfl⟩
  have hwrite : Stage (Placed gate args) before
      (Files.write (inspectionPath args) (.json (.obj (inspection args).toDict)) : Program Unit)
      True fun _ after => inspectionFile args ∈ after :=
    Stage.write hplaced (List.mem_append_right _ (List.mem_singleton.mpr rfl))
  unfold inspect
  dsimp only
  refine Stage.of_iff (hwrite.bind onePlace hbefore fun _ after hafter hsub hmem => ?_)
    (Iff.of_eq (true_and _))
  unfold Inspected
  split
  · rename_i hok
    exact Stage.of_iff (Stage.throw _) (by simp at hok; simp [hok])
  · rename_i hok
    have hok : (inspection args).okForReplay = true := by simpa using hok
    split
    · rename_i hrequire
      cases hhours : (inspection args).durationHours with
      | none => exact Stage.of_iff (Stage.throw _) (by simp [hrequire])
      | some hours =>
          dsimp only
          split
          · rename_i hlt
            exact Stage.of_iff (Stage.throw _) (by simp [hrequire, hlt])
          · rename_i hle
            exact Stage.of_iff (Stage.pure hmem) (by simp [hok, not_lt.mp hle])
    · rename_i hrequire
      exact Stage.of_iff (Stage.pure hmem) (by simp [hok, hrequire])

/-! ### A replay -/

theorem mem_filesIn {dir : Path} {cfg : Config} {report : ReplayEngine.Report}
    {w : Path × Document} (h : w ∈ filesIn args dir cfg report) :
    ∃ file content, (file, content) ∈ reportFiles args cfg report ∧ w = (join dir file, content) := by
  obtain ⟨⟨file, content⟩, hmem, rfl⟩ := List.mem_map.mp h
  exact ⟨file, content, hmem, rfl⟩

theorem stage_writeReport {cfg : Config} {dir : Path} {report : ReplayEngine.Report}
    (hbefore : AllPlaced (Placed gate args) before)
    (hplaced : AllPlaced (Placed gate args) (filesIn args dir cfg report)) :
    Stage (Placed gate args) before (writeReport args cfg dir report) True
      fun _ after => filesIn args dir cfg report ⊆ after := by
  obtain ⟨hevents, hsummary⟩ := List.forall_mem_cons.mp hplaced
  have hwrite : Stage (Placed gate args) before
      (Files.write (join dir "events.jsonl".toList) (.events report.events) : Program Unit) True
      fun _ after => (join dir "events.jsonl".toList, Document.events report.events) ∈ after :=
    Stage.write hevents (List.mem_append_right _ (List.mem_singleton.mpr rfl))
  refine Stage.of_iff (hwrite.bind onePlace hbefore fun _ after _ _ hmem =>
    Stage.write (hsummary _ (List.mem_singleton.mpr rfl)) ?_) (Iff.of_eq (and_true _))
  intro w hw
  rcases List.mem_cons.mp hw with rfl | hw
  · exact List.mem_append_left _ hmem
  · exact List.mem_append_right _ hw

/-- The files of a replay are written, if it is not refused. -/
def Written (gate : GateRuntime) (args : PublicDataGateArgs) (config : Path)
    (events : List Event) (dir : Path) (after : List (Path × Document)) : Prop :=
  ∀ cfg report, Replays gate args config events cfg report →
    filesIn args dir cfg report ⊆ after

section Turns

variable {config dir : Path} {events : List Event} {cfg : Config}

theorem Written.later {after later : List (Path × Document)}
    (h : Written gate args config events dir after) (hsub : after ⊆ later) :
    Written gate args config events dir later :=
  fun cfg report hreplays => List.Subset.trans (h cfg report hreplays) hsub

/-- A turn begins with the config. -/
theorem stage_config {α : Type} {missing : Program α} {next : Config → Program α}
    {post : α → List (Path × Document) → Prop} (hmissing : ∃ stop, missing = throw stop)
    (hbefore : AllPlaced (Placed gate args) before)
    (hnext : ∀ cfg, gate.loadConfig config = some (.ok cfg) → ∀ after,
      AllPlaced (Placed gate args) after → before ⊆ after → Stage (Placed gate args) after
        (next cfg) (∃ cfg report, Replays gate args config events cfg report) post) :
    Stage (Placed gate args) before
      (match gate.loadConfig config with
        | none => missing
        | some loaded => do
            let cfg ← ofExcept (loaded.mapError GateError.raised)
            next cfg)
      (∃ cfg report, Replays gate args config events cfg report) post := by
  cases hload : gate.loadConfig config with
  | none =>
      obtain ⟨stop, rfl⟩ := hmissing
      refine Stage.of_iff (Stage.throw _) (iff_of_false id ?_)
      rintro ⟨cfg, report, h⟩
      have hloaded := h.loaded
      simp [hload] at hloaded
  | some loaded =>
      refine Stage.of_iff (Stage.bind stage_loaded onePlace hbefore
        fun cfg after hafter hsub hcfg => hnext cfg (by rw [hload, hcfg]) after hafter hsub)
        (and_iff_right_of_imp ?_)
      rintro ⟨cfg, report, h⟩
      exact ⟨cfg, Option.some.inj (hload.symm.trans h.loaded)⟩

/-- A turn comes to what is made of the report of its replay, whose files are then on disk. -/
theorem stage_replay {failed : String → Program ReplayEngine.Report}
    (hfailed : ∀ message, ∃ stop, failed message = throw stop)
    (result : ReplayEngine.Report → GateReplay) (hload : gate.loadConfig config = some (.ok cfg))
    (hbefore : AllPlaced (Placed gate args) before)
    (hplaced : ∀ report, Replays gate args config events cfg report →
      AllPlaced (Placed gate args) (filesIn args dir cfg report)) :
    Stage (Placed gate args) before
      (do
        let report ← exceptValueError (replay gate args cfg events) failed
        writeReport args cfg dir report
        return result report)
      (∃ cfg report, Replays gate args config events cfg report)
      fun replayed after => ∃ report, Replays gate args config events cfg report ∧
        replayed = result report ∧ filesIn args dir cfg report ⊆ after ∧
          Written gate args config events dir after := by
  have hgood : (∃ report, replay gate args cfg events = .ok report) ↔
      ∃ cfg report, Replays gate args config events cfg report := by
    constructor
    · rintro ⟨report, hreport⟩
      exact ⟨cfg, report, hload, hreport⟩
    · rintro ⟨cfg', report, h⟩
      obtain rfl := Except.ok.inj (Option.some.inj (hload.symm.trans h.loaded))
      exact ⟨report, h.replayed⟩
  refine Stage.of_iff (Stage.bind (stage_exceptValueError hfailed) onePlace hbefore
    fun report after hafter _ hreport => Stage.of_iff (Stage.bind
      (stage_writeReport hafter (hplaced report ⟨hload, hreport⟩)) onePlace hafter
      fun _ later _ _ hfiles => Stage.pure ⟨report, ⟨hload, hreport⟩, rfl, hfiles, ?_⟩)
      (Iff.of_eq (and_true _))) ((Iff.of_eq (and_true _)).trans hgood)
  intro cfg' report' h
  obtain ⟨rfl, rfl⟩ := h.unique ⟨hload, hreport⟩
  exact hfiles

end Turns

/-- The summary of a replay, on disk. -/
def summaryFile (replayed : GateReplay) : Path × Document :=
  (replayed.summary, .json (.obj (summaryData replayed.report.summary replayed.replayOrder
    replayed.strictSequence)))

section Replays

theorem placed_filesIn {role : GateRole} {entry : Path × ℕ} {cfg : Config}
    {report : ReplayEngine.Report} (hentry : entry ∈ (configsOf args role).zipIdx 1)
    (h : Replays gate args entry.1 (recordedEvents args) cfg report) :
    AllPlaced (Placed gate args)
      (filesIn args (runOut args role entry.1 entry.2) cfg report) := by
  intro w hw
  obtain ⟨file, content, hfile, rfl⟩ := mem_filesIn hw
  exact ⟨_, file, .report hentry h hfile,
    (if_neg (isName_runName role entry.1 entry.2).ne_nil).symm⟩

theorem exists_replays_iff {role : GateRole} {entry : Path × ℕ} :
    (∃ cfg report, Replays gate args entry.1 (recordedEvents args) cfg report) ↔
      ∃ replayed, ReplaysTo gate args role entry replayed := by
  constructor
  · rintro ⟨cfg, report, h⟩
    exact ⟨_, cfg, report, h, rfl⟩
  · rintro ⟨_, cfg, report, h, -⟩
    exact ⟨cfg, report, h⟩

/-- A turn of the loops over the configs. -/
theorem stage_replayConfig {role : GateRole} {entry : Path × ℕ}
    (hbefore : AllPlaced (Placed gate args) before)
    (hentry : entry ∈ (configsOf args role).zipIdx 1) :
    Stage (Placed gate args) before (replayConfig gate args role entry)
      (∃ replayed, ReplaysTo gate args role entry replayed)
      fun replayed after => ReplaysTo gate args role entry replayed ∧
        summaryFile replayed ∈ after ∧ Written gate args entry.1 (recordedEvents args)
          (runOut args role entry.1 entry.2) after := by
  obtain ⟨config, index⟩ := entry
  unfold replayConfig
  dsimp only
  refine Stage.of_iff (stage_config ⟨_, rfl⟩ hbefore fun cfg hload after hafter _ => ?_)
    (@exists_replays_iff gate args role (config, index))
  refine Stage.imp (stage_replay ?_ (replayEntry args role (config, index) cfg) hload hafter
    fun report h => @placed_filesIn gate args role (config, index) cfg report hentry h) ?_
  · exact fun message => ⟨_, rfl⟩
  · rintro _ later ⟨report, h, rfl, hfiles, hwritten⟩
    refine ⟨⟨cfg, report, h, rfl⟩, hfiles ?_, hwritten⟩
    exact List.mem_cons_of_mem _ (List.mem_singleton.mpr rfl)

theorem forall_mem_of_forall₂ {α β : Type} {R : α → β → Prop} {p : β → Prop} {l : List α}
    {l' : List β} (h : List.Forall₂ (fun a b => R a b ∧ p b) l l') : ∀ b ∈ l', p b := by
  induction h with
  | nil => simp
  | cons hab _ ih => exact List.forall_mem_cons.mpr ⟨hab.2, ih⟩

/-- The loop over the configs of a role. -/
theorem stage_replays (role : GateRole) (hbefore : AllPlaced (Placed gate args) before) :
    Stage (Placed gate args) before
      (((configsOf args role).zipIdx 1).mapM (replayConfig gate args role))
      (∀ entry ∈ (configsOf args role).zipIdx 1,
        ∃ replayed, ReplaysTo gate args role entry replayed)
      fun replays after =>
        List.Forall₂ (ReplaysTo gate args role) ((configsOf args role).zipIdx 1) replays ∧
          (∀ replayed ∈ replays, summaryFile replayed ∈ after) ∧
          ∀ entry ∈ (configsOf args role).zipIdx 1, Written gate args entry.1
            (recordedEvents args) (runOut args role entry.1 entry.2) after := by
  have hloop := @Stage.mapM _ _ _ _ _ (replayConfig gate args role)
    (fun entry => ∃ replayed, ReplaysTo gate args role entry replayed)
    (fun entry replayed after => ReplaysTo gate args role entry replayed ∧
      summaryFile replayed ∈ after ∧ Written gate args entry.1 (recordedEvents args)
        (runOut args role entry.1 entry.2) after) onePlace
    (fun _ _ _ _ h hsub => ⟨h.1, hsub h.2.1, h.2.2.later hsub⟩)
    ((configsOf args role).zipIdx 1) before hbefore
    fun _ hentry _ hafter _ => stage_replayConfig hafter hentry
  refine hloop.imp fun replays after h => ⟨h.imp fun _ _ h => h.1,
    forall_mem_of_forall₂ (h.imp fun _ _ h => ⟨h.1, h.2.1⟩), ?_⟩
  exact ((List.forall₂_and_left _ _).mp (h.imp fun _ _ h => ⟨h.2.2, h.1⟩)).1

theorem met_iff {role : GateRole} {entries : List (Path × ℕ)} {replays : List GateReplay}
    (h : List.Forall₂ (ReplaysTo gate args role) entries replays) :
    (∀ replayed ∈ replays, args.thresholds.Met replayed.report.summary) ↔
      ∀ entry ∈ entries, ∃ cfg report,
        Replays gate args entry.1 (recordedEvents args) cfg report ∧
          args.thresholds.Met report.summary := by
  induction h with
  | nil => simp
  | cons hfirst _ ih =>
      rw [List.forall_mem_cons, List.forall_mem_cons, ih]
      refine and_congr_left' ?_
      obtain ⟨cfg, report, hreplays, rfl⟩ := hfirst
      constructor
      · exact fun hmet => ⟨cfg, report, hreplays, hmet⟩
      · rintro ⟨cfg', report', hreplays', hmet⟩
        obtain ⟨rfl, rfl⟩ := hreplays.unique hreplays'
        exact hmet

end Replays

/-! ### The verdict -/

section Verdict

variable {replays : List GateReplay}

/-- The quality gate finds on disk what it is to judge. -/
theorem evaluateQualityGate_of_has {store : Store Document} (h : Has before store)
    (hinspection : inspectionFile args ∈ before)
    (hsummaries : ∀ replayed ∈ replays, summaryFile replayed ∈ before) :
    evaluateQualityGate gate.texts args.thresholds store (replays.map GateReplay.summary)
      (some (inspectionPath args)) = .ok (judge gate args replays) := by
  have hreports := mapM_ok fun replayed hmem =>
    @summaryReport_of_read gate.texts store (GateReplay.summary replayed) replayed.report.summary
      replayed.replayOrder replayed.strictSequence (h _ (hsummaries replayed hmem))
  have hread : (some (inspectionPath args)).mapM (readJson store)
      = .ok (some (inspection args).toDict) := by
    show (some <$> readJson store (inspectionPath args)) = _
    have hfile : store.read? (inspectionPath args) = _ := h _ hinspection
    unfold readJson
    rw [hfile]
    rfl
  unfold evaluateQualityGate
  rw [hreports]
  simp only [bind, Except.bind]
  rw [hread]
  rfl

theorem stage_evaluateQuality
    (hreplays : List.Forall₂ (ReplaysTo gate args .qualityGate) (args.configs.zipIdx 1) replays)
    (hinspection : inspectionFile args ∈ before)
    (hsummaries : ∀ replayed ∈ replays, summaryFile replayed ∈ before) :
    Stage (Placed gate args) before (evaluateQuality gate args (replays.map GateReplay.summary))
      True fun quality after => quality = judge gate args replays ∧
        (qualityPath args, Document.json (.obj (judge gate args replays).toDict)) ∈ after := by
  refine ⟨.ok (judge gate args replays),
    [(qualityPath args, .json (.obj (judge gate args replays).toDict))], fun store hstore => ?_,
    List.forall_mem_singleton.mpr ⟨_, _, .quality hreplays, rfl⟩, by simp, ?_⟩
  · show ((ofExcept (evaluateQualityGate gate.texts args.thresholds store
      (replays.map GateReplay.summary) (some (inspectionPath args))) >>= _) : Program _).run store
      = _
    rw [evaluateQualityGate_of_has hstore hinspection hsummaries]
    rfl
  · rintro _ ⟨⟩
    exact ⟨rfl, List.mem_append_right _ (List.mem_singleton.mpr rfl)⟩

theorem judge_ok_iff : (judge gate args replays).ok = true ↔
    args.thresholds.minReportCount ≤ replays.length ∧
      ((inspection args).okForReplay = true ∧ ∃ hours, (inspection args).durationHours = some hours ∧
        args.thresholds.minRecordingHours ≤ hours) ∧
      ∀ replayed ∈ replays, args.thresholds.Met replayed.report.summary := by
  unfold judge
  dsimp only
  rw [List.isEmpty_iff, List.append_eq_nil_iff, List.append_eq_nil_iff,
    recordingFailures_eq_nil_iff, List.flatMap_eq_nil_iff, List.forall_mem_map, and_assoc]
  refine and_congr ?_ (and_congr_right' ?_)
  · simp
  · exact forall₂_congr fun _ _ => reportFailures_eq_nil_iff

end Verdict

/-! ### The splits -/

section Splits

/-- The recording can be split, and a replay of each split is not refused. -/
def SplitsReplay (gate : GateRuntime) (args : PublicDataGateArgs) : Prop :=
  ∃ result, (splitFiles gate args).2 = .ok result ∧
    ∀ written ∈ result.splits, ∀ entry ∈ splitConfigs args,
      ∃ cfg report, Replays gate args entry.2.1 written.file cfg report

/-- A split, on disk. -/
def splitFile (written : WrittenSplit) : Path × Document :=
  (written.split.path, .events written.file)

/-- The place of a split. -/
theorem path_split {written : WrittenSplit} (h : written ∈ (splitFiles gate args).1) :
    ∃ index, written.split.index = index + 1 ∧
      written.split.path = place args splitsName (splitPath "recording_split".toList index) := by
  obtain ⟨part, hpart, hmem⟩ := splitFiles_part gate args
  obtain ⟨index, hindex⟩ := hmem written h
  obtain ⟨hnumber, hpath⟩ := hpart index written hindex
  refine ⟨index, hnumber, ?_⟩
  rw [hpath]
  show splitPath (splitPrefix args) index = join (join args.out splitsName) _
  unfold splitPath splitPrefix join
  simp only [List.append_assoc]
  rfl

theorem placed_split {written : WrittenSplit} (h : written ∈ (splitFiles gate args).1) :
    Placed gate args written.split.path (.events written.file) := by
  obtain ⟨index, hnumber, hpath⟩ := path_split h
  exact ⟨splitsName, _, .split h hnumber, hpath⟩

theorem stage_writeSplits {written : List WrittenSplit}
    (hwritten : ∀ w ∈ written, w ∈ (splitFiles gate args).1)
    (hbefore : AllPlaced (Placed gate args) before) :
    Stage (Placed gate args) before (written.mapM writeSplit) True
      fun _ after => ∀ w ∈ written, splitFile w ∈ after := by
  have hloop := @Stage.mapM _ _ _ _ _ writeSplit (fun _ => True)
    (fun w (_ : Unit) after => splitFile w ∈ after) onePlace (fun _ _ _ _ h hsub => hsub h)
    written before hbefore fun w hw after _ _ =>
      Stage.write (placed_split (hwritten w hw))
        (List.mem_append_right _ (List.mem_singleton.mpr rfl))
  refine Stage.of_iff (hloop.imp fun results after h => ?_) (by simp)
  exact ((List.forall₂_and_left _ _).mp (h.imp fun _ _ h => ⟨h, trivial⟩ :
    List.Forall₂ (fun w _ => splitFile w ∈ after ∧ True) written results)).1

theorem stage_readEvents {path : Path} {events : List Event}
    (h : (path, Document.events events) ∈ before) :
    Stage (Placed gate args) before (readEvents path) True fun read _ => read = events := by
  refine Stage.read (fun store hstore => ?_) rfl
  have hfile : store.read? path = some (.events events) := hstore _ h
  simp [readEvents, hfile]

theorem placed_splitReport {written : WrittenSplit} {entry : GateRole × Path × ℕ} {cfg : Config}
    {report : ReplayEngine.Report} (hsplit : written ∈ (splitFiles gate args).1)
    (hentry : entry ∈ splitConfigs args)
    (h : Replays gate args entry.2.1 written.file cfg report) :
    AllPlaced (Placed gate args) (filesIn args
      (splitRunOut args written.split.index entry.1 entry.2.1 entry.2.2) cfg report) := by
  intro w hw
  obtain ⟨file, content, hfile, rfl⟩ := mem_filesIn hw
  refine ⟨_, file, .splitReport hsplit hentry h hfile, ?_⟩
  exact (if_neg (isName_splitRunName _ _ _ _).ne_nil).symm

/-- A turn of the loops over the splits and their configs. -/
theorem stage_replaySplit {written : WrittenSplit} {entry : GateRole × Path × ℕ}
    (failed : List (String × Json)) (hbefore : AllPlaced (Placed gate args) before)
    (hsplit : written ∈ (splitFiles gate args).1) (hentry : entry ∈ splitConfigs args)
    (hfile : splitFile written ∈ before) :
    Stage (Placed gate args) before (replaySplit gate args failed (written.split, entry))
      (∃ cfg report, Replays gate args entry.2.1 written.file cfg report)
      fun _ after => Written gate args entry.2.1 written.file
        (splitRunOut args written.split.index entry.1 entry.2.1 entry.2.2) after := by
  obtain ⟨role, config, index⟩ := entry
  unfold replaySplit
  dsimp only
  refine stage_config ⟨_, rfl⟩ hbefore fun cfg hload after hafter hsub => ?_
  refine Stage.of_iff (Stage.bind (stage_readEvents (hsub hfile)) onePlace hafter
    fun events later hlater _ hevents => ?_) (Iff.of_eq (true_and _))
  obtain rfl := hevents
  refine Stage.imp (stage_replay ?_ _ hload hlater fun report h =>
    @placed_splitReport gate args written (role, config, index) cfg report hsplit hentry h) ?_
  · exact fun message => ⟨_, rfl⟩
  · rintro _ _ ⟨report, -, -, -, hwritten⟩
    exact hwritten

theorem stage_splitRecording {replays diagnosticReplays : List GateReplay}
    {quality : QualityGateResult} (hbefore : AllPlaced (Placed gate args) before) :
    Stage (Placed gate args) before
      (splitRecording gate args replays diagnosticReplays quality)
      (args.splitParts ≠ 0 → SplitsReplay gate args)
      fun _ after => ∀ written ∈ (splitFiles gate args).1, splitFile written ∈ after ∧
        ∀ entry ∈ splitConfigs args, Written gate args entry.2.1 written.file
          (splitRunOut args written.split.index entry.1 entry.2.1 entry.2.2) after := by
  unfold splitRecording
  split
  · rename_i hparts
    have hnone : (splitFiles gate args).1 = [] := by
      unfold splitFiles splitRecordingFiles
      rw [if_pos (by omega)]
    exact Stage.of_iff (Stage.pure (by simp [hnone])) (by simp [hparts])
  · rename_i hparts
    dsimp only
    generalize hfiles : splitRecordingFiles gate.splitEventId _ _ _ _ = files
    obtain ⟨written, result⟩ := files
    replace hfiles : splitFiles gate args = (written, result) := hfiles
    dsimp only
    have hwritten : ∀ w ∈ written, w ∈ (splitFiles gate args).1 := by simp [hfiles]
    have hresult : (splitFiles gate args).2 = result := by rw [hfiles]
    have hgood : True ∧ SplitsReplay gate args ↔
        (args.splitParts ≠ 0 → SplitsReplay gate args) := by simp [hparts]
    refine Stage.of_iff (Stage.bind (stage_writeSplits hwritten hbefore) onePlace hbefore
      fun _ after hafter _ hondisk => Stage.of_iff (Stage.bind (stage_exceptValueError ?_)
        onePlace hafter fun value later hlater hsub hvalue => ?_) (and_iff_right_of_imp ?_)) hgood
    · exact fun message => ⟨_, rfl⟩
    · have hsplits : value.splits = written := by
        rw [splits_splitFiles (hresult.trans hvalue), hfiles]
      have hentries : (value.splits.flatMap fun w => (splitConfigs args).map fun entry =>
          (w.split, entry)) = (value.splits.flatMap fun w => (splitConfigs args).map fun entry =>
            (w, entry)).map fun p => (p.1.split, p.2) := by
        simp [List.map_flatMap, Function.comp_def]
      rw [hentries, List.mapM_map]
      have hpairs : ∀ p : WrittenSplit × GateRole × Path × ℕ,
          p ∈ (value.splits.flatMap fun w => (splitConfigs args).map fun entry => (w, entry)) ↔
            p.1 ∈ value.splits ∧ p.2 ∈ splitConfigs args := by
        rintro ⟨w, entry⟩
        simp
      refine Stage.of_iff (Stage.bind (@Stage.mapM _ _ _ _ _ _
        (fun p : WrittenSplit × GateRole × Path × ℕ =>
          ∃ cfg report, Replays gate args p.2.2.1 p.1.file cfg report)
        (fun p _ after => Written gate args p.2.2.1 p.1.file
          (splitRunOut args p.1.split.index p.2.1 p.2.2.1 p.2.2.2) after) onePlace
        (fun _ _ _ _ h hsub => h.later hsub) _ _ hlater
        fun p hp turn hturn hsub' => ?_) onePlace hlater
          fun results last _ hsub' hresults => Stage.pure ?_) ?_
      · obtain ⟨hw, hentry⟩ := (hpairs p).mp hp
        rw [hsplits] at hw
        exact stage_replaySplit _ hturn (hwritten _ hw) hentry (hsub' (hsub (hondisk _ hw)))
      · intro w hw
        rw [hfiles] at hw
        refine ⟨hsub' (hsub (hondisk w hw)), fun entry hentry => ?_⟩
        have hall := ((List.forall₂_and_left _ _).mp (hresults.imp fun _ _ h => ⟨h, trivial⟩ :
          List.Forall₂ (fun p _ => Written gate args p.2.2.1 p.1.file
            (splitRunOut args p.1.split.index p.2.1 p.2.2.1 p.2.2.2) last ∧ True) _ results)).1
        exact hall (w, entry) ((hpairs (w, entry)).mpr ⟨hsplits.symm ▸ hw, hentry⟩)
      · rw [and_true]
        constructor
        · intro h
          exact ⟨value, hresult.trans hvalue, fun w hw entry hentry =>
            h (w, entry) ((hpairs (w, entry)).mpr ⟨hw, hentry⟩)⟩
        · rintro ⟨value', hvalue', h⟩ p hp
          obtain rfl := Except.ok.inj ((hresult.trans hvalue).symm.trans hvalue')
          obtain ⟨hw, hentry⟩ := (hpairs p).mp hp
          exact h p.1 hw p.2 hentry
    · rintro ⟨value, hvalue, -⟩
      exact ⟨value, hresult.symm.trans hvalue⟩

end Splits

/-! ### The whole gate -/

section Gate

/-- Every stage comes to its end. -/
structure Completes (gate : GateRuntime) (args : PublicDataGateArgs) : Prop where
  splitArgs : validateSplitArgs args = none
  inspected : Inspected args
  replays : ∀ role, ∀ entry ∈ (configsOf args role).zipIdx 1,
    ∃ replayed, ReplaysTo gate args role entry replayed
  splits : args.splitParts ≠ 0 → SplitsReplay gate args

/-- The gate passes: the recording and the replays of its configs meet the thresholds, and no
replay is refused, be it of a diagnostic config or of a split. -/
structure Passes (gate : GateRuntime) (args : PublicDataGateArgs) : Prop where
  splitArgs : validateSplitArgs args = none
  okForReplay : (inspection args).okForReplay = true
  hours : ∃ hours, (inspection args).durationHours = some hours ∧
    args.thresholds.minRecordingHours ≤ hours
  count : args.thresholds.minReportCount ≤ args.configs.length
  replays : ∀ config ∈ args.configs, ∃ cfg report,
    Replays gate args config (recordedEvents args) cfg report ∧
      args.thresholds.Met report.summary
  diagnostics : ∀ config ∈ args.diagnosticConfigs, ∃ cfg report,
    Replays gate args config (recordedEvents args) cfg report
  splits : args.splitParts ≠ 0 → SplitsReplay gate args

variable (gate : GateRuntime) (args : PublicDataGateArgs)

theorem forall_mem_zipIdx {α : Type} {p : α → Prop} {l : List α} {n : ℕ} :
    (∀ entry ∈ l.zipIdx n, p entry.1) ↔ ∀ a ∈ l, p a := by
  conv_rhs => rw [← List.zipIdx_map_fst n l]
  rw [List.forall_mem_map]

/-- What has a place is written, kind by kind. -/
theorem placed_subset {after : List (Path × Document)} {replays : List GateReplay}
    (hinspection : inspectionFile args ∈ after)
    (hreplays : List.Forall₂ (ReplaysTo gate args .qualityGate) (args.configs.zipIdx 1) replays)
    (hquality : (qualityPath args, Document.json (.obj (judge gate args replays).toDict)) ∈ after)
    (hreports : ∀ role, ∀ entry ∈ (configsOf args role).zipIdx 1, Written gate args entry.1
      (recordedEvents args) (runOut args role entry.1 entry.2) after)
    (hsplits : ∀ written ∈ (splitFiles gate args).1, splitFile written ∈ after ∧
      ∀ entry ∈ splitConfigs args, Written gate args entry.2.1 written.file
        (splitRunOut args written.split.index entry.1 entry.2.1 entry.2.2) after) :
    ∀ path content, Placed gate args path content → (path, content) ∈ after := by
  rintro _ content ⟨dir, file, hout, rfl⟩
  have hplace : ∀ {name : Path}, Files.IsName name →
      place args name file = join (join args.out name) file := fun hname => if_neg hname.ne_nil
  cases hout with
  | inspection => exact hinspection
  | quality hreplays' =>
      obtain rfl := List.right_unique_forall₂' ReplaysTo.rightUnique hreplays hreplays'
      exact hquality
  | @report role config index cfg report _ _ hentry h hfile =>
      rw [hplace (isName_runName role config index)]
      exact hreports role (config, index) hentry cfg report h
        (List.mem_map.mpr ⟨(file, content), hfile, rfl⟩)
  | @split written index hsplit hindex =>
      obtain ⟨index', hindex', hpath⟩ := path_split hsplit
      obtain rfl : index' = index := by omega
      rw [← hpath]
      exact (hsplits written hsplit).1
  | @splitReport written role config index cfg report _ _ hsplit hentry h hfile =>
      rw [hplace (isName_splitRunName _ _ _ _)]
      exact (hsplits written hsplit).2 (role, config, index) hentry cfg report h
        (List.mem_map.mpr ⟨(file, content), hfile, rfl⟩)

theorem stage_stages : Stage (Placed gate args) [] (stages gate args) (Completes gate args)
    fun verdict after => (∃ replays,
      List.Forall₂ (ReplaysTo gate args .qualityGate) (args.configs.zipIdx 1) replays ∧
        verdict.1 = (judge gate args replays).ok) ∧
      ∀ path content, Placed gate args path content → (path, content) ∈ after := by
  unfold stages
  cases hvalid : validateSplitArgs args with
  | some reason =>
      refine Stage.of_iff (Stage.throw _) (iff_of_false id fun h => ?_)
      have hnone := h.splitArgs
      simp [hvalid] at hnone
  | none =>
      have hnil : AllPlaced (Placed gate args) [] := by simp [AllPlaced]
      have hgood : (Inspected args ∧
          (∀ entry ∈ (configsOf args .qualityGate).zipIdx 1,
            ∃ replayed, ReplaysTo gate args .qualityGate entry replayed) ∧
          (∀ entry ∈ (configsOf args .diagnostic).zipIdx 1,
            ∃ replayed, ReplaysTo gate args .diagnostic entry replayed) ∧ True ∧
          (args.splitParts ≠ 0 → SplitsReplay gate args) ∧ True) ↔ Completes gate args := by
        constructor
        · rintro ⟨hinspected, hquality, hdiagnostic, -, hsplits, -⟩
          refine ⟨hvalid, hinspected, fun role => ?_, hsplits⟩
          cases role with
          | qualityGate => exact hquality
          | diagnostic => exact hdiagnostic
        · intro h
          exact ⟨h.inspected, h.replays .qualityGate, h.replays .diagnostic, trivial, h.splits,
            trivial⟩
      refine Stage.of_iff ((stage_inspect hnil).bind onePlace hnil
        fun _ after₁ h₁ _ hinspection => (stage_replays .qualityGate h₁).bind onePlace h₁
          fun replays after₂ h₂ hsub₂ hreplays => (stage_replays .diagnostic h₂).bind onePlace h₂
            fun diagnostics after₃ h₃ hsub₃ hdiagnostics => ?_) hgood
      refine (stage_evaluateQuality hreplays.1 (hsub₃ (hsub₂ hinspection))
        fun replayed hmem => hsub₃ (hreplays.2.1 replayed hmem)).bind onePlace h₃
          fun quality after₄ h₄ hsub₄ hquality => (stage_splitRecording h₄).bind onePlace h₄
            fun splits after₅ _ hsub₅ hsplits =>
              Stage.pure ⟨⟨replays, hreplays.1, congrArg QualityGateResult.ok hquality.1⟩, ?_⟩
      refine placed_subset gate args (hsub₅ (hsub₄ (hsub₃ (hsub₂ hinspection)))) hreplays.1
        (hsub₅ hquality.2) (fun role entry hentry => ?_) hsplits
      cases role with
      | qualityGate =>
          exact (hreplays.2.2 entry hentry).later
            (List.Subset.trans hsub₃ (List.Subset.trans hsub₄ hsub₅))
      | diagnostic =>
          exact (hdiagnostics.2.2 entry hentry).later (List.Subset.trans hsub₄ hsub₅)

theorem passes_iff {replays : List GateReplay} (hcomplete : Completes gate args)
    (hreplays : List.Forall₂ (ReplaysTo gate args .qualityGate) (args.configs.zipIdx 1) replays) :
    (judge gate args replays).ok = true ↔ Passes gate args := by
  have hlength : replays.length = args.configs.length := by
    rw [← hreplays.length_eq, List.length_zipIdx]
  rw [judge_ok_iff, hlength, met_iff hreplays]
  constructor
  · rintro ⟨hcount, ⟨hok, hhours⟩, hmet⟩
    refine ⟨hcomplete.splitArgs, hok, hhours, hcount, forall_mem_zipIdx.mp hmet, ?_,
      hcomplete.splits⟩
    refine (forall_mem_zipIdx (n := 1)).mp fun entry hentry => ?_
    obtain ⟨_, cfg, report, h, -⟩ := hcomplete.replays .diagnostic entry hentry
    exact ⟨cfg, report, h⟩
  · intro h
    exact ⟨h.count, ⟨h.okForReplay, h.hours⟩, forall_mem_zipIdx.mpr h.replays⟩

theorem Passes.completes {gate : GateRuntime} {args : PublicDataGateArgs}
    (h : Passes gate args) : Completes gate args := by
  refine ⟨h.splitArgs, ⟨h.okForReplay, fun _ => h.hours⟩, fun role => ?_, h.splits⟩
  cases role with
  | qualityGate =>
      intro entry hentry
      obtain ⟨cfg, report, hreplays, -⟩ := forall_mem_zipIdx.mpr h.replays entry hentry
      exact ⟨_, cfg, report, hreplays, rfl⟩
  | diagnostic =>
      intro entry hentry
      obtain ⟨cfg, report, hreplays⟩ := forall_mem_zipIdx.mpr h.diagnostics entry hentry
      exact ⟨_, cfg, report, hreplays, rfl⟩

end Gate

end PublicDataGate

open PublicDataGate

/-- **When the gate on public data passes.**  It exits with 0 exactly when the recording and the
replays of its configs meet the thresholds and nothing is refused, whatever was on disk. -/
theorem public_data_gate_passes_iff (gate : GateRuntime) (args : PublicDataGateArgs)
    (store : Store Document) :
    (∃ payload after, (runPublicDataGate gate args).run store = .ok (0, payload) after) ↔
      Passes gate args := by
  obtain ⟨result, writes, hwrites, -, hcomplete, hverdict⟩ := stage_stages gate args
  have hrun := hwrites store (by simp [Files.Has])
  simp only [EStateM.run] at hrun
  simp only [runPublicDataGate, EStateM.run, hrun]
  cases result with
  | ok verdict =>
      obtain ⟨ok, payload⟩ := verdict
      obtain ⟨⟨replays, hreplays, hok⟩, -⟩ := hverdict _ rfl
      rw [← passes_iff gate args (hcomplete.mp ⟨_, rfl⟩) hreplays, ← hok]
      cases ok with
      | true => exact iff_of_true ⟨_, _, rfl⟩ rfl
      | false =>
          refine iff_of_false ?_ (by simp)
          rintro ⟨_, _, h⟩
          cases h
  | error stop =>
      have hnot : ¬ Passes gate args := fun h => by simpa using hcomplete.mpr h.completes
      refine iff_of_false ?_ hnot
      rintro ⟨_, _, h⟩
      cases stop <;> cases h

/-- A gate around the flat pipeline. -/
def flatGate : GateRuntime where
  runtime := seriesRuntime
  texts := plainTexts
  splitEventId := fun _ _ _ => ""
  loadConfig := fun _ => some (.ok flatConfig)
  preventSleep := .null

/-- Short recordings are let pass. -/
def shortGateArgs (files : List (List RecordedLine)) : PublicDataGateArgs where
  events := files.map fun lines => { path := "recording.jsonl".toList, lines := lines }
  configs := ["config/flat.yaml".toList]
  out := "out".toList
  strict := false
  thresholds :=
    { minReportCount := 1, minRecordingHours := 0, minFills := 0, minFillRate := 0,
      minStrategyAlphaPnl := -1, maxOrdersPerMinute := 120000 }

theorem public_data_gate_passes_recordingWith :
    ∃ payload after, (runPublicDataGate flatGate (shortGateArgs (recordingWith 6))).run
      Py.Table.empty = .ok (0, payload) after := by
  refine (public_data_gate_passes_iff _ _ _).mpr
    ⟨by decide, by decide +kernel, ⟨1 / 1200000, by decide +kernel, by decide +kernel⟩, by decide,
      ?_, by simp [shortGateArgs], fun h => absurd rfl h⟩
  have hmet : ((replay flatGate (shortGateArgs (recordingWith 6)) flatConfig
      (PublicDataGate.recordedEvents (shortGateArgs (recordingWith 6)))).toOption.any fun report =>
        decide ((shortGateArgs (recordingWith 6)).thresholds.Met report.summary)) = true := by
    decide +kernel
  intro config _
  cases hreport : replay flatGate (shortGateArgs (recordingWith 6)) flatConfig
      (PublicDataGate.recordedEvents (shortGateArgs (recordingWith 6))) with
  | error e => simp [hreport, Except.toOption] at hmet
  | ok report =>
      rw [hreport] at hmet
      exact ⟨flatConfig, report, ⟨rfl, hreport⟩, of_decide_eq_true hmet⟩

end GhostAmm
