/-
The files of the gate on public data.

Each file the gate writes has a place under `out`: a name there, or the name of a directory and a
name in it.  A directory is named after the number of its config, of its split or both, and what
is in front of the numbers tells the kinds apart, so that no two replays share a directory,
whatever their configs are called.  What goes to a place is settled by the place alone
(`Output.unique`).
-/
import GhostAmm.Model.PublicDataGate
import GhostAmm.Proofs.Leftovers

namespace GhostAmm

open Files (Path Store Writes join stem IsName)

/-! ### Numbers in names -/

theorem underscore_not_mem_zeroPad (width n : ℕ) : '_' ∉ Py.zeroPad width n := fun h =>
  absurd (Py.isDigit_of_mem_zeroPad h) (by decide)

/-- The number a name begins with can be read off it. -/
theorem zeroPad_append_inj {width n m : ℕ} {xs ys : List Char}
    (h : Py.zeroPad width n ++ '_' :: xs = Py.zeroPad width m ++ '_' :: ys) : n = m ∧ xs = ys := by
  have htake : ∀ (k : ℕ) (zs : List Char),
      ((Py.zeroPad width k ++ '_' :: zs).takeWhile fun c => decide (c ≠ '_'))
        = Py.zeroPad width k := by
    intro k zs
    have hchars : ∀ c ∈ Py.zeroPad width k, decide (c ≠ '_') = true := by
      intro c hc
      rw [decide_eq_true_eq]
      rintro rfl
      exact underscore_not_mem_zeroPad width k hc
    rw [List.takeWhile_append_of_pos hchars]
    simp
  obtain rfl : n = m := Py.zeroPad_injective width (by rw [← htake n xs, h, htake m ys])
  exact ⟨rfl, (List.cons.inj (List.append_cancel_left h)).2⟩

theorem slash_not_mem_zeroPad (width n : ℕ) : '/' ∉ Py.zeroPad width n := fun h =>
  absurd (Py.isDigit_of_mem_zeroPad h) (by decide)

namespace PublicDataGate

theorem slash_not_mem_numbered (index : ℕ) (config : Path) : '/' ∉ numbered index config := by
  unfold numbered
  rw [List.mem_append, List.mem_cons]
  rintro (h | h | h)
  · exact slash_not_mem_zeroPad 2 index h
  · exact absurd h (by decide)
  · exact Files.not_mem_stem config h

/-- What a name begins with. -/
inductive Kind where
  | none
  | number
  | letter (c : Char)

def Kind.of (name : Path) : Kind :=
  match name with
  | [] => .none
  | c :: _ => if c.isDigit then .number else .letter c

theorem Kind.of_numbered (index : ℕ) (config : Path) :
    Kind.of (numbered index config) = .number := by
  unfold numbered
  cases hpad : Py.zeroPad 2 index with
  | nil =>
      have hlength := congrArg List.length hpad
      rw [Py.zeroPad, List.length_append, List.length_replicate, List.length_reverse,
        List.length_map, List.length_nil] at hlength
      omega
  | cons c rest =>
      have hdigit : c.isDigit = true :=
        Py.isDigit_of_mem_zeroPad (hpad ▸ List.mem_cons_self : c ∈ Py.zeroPad 2 index)
      show (if c.isDigit = true then Kind.number else Kind.letter c) = _
      rw [if_pos hdigit]

section Outputs

variable (gate : GateRuntime) (args : PublicDataGateArgs)

/-- The configs of a role. -/
def configsOf : GateRole → List Path
  | .qualityGate => args.configs
  | .diagnostic => args.diagnosticConfigs

/-- A config can be read and a replay under it is not refused. -/
structure Replays (config : Path) (events : List Event) (cfg : Config)
    (report : ReplayEngine.Report) : Prop where
  loaded : gate.loadConfig config = some (.ok cfg)
  replayed : replay gate args cfg events = .ok report

/-- The files of a report. -/
def reportFiles (cfg : Config) (report : ReplayEngine.Report) : List (Path × Document) :=
  [("events.jsonl".toList, .events report.events),
   ("summary.json".toList, .json (.obj (summaryData report.summary
     (lastReplayOrder args cfg) (lastStrictSequence args cfg))))]

/-- The files of a report, in a directory. -/
def filesIn (dir : Path) (cfg : Config) (report : ReplayEngine.Report) : List (Path × Document) :=
  (reportFiles args cfg report).map fun f => (join dir f.1, f.2)

/-- The entry of a replay. -/
def replayEntry (role : GateRole) (entry : Path × ℕ) (cfg : Config)
    (report : ReplayEngine.Report) : GateReplay where
  config := entry.1
  role := role.name
  out := runOut args role entry.1 entry.2
  report := report
  replayOrder := lastReplayOrder args cfg
  strictSequence := lastStrictSequence args cfg

/-- What a turn of the loops over the configs comes to. -/
def ReplaysTo (role : GateRole) (entry : Path × ℕ) (replayed : GateReplay) : Prop :=
  ∃ cfg report, Replays gate args entry.1 (recordedEvents args) cfg report ∧
    replayed = replayEntry args role entry cfg report

/-- What the quality gate makes of a summary. -/
def summaryReportOf (path : Path) (summary : MetricsSummary) : SummaryReport where
  path := path
  strategyAlphaPnl := summary.strategyAlphaPnl
  virtualFills := summary.virtualFills
  virtualOrders := summary.virtualOrders
  fillRate := summary.fillRate
  ordersPerMinute := summary.ordersPerMinute
  cancelsPerMinute := summary.cancelsPerMinute
  fillPerActiveSecond := summary.fillPerActiveSecond

/-- The verdict on some replays. -/
def judge (replays : List GateReplay) : QualityGateResult :=
  let reports := replays.map fun replayed =>
    summaryReportOf replayed.summary replayed.report.summary
  let countFailures :=
    if (reports.length : ℤ) < args.thresholds.minReportCount then
      ["report_count_below_min:" ++ toString reports.length ++ "<" ++
        toString args.thresholds.minReportCount]
    else []
  let failures := countFailures ++
    recordingFailures gate.texts args.thresholds (inspection args).toDict ++
    reports.flatMap (reportFailures gate.texts args.thresholds)
  { ok := failures.isEmpty, failures := failures, thresholds := args.thresholds,
    reports := reports, recordingInspection := some (inspection args).toDict }

/-- The name of the directory of the splits. -/
def splitsName : Path := "recording_splits".toList

/-- The name of the directory of a replay. -/
def runName (role : GateRole) (config : Path) (index : ℕ) : Path :=
  role.label.toList ++ numbered index config

/-- The name of the directory of a replay of a split. -/
def splitRunName (split : ℕ) (role : GateRole) (config : Path) (index : ℕ) : Path :=
  ['s', 'p', 'l', 'i', 't', '_'] ++ Py.zeroPad 2 split ++ '_' ::
    (rolePrefix args role ++ numbered index config)

/-- The splits that are written, and what splitting comes to. -/
def splitFiles : List WrittenSplit × Except Py.Error RecordingSplitResult :=
  splitRecordingFiles gate.splitEventId
    (args.events.map fun file => file.lines.map fun line => ({ event := line.event } : Recorded))
    (splitPrefix args) args.splitParts defaultMetadataEventTypes

/-- What goes to which place under `out`, a name in a directory there or, where there is no
directory, in `out` itself. -/
inductive Output : Path → Path → Document → Prop
  | inspection : Output [] "recording_inspection.json".toList
      (.json (.obj (inspection args).toDict))
  | quality {replays : List GateReplay}
      (hreplays : List.Forall₂ (ReplaysTo gate args .qualityGate) (args.configs.zipIdx 1)
        replays) :
      Output [] "quality_gate.json".toList (.json (.obj (judge gate args replays).toDict))
  | report {role : GateRole} {config : Path} {index : ℕ} {cfg : Config}
      {report : ReplayEngine.Report} {file : Path} {content : Document}
      (hentry : (config, index) ∈ (configsOf args role).zipIdx 1)
      (hreplays : Replays gate args config (recordedEvents args) cfg report)
      (hfile : (file, content) ∈ reportFiles args cfg report) :
      Output (runName role config index) file content
  | split {written : WrittenSplit} {index : ℕ} (hsplit : written ∈ (splitFiles gate args).1)
      (hindex : written.split.index = index + 1) :
      Output splitsName (splitPath "recording_split".toList index) (.events written.file)
  | splitReport {written : WrittenSplit} {role : GateRole} {config : Path} {index : ℕ}
      {cfg : Config} {report : ReplayEngine.Report} {file : Path} {content : Document}
      (hsplit : written ∈ (splitFiles gate args).1)
      (hentry : (role, config, index) ∈ splitConfigs args)
      (hreplays : Replays gate args config written.file cfg report)
      (hfile : (file, content) ∈ reportFiles args cfg report) :
      Output (splitRunName args written.split.index role config index) file content

/-- The path of a place. -/
def place (dir file : Path) : Path :=
  if dir = [] then join args.out file else join (join args.out dir) file

end Outputs

section Unique

variable {gate : GateRuntime} {args : PublicDataGateArgs} {config : Path} {events : List Event}
  {cfg cfg' : Config} {report report' : ReplayEngine.Report}

theorem Replays.unique (h : Replays gate args config events cfg report)
    (h' : Replays gate args config events cfg' report') : cfg = cfg' ∧ report = report' := by
  obtain rfl := Except.ok.inj (Option.some.inj (h.loaded.symm.trans h'.loaded))
  exact ⟨rfl, Except.ok.inj (h.replayed.symm.trans h'.replayed)⟩

theorem ReplaysTo.rightUnique {role : GateRole} :
    Relator.RightUnique (ReplaysTo gate args role) := by
  rintro entry _ _ ⟨cfg, report, h, rfl⟩ ⟨cfg', report', h', rfl⟩
  obtain ⟨rfl, rfl⟩ := h.unique h'
  rfl

theorem reportFiles_unique {file : Path} {content content' : Document}
    (h : (file, content) ∈ reportFiles args cfg report)
    (h' : (file, content') ∈ reportFiles args cfg report) : content = content' := by
  have hnodup : ((reportFiles args cfg report).map Prod.fst).Nodup := by
    show ["events.jsonl".toList, "summary.json".toList].Nodup
    decide
  exact congrArg Prod.snd (List.inj_on_of_nodup_map hnodup h h' rfl)

theorem entry_unique {α : Type} {l : List α} {n index : ℕ} {a b : α}
    (ha : (a, index) ∈ l.zipIdx n) (hb : (b, index) ∈ l.zipIdx n) : a = b := by
  obtain ⟨-, -, ha⟩ := List.mem_zipIdx ha
  obtain ⟨-, -, hb⟩ := List.mem_zipIdx hb
  exact ha.trans hb.symm

@[simp] theorem Kind.of_nil : Kind.of [] = .none := rfl

@[simp] theorem Kind.of_splitsName : Kind.of splitsName = .letter 'r' := rfl

@[simp] theorem Kind.of_splitRunName (split : ℕ) (role : GateRole) (config : Path) (index : ℕ) :
    Kind.of (splitRunName args split role config index) = .letter 's' := rfl

@[simp] theorem Kind.of_runName (role : GateRole) (config : Path) (index : ℕ) :
    Kind.of (runName role config index)
      = match role with
        | .qualityGate => .number
        | .diagnostic => .letter 'd' := by
  cases role with
  | qualityGate => exact Kind.of_numbered index config
  | diagnostic => rfl

theorem runName_unique {role role' : GateRole} {config config' : Path} {index index' : ℕ}
    (h : runName role config index = runName role' config' index') : role = role' ∧
      index = index' := by
  have hkind := congrArg Kind.of h
  rw [Kind.of_runName, Kind.of_runName] at hkind
  have hrole : role = role' := by
    cases role <;> cases role' <;> simp at hkind ⊢
  subst hrole
  exact ⟨rfl, (zeroPad_append_inj (List.append_cancel_left h)).1⟩

theorem splitRunName_unique {split split' : ℕ} {role role' : GateRole} {config config' : Path}
    {index index' : ℕ}
    (h : splitRunName args split role config index = splitRunName args split' role' config' index')
    (hrole : args.splitDiagnosticConfigs = false → role = role') :
    split = split' ∧ role = role' ∧ index = index' := by
  unfold splitRunName at h
  rw [List.append_assoc, List.append_assoc, List.append_cancel_left_eq] at h
  obtain ⟨hsplit, hrest⟩ := zeroPad_append_inj h
  refine ⟨hsplit, ?_⟩
  unfold rolePrefix at hrest
  cases hflag : args.splitDiagnosticConfigs with
  | false =>
      rw [hflag] at hrest
      exact ⟨hrole hflag, (zeroPad_append_inj hrest).1⟩
  | true =>
      rw [hflag, if_pos rfl, if_pos rfl] at hrest
      -- the names of the roles differ in their first letter
      have hhead : ∀ (role : GateRole) (rest : Path), (role.name.toList ++ ['_'] ++ rest).head?
          = match role with
            | .qualityGate => some 'q'
            | .diagnostic => some 'd' := by
        intro role rest
        cases role <;> rfl
      have hsame : role = role' := by
        have hheads := congrArg List.head? hrest
        rw [hhead, hhead] at hheads
        cases role <;> cases role' <;> simp at hheads ⊢
      subst hsame
      exact ⟨rfl, (zeroPad_append_inj (List.append_cancel_left hrest)).1⟩

/-! ### The splits -/

theorem mem_writeParts {part : ℕ → Except Py.Error WrittenSplit} {written : WrittenSplit} :
    ∀ indices : List ℕ, written ∈ (writeParts part indices).1 → ∃ index, part index = .ok written := by
  intro indices
  induction indices with
  | nil => simp [writeParts]
  | cons index rest ih =>
      rw [writeParts]
      cases hpart : part index with
      | error e => simp
      | ok first =>
          intro hmem
          rcases List.mem_cons.mp hmem with rfl | hmem
          · exact ⟨index, hpart⟩
          · exact ih hmem

/-- Each split that is written is that of its index. -/
theorem splitFiles_part (gate : GateRuntime) (args : PublicDataGateArgs) :
    ∃ part : ℕ → Except Py.Error WrittenSplit,
      (∀ index written, part index = .ok written → written.split.index = index + 1 ∧
        written.split.path = splitPath (splitPrefix args) index) ∧
      ∀ written ∈ (splitFiles gate args).1, ∃ index, part index = .ok written := by
  have hnone : ∃ part : ℕ → Except Py.Error WrittenSplit,
      (∀ index written, part index = .ok written → written.split.index = index + 1 ∧
        written.split.path = splitPath (splitPrefix args) index) ∧
      ∀ written ∈ ([] : List WrittenSplit), ∃ index, part index = .ok written :=
    ⟨fun _ => .error .statisticsError, by simp, by simp⟩
  unfold splitFiles splitRecordingFiles
  dsimp only
  split
  · exact hnone
  · split
    · exact hnone
    · split
      · split
        · exact hnone
        · refine ⟨_, fun index written hpart => ?_, fun written => mem_writeParts _⟩
          unfold splitPart at hpart
          dsimp only at hpart
          split at hpart
          · rw [← Except.ok.inj hpart]
            exact ⟨rfl, rfl⟩
          · simp at hpart
      · exact hnone

/-- What splitting returns is what it wrote. -/
theorem splits_splitFiles {result : RecordingSplitResult}
    (h : (splitFiles gate args).2 = .ok result) : result.splits = (splitFiles gate args).1 := by
  unfold splitFiles splitRecordingFiles at h ⊢
  dsimp only at h ⊢
  split at h
  · simp at h
  · rename_i hparts
    rw [if_neg hparts]
    split at h
    · simp at h
    · rename_i hinputs
      rw [if_neg hinputs]
      split at h
      · split at h
        · simp at h
        · rename_i hspan
          rw [if_neg hspan]
          revert h
          generalize writeParts _ _ = loop
          obtain ⟨written, raised⟩ := loop
          cases raised with
          | error e => intro h; simp [Except.map] at h
          | ok _ =>
              intro h
              rw [← Except.ok.inj h]
      · simp at h

theorem split_unique {w w' : WrittenSplit} (h : w ∈ (splitFiles gate args).1)
    (h' : w' ∈ (splitFiles gate args).1) (hindex : w.split.index = w'.split.index) : w = w' := by
  obtain ⟨part, hpart, hmem⟩ := splitFiles_part gate args
  obtain ⟨i, hi⟩ := hmem w h
  obtain ⟨j, hj⟩ := hmem w' h'
  have hsame := hindex
  rw [(hpart i w hi).1, (hpart j w' hj).1] at hsame
  obtain rfl : i = j := by omega
  exact Except.ok.inj (hi.symm.trans hj)

theorem mem_splitConfigs {role : GateRole} {entry : Path × ℕ} :
    (role, entry) ∈ splitConfigs args ↔ entry ∈ (configsOf args role).zipIdx 1 ∧
      (role = .diagnostic → args.splitDiagnosticConfigs = true) := by
  unfold splitConfigs configsOf
  cases hflag : args.splitDiagnosticConfigs <;> cases role <;> simp

/-! ### A place is given one content -/

theorem Output.unique {dir dir' file file' : Path} {content content' : Document}
    (h : Output gate args dir file content) (h' : Output gate args dir' file' content') (hdir : dir = dir') (hfile : file = file') :
    content = content' := by
  -- two places of different kinds are in directories that begin differently
  have hkind := congrArg Kind.of hdir
  cases h with
  | inspection =>
      cases h' with
      | inspection => rfl
      | quality _ => exact absurd hfile (by decide)
      | @report role _ _ _ _ _ _ _ _ _ => cases role <;> simp at hkind
      | split _ _ => simp at hkind
      | splitReport _ _ _ _ => simp at hkind
  | quality hreplays =>
      cases h' with
      | inspection => exact absurd hfile (by decide)
      | quality hreplays' => rw [List.right_unique_forall₂' ReplaysTo.rightUnique hreplays hreplays']
      | @report role _ _ _ _ _ _ _ _ _ => cases role <;> simp at hkind
      | split _ _ => simp at hkind
      | splitReport _ _ _ _ => simp at hkind
  | @report role config index cfg report _ _ hentry hreplays hmem =>
      cases h' with
      | inspection => cases role <;> simp at hkind
      | quality _ => cases role <;> simp at hkind
      | report hentry' hreplays' hmem' =>
          obtain ⟨rfl, rfl⟩ := runName_unique hdir
          obtain rfl := entry_unique hentry hentry'
          obtain ⟨rfl, rfl⟩ := hreplays.unique hreplays'
          subst hfile
          exact reportFiles_unique hmem hmem'
      | split _ _ => cases role <;> simp at hkind
      | splitReport _ _ _ _ => cases role <;> simp at hkind
  | split hsplit hindex =>
      cases h' with
      | inspection => simp at hkind
      | quality _ => simp at hkind
      | @report role _ _ _ _ _ _ _ _ _ => cases role <;> simp at hkind
      | split hsplit' hindex' =>
          have hsame := splitPath_injective hfile
          rw [split_unique hsplit hsplit' (by omega)]
      | splitReport _ _ _ _ => simp at hkind
  | splitReport hsplit hentry hreplays hmem =>
      cases h' with
      | inspection => simp at hkind
      | quality _ => simp at hkind
      | @report role _ _ _ _ _ _ _ _ _ => cases role <;> simp at hkind
      | split _ _ => simp at hkind
      | splitReport hsplit' hentry' hreplays' hmem' =>
          rw [mem_splitConfigs] at hentry hentry'
          obtain ⟨hindex, rfl, rfl⟩ := splitRunName_unique hdir fun hflag => by
            have hrole : ∀ role : GateRole,
                (role = .diagnostic → args.splitDiagnosticConfigs = true) → role = .qualityGate := by
              intro role hrole
              cases role with
              | qualityGate => rfl
              | diagnostic => exact absurd (hrole rfl) (by simp [hflag])
            rw [hrole _ hentry.2, hrole _ hentry'.2]
          obtain rfl := entry_unique hentry.1 hentry'.1
          obtain rfl := split_unique hsplit hsplit' hindex
          obtain ⟨rfl, rfl⟩ := hreplays.unique hreplays'
          subst hfile
          exact reportFiles_unique hmem hmem'

/-- A place in a directory, or one whose name is no path. -/
def IsPlace (dir file : Path) : Prop := (dir = [] ∧ '/' ∉ file) ∨ IsName dir

theorem isName_runName (role : GateRole) (config : Path) (index : ℕ) :
    IsName (runName role config index) := by
  refine Files.isName_of_mem (c := '_') ?_ (by decide) ?_
  · exact List.mem_append_right _ (by simp [numbered])
  · unfold runName
    rw [List.mem_append]
    rintro (h | h)
    · cases role <;> exact absurd h (by decide)
    · exact slash_not_mem_numbered index config h

theorem isName_splitRunName (split : ℕ) (role : GateRole) (config : Path) (index : ℕ) :
    IsName (splitRunName args split role config index) := by
  refine Files.isName_of_mem (c := '_') (by simp [splitRunName]) (by decide) ?_
  have hprefix : '/' ∉ rolePrefix args role := by
    unfold rolePrefix
    cases role <;> split <;> decide
  intro h
  obtain h | h := List.mem_append.mp h
  · obtain h | h := List.mem_append.mp h
    · exact absurd h (by decide)
    · exact slash_not_mem_zeroPad 2 split h
  · obtain h | h := List.mem_append.mp (List.mem_of_ne_of_mem (by decide) h)
    · exact hprefix h
    · exact slash_not_mem_numbered index config h

theorem Output.isPlace {dir file : Path} {content : Document}
    (h : Output gate args dir file content) : IsPlace dir file := by
  cases h with
  | inspection => exact Or.inl ⟨rfl, by decide⟩
  | quality _ => exact Or.inl ⟨rfl, by decide⟩
  | report => exact Or.inr (isName_runName _ _ _)
  | split => exact Or.inr (Files.isName_of_mem (c := '_') (by decide) (by decide) (by decide))
  | splitReport => exact Or.inr (isName_splitRunName _ _ _ _)

theorem place_injective {dir dir' file file' : Path} (h : IsPlace dir file)
    (h' : IsPlace dir' file') (heq : place args dir file = place args dir' file') :
    dir = dir' ∧ file = file' := by
  have hcross : ∀ {file dir' file' : Path}, '/' ∉ file → IsName dir' →
      ¬ join args.out file = join (join args.out dir') file' := by
    intro file dir' file' hslash hname heq
    rw [hname.join_join, join, join, List.append_assoc, List.append_cancel_left_eq] at heq
    exact hslash (heq ▸ List.mem_append_right _ List.mem_cons_self)
  unfold place at heq
  rcases h with ⟨rfl, hslash⟩ | hname
  · rcases h' with ⟨rfl, -⟩ | hname'
    · exact ⟨rfl, List.append_cancel_left heq⟩
    · rw [if_pos rfl, if_neg hname'.ne_nil] at heq
      exact absurd heq (hcross hslash hname')
  · rw [if_neg hname.ne_nil] at heq
    rcases h' with ⟨rfl, hslash'⟩ | hname'
    · rw [if_pos rfl] at heq
      exact absurd heq.symm (hcross hslash' hname)
    · rw [if_neg hname'.ne_nil] at heq
      exact hname.eq_of_join_join hname' heq

/-- What goes to a path. -/
def Placed (gate : GateRuntime) (args : PublicDataGateArgs) (path : Path)
    (content : Document) : Prop :=
  ∃ dir file, Output gate args dir file content ∧ path = place args dir file

theorem Placed.unique {path : Path} {content content' : Document}
    (h : Placed gate args path content) (h' : Placed gate args path content') :
    content = content' := by
  obtain ⟨dir, file, hout, rfl⟩ := h
  obtain ⟨dir', file', hout', heq⟩ := h'
  obtain ⟨hdir, hfile⟩ := place_injective hout.isPlace hout'.isPlace heq
  exact hout.unique hout' hdir hfile

end Unique

end PublicDataGate

end GhostAmm
