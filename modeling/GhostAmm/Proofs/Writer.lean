/-
What a recording holds.

The writer's files are the segments of a log: `write` appends to the file of the current
index, rotation begins the next one, and `open` empties the file it opens.  `Follows` is that
reading of the state and every call keeps it, so the law of segmented logs applies: the
recording is complete exactly when no open found anything to empty.

An open empties something exactly when an event has been written and the writer has been
closed since.  So the calls alone decide it (`ClosedForGood`): once the writer is closed after
a write, nothing but `close` may follow.
-/
import GhostAmm.Lib.Segments
import GhostAmm.Model.Writer

namespace GhostAmm

/-! ### Names of files -/

theorem RecordingPath.numbered_injective (path : RecordingPath) {i j : ℕ}
    (h : path.numbered i = path.numbered j) : i = j := by
  unfold numbered name at h
  by_cases hi : i = 0
  · by_cases hj : j = 0
    · rw [hi, hj]
    · rw [if_pos hi, if_neg hj] at h
      have hlen := congrArg List.length h
      simp at hlen
      omega
  · by_cases hj : j = 0
    · rw [if_neg hi, if_pos hj] at h
      have hlen := congrArg List.length h
      simp at hlen
      omega
    · rw [if_neg hi, if_neg hj, List.append_cancel_right_eq, List.append_cancel_left_eq,
        List.cons.injEq] at h
      exact Py.zeroPad_injective 4 h.2

theorem eraseDups_snoc_mem {α : Type} [BEq α] [LawfulBEq α] {l : List α} {a : α} (h : a ∈ l) :
    (l ++ [a]).eraseDups = l.eraseDups := by
  rw [List.eraseDups_append]
  simp [List.removeAll, h]

theorem eraseDups_snoc_fresh {α : Type} [BEq α] [LawfulBEq α] {l : List α} {a : α} (h : a ∉ l) :
    (l ++ [a]).eraseDups = l.eraseDups ++ [a] := by
  rw [List.eraseDups_append]
  simp [List.removeAll, h, List.eraseDups_cons]

/-! ### The files as segments -/

namespace RotatingJsonlEventWriter

variable {settings : WriterSettings} {self : RotatingJsonlEventWriter}

/-- The state of the writer as a log in segments. -/
structure Follows (settings : WriterSettings) (w : RotatingJsonlEventWriter)
    (log : Segments.Log String) : Prop where
  sealed : (List.range w.fileIndex).map (fun i => w.linesOf (settings.path.numbered i))
    = log.sealed
  current : w.linesOf (settings.path.numbered w.fileIndex) = log.current
  opened : w.opened = (List.range (w.fileIndex + 1)).map settings.path.numbered ∨
    w.paths = [] ∧ w.fileIndex = 0 ∧ log.current = []
  handle : ∀ handle, w.fh = some handle →
    handle.path = settings.path.numbered w.fileIndex ∧ w.paths ≠ []

/-- The files together hold what the log holds. -/
theorem Follows.recording {log : Segments.Log String} (h : Follows settings self log) :
    self.recording = log.contents := by
  unfold RotatingJsonlEventWriter.recording Segments.Log.contents
  rcases h.opened with hopened | ⟨hpaths, hindex, hcurrent⟩
  · rw [hopened, List.range_succ, List.map_append, List.flatMap_append, List.flatMap_map,
      ← h.sealed, ← h.current]
    simp [List.flatMap_def]
  · have hsealed := h.sealed
    rw [hindex] at hsealed
    have hempty : self.opened = [] := by
      unfold RotatingJsonlEventWriter.opened
      rw [hpaths]
      rfl
    rw [hempty, hcurrent, ← hsealed]
    rfl

/-- The lines of a file are those in the directory when nothing is open. -/
theorem linesOf_closed (h : self.fh = none) (path : List Char) :
    self.linesOf path = self.files.lines path := by
  unfold linesOf
  rw [h]
  simp

theorem linesOf_open {handle : FileHandle} (h : self.fh = some handle) (path : List Char) :
    self.linesOf path
      = self.files.lines path ++ if handle.path = path then handle.waiting else [] := by
  unfold linesOf
  rw [h]
  by_cases hpath : handle.path = path
  · simp [Option.filter, hpath]
  · simp [Option.filter, hpath]

theorem lines_put_self (files : Directory) (path : List Char) (lines : List String) :
    Directory.lines (files.put (path, lines)) path = lines := by
  unfold Directory.lines
  rw [show Py.Table.get? (files.put (path, lines)) path = some (path, lines) from
    Py.Table.get?_put_self files (path, lines)]
  rfl

theorem lines_put_ne (files : Directory) {path path' : List Char} (lines : List String)
    (h : path' ≠ path) : Directory.lines (files.put (path, lines)) path' = files.lines path' := by
  unfold Directory.lines
  rw [Py.Table.get?_put_ne files h]

/-! ### Flushing and closing -/

theorem linesOf_flush (self : RotatingJsonlEventWriter) (path : List Char) :
    self.flush.linesOf path = self.linesOf path := by
  cases hfh : self.fh with
  | none => rw [show self.flush = self by unfold flush; rw [hfh]]
  | some handle =>
      have hflush : self.flush = { self with
          fh := some { handle with waiting := [] },
          files := self.files.put (handle.path,
            self.files.lines handle.path ++ handle.waiting) } := by
        unfold flush
        rw [hfh]
      have hfh' : self.flush.fh = some { handle with waiting := [] } := by rw [hflush]
      rw [linesOf_open hfh', linesOf_open hfh, hflush]
      by_cases hpath : handle.path = path
      · subst hpath
        simp [lines_put_self]
      · have hne : path ≠ handle.path := fun h => hpath h.symm
        simp [hpath, lines_put_ne _ _ hne]

theorem linesOf_close (self : RotatingJsonlEventWriter) (path : List Char) :
    self.close.linesOf path = self.linesOf path := by
  cases hfh : self.fh with
  | none => rw [show self.close = self by unfold close; rw [hfh]]
  | some handle =>
      have hclose : self.close = { self.flush with fh := none } := by
        unfold close
        rw [hfh]
      have hflush : self.flush.fh = some { handle with waiting := [] } := by
        unfold flush
        rw [hfh]
      rw [← linesOf_flush self, linesOf_open hflush, linesOf_closed (by rw [hclose]), hclose]
      simp

theorem Follows.flush {log : Segments.Log String} (h : Follows settings self log) :
    Follows settings self.flush log := by
  have hframe : self.flush.fileIndex = self.fileIndex ∧ self.flush.paths = self.paths := by
    unfold RotatingJsonlEventWriter.flush
    split <;> exact ⟨rfl, rfl⟩
  refine ⟨?_, ?_, ?_, ?_⟩
  · simp only [linesOf_flush, hframe.1]
    exact h.sealed
  · rw [linesOf_flush, hframe.1]
    exact h.current
  · unfold RotatingJsonlEventWriter.opened
    rw [hframe.1, hframe.2]
    exact h.opened
  · intro handle hfh
    rw [hframe.1, hframe.2]
    unfold RotatingJsonlEventWriter.flush at hfh
    split at hfh
    · exact h.handle handle hfh
    · rename_i handle' hfh'
      rw [← Option.some.inj hfh]
      exact h.handle handle' hfh'

theorem close_frame (self : RotatingJsonlEventWriter) :
    self.close.fileIndex = self.fileIndex ∧ self.close.paths = self.paths ∧
      self.close.fh = none := by
  unfold RotatingJsonlEventWriter.close
  split
  · rename_i hfh
    exact ⟨rfl, rfl, hfh⟩
  · unfold RotatingJsonlEventWriter.flush
    split <;> exact ⟨rfl, rfl, rfl⟩

theorem Follows.close {log : Segments.Log String} (h : Follows settings self log) :
    Follows settings self.close log := by
  obtain ⟨hindex, hpaths, hfh⟩ := close_frame self
  refine ⟨?_, ?_, ?_, ?_⟩
  · simp only [linesOf_close, hindex]
    exact h.sealed
  · rw [linesOf_close, hindex]
    exact h.current
  · unfold RotatingJsonlEventWriter.opened
    rw [hindex, hpaths]
    exact h.opened
  · intro handle hhandle
    rw [hfh] at hhandle
    simp at hhandle

/-! ### Opening, rotating and writing -/

/-- Opening what is not open empties the file of the index. -/
theorem open_closed (settings : WriterSettings) (h : self.fh = none) :
    self.open_ settings = { self with
      paths := self.paths ++ [settings.path.numbered self.fileIndex],
      fh := some ⟨settings.path.numbered self.fileIndex, []⟩,
      files := self.files.put (settings.path.numbered self.fileIndex, []),
      currentEvents := 0, currentBytes := 0 } := by
  unfold open_
  rw [h]

theorem open_open {handle : FileHandle} (h : self.fh = some handle) :
    self.open_ settings = self := by
  unfold open_
  rw [h]

theorem linesOf_open_closed (h : self.fh = none) (path : List Char) :
    (self.open_ settings).linesOf path
      = if path = settings.path.numbered self.fileIndex then [] else self.linesOf path := by
  have hfh : (self.open_ settings).fh = some ⟨settings.path.numbered self.fileIndex, []⟩ := by
    rw [open_closed settings h]
  rw [linesOf_open hfh, linesOf_closed h, open_closed settings h]
  by_cases hpath : path = settings.path.numbered self.fileIndex
  · subst hpath
    simp [lines_put_self]
  · simp [hpath, lines_put_ne _ _ hpath]

/-- The sealed files are not the file of the index. -/
theorem map_sealed_congr {f g : List Char → List String} {path : RecordingPath} {n m : ℕ}
    (hnm : n ≤ m) (h : ∀ p, p ≠ path.numbered m → f p = g p) :
    (List.range n).map (fun i => f (path.numbered i))
      = (List.range n).map fun i => g (path.numbered i) := by
  refine List.map_congr_left fun i hi => h _ fun heq => ?_
  have hlt := List.mem_range.mp hi
  have := path.numbered_injective heq
  omega

/-- Opening a closed writer restarts the current segment. -/
theorem Follows.open_closed {log : Segments.Log String} (h : Follows settings self log)
    (hfh : self.fh = none) : Follows settings (self.open_ settings) (log.act .restart) := by
  have hopen := RotatingJsonlEventWriter.open_closed settings hfh
  have hindex : (self.open_ settings).fileIndex = self.fileIndex := by rw [hopen]
  refine ⟨?_, ?_, Or.inl ?_, ?_⟩
  · rw [hindex, map_sealed_congr (g := self.linesOf) (le_refl self.fileIndex)]
    · exact h.sealed
    · intro p hp
      rw [linesOf_open_closed hfh, if_neg hp]
  · rw [hindex, linesOf_open_closed hfh, if_pos rfl]
    rfl
  · rw [hindex]
    unfold RotatingJsonlEventWriter.opened
    rw [hopen]
    show (self.paths ++ [settings.path.numbered self.fileIndex]).eraseDups = _
    rcases h.opened with hopened | ⟨hpaths, hzero, -⟩
    · have hmem : settings.path.numbered self.fileIndex ∈ self.paths := by
        rw [← List.mem_eraseDups, show self.paths.eraseDups = self.opened from rfl, hopened]
        exact List.mem_map_of_mem (List.mem_range.mpr (Nat.lt_succ_self _))
      rw [eraseDups_snoc_mem hmem]
      exact hopened
    · rw [hpaths, hzero]
      simp [List.eraseDups_cons]
  · intro handle hhandle
    rw [hopen] at hhandle
    rw [← Option.some.inj hhandle, hindex, hopen]
    exact ⟨rfl, by simp⟩

/-- Rotating an open writer rolls the log over. -/
theorem Follows.rotate {log : Segments.Log String} (h : Follows settings self log)
    {handle : FileHandle} (hfh : self.fh = some handle) :
    Follows settings (self.rotate settings) (log.act .roll) := by
  obtain ⟨hindex, hpaths, hclosed⟩ := close_frame self
  generalize hnext : { self.close with fileIndex := self.close.fileIndex + 1 } = next
  have hnextFh : next.fh = none := by rw [← hnext]; exact hclosed
  have hnextIndex : next.fileIndex = self.fileIndex + 1 := by rw [← hnext, ← hindex]
  have hnextLines : ∀ p, next.linesOf p = self.linesOf p := by
    intro p
    rw [← linesOf_close self, linesOf_closed hnextFh, linesOf_closed hclosed, ← hnext]
  have hnextPaths : next.paths = self.paths := by rw [← hnext]; exact hpaths
  have hrotate : self.rotate settings = next.open_ settings := by
    rw [← hnext]
    rfl
  have hopen := RotatingJsonlEventWriter.open_closed settings hnextFh
  have hopenIndex : (next.open_ settings).fileIndex = self.fileIndex + 1 := by
    rw [hopen]
    exact hnextIndex
  have hopened : self.opened = (List.range (self.fileIndex + 1)).map settings.path.numbered := by
    rcases h.opened with hopened | ⟨hnone, -⟩
    · exact hopened
    · exact absurd hnone (h.handle handle hfh).2
  rw [hrotate]
  refine ⟨?_, ?_, Or.inl ?_, ?_⟩
  · rw [hopenIndex, map_sealed_congr (g := self.linesOf) (le_refl (self.fileIndex + 1)),
      List.range_succ, List.map_append, h.sealed]
    · show log.sealed ++ [_] = log.sealed ++ [log.current]
      rw [← h.current]
    · intro p hp
      rw [linesOf_open_closed hnextFh, hnextIndex, if_neg hp, hnextLines]
  · rw [hopenIndex, linesOf_open_closed hnextFh, hnextIndex, if_pos rfl]
    rfl
  · rw [hopenIndex]
    unfold RotatingJsonlEventWriter.opened
    rw [hopen]
    show (next.paths ++ [settings.path.numbered next.fileIndex]).eraseDups = _
    have hfresh : settings.path.numbered next.fileIndex ∉ next.paths := by
      rw [hnextPaths, hnextIndex, ← List.mem_eraseDups,
        show self.paths.eraseDups = self.opened from rfl, hopened]
      intro hmem
      obtain ⟨i, hi, heq⟩ := List.mem_map.mp hmem
      have hlt := List.mem_range.mp hi
      have := settings.path.numbered_injective heq
      omega
    rw [eraseDups_snoc_fresh hfresh, hnextPaths, hnextIndex,
      show self.paths.eraseDups = self.opened from rfl, hopened, List.range_succ (n := _ + 1),
      List.map_append]
    rfl
  · intro handle' hhandle
    rw [hopen] at hhandle
    rw [← Option.some.inj hhandle, hopenIndex, hopen, hnextIndex]
    exact ⟨rfl, by simp⟩

/-- Writing to an open file appends to the current segment. -/
theorem Follows.put {log : Segments.Log String} (h : Follows settings self log)
    {handle : FileHandle} (hfh : self.fh = some handle) (line : String) :
    Follows settings (self.put line) (log.act (.append line)) := by
  have hput : (self.put line).fh = some { handle with waiting := handle.waiting ++ [line] } := by
    unfold RotatingJsonlEventWriter.put
    rw [hfh]
    rfl
  have hpath := (h.handle handle hfh).1
  have hlines : ∀ p, (self.put line).linesOf p
      = self.linesOf p ++ if p = settings.path.numbered self.fileIndex then [line] else [] := by
    intro p
    rw [linesOf_open hput, linesOf_open hfh]
    show self.files.lines p ++ _ = _
    by_cases hp : p = settings.path.numbered self.fileIndex
    · simp [hp, hpath]
    · have hne : ¬ handle.path = p := fun heq => hp (heq ▸ hpath)
      simp [hp, hne]
  refine ⟨?_, ?_, h.opened.imp id fun hnone => ?_, ?_⟩
  · show (List.range self.fileIndex).map (fun i => (self.put line).linesOf _) = log.sealed
    rw [map_sealed_congr (g := self.linesOf) (le_refl self.fileIndex)]
    · exact h.sealed
    · intro p hp
      rw [hlines, if_neg hp, List.append_nil]
  · show (self.put line).linesOf (settings.path.numbered self.fileIndex) = log.current ++ [line]
    rw [hlines, if_pos rfl, h.current]
  · exact absurd hnone.1 (h.handle handle hfh).2
  · intro handle' hhandle
    rw [hput] at hhandle
    rw [← Option.some.inj hhandle]
    exact h.handle handle hfh

/-! ### Calls -/

variable {α : Type} {toJson : α → String}

/-- What opening does to the log. -/
def openActs (self : RotatingJsonlEventWriter) : List (Segments.Act String) :=
  if self.fh.isNone then [.restart] else []

/-- What a call does to the log. -/
def actsOf (toJson : α → String) (settings : WriterSettings) (self : RotatingJsonlEventWriter) :
    WriterCall α → List (Segments.Act String)
  | .open_ => self.openActs
  | .write event =>
      self.openActs ++
        (if (self.open_ settings).shouldRotateBeforeWrite settings
            (lineOf toJson event).utf8ByteSize then [.roll] else []) ++
        [.append (lineOf toJson event)]
  | .close => []

theorem open_isSome (settings : WriterSettings) (self : RotatingJsonlEventWriter) :
    ∃ handle, (self.open_ settings).fh = some handle := by
  cases hfh : self.fh with
  | none => exact ⟨_, by rw [RotatingJsonlEventWriter.open_closed settings hfh]⟩
  | some handle => exact ⟨handle, by rw [open_open hfh, hfh]⟩

theorem Follows.open_ {log : Segments.Log String} (h : Follows settings self log) :
    Follows settings (self.open_ settings) (log.acts self.openActs) := by
  unfold openActs
  cases hfh : self.fh with
  | none => exact h.open_closed hfh
  | some handle =>
      rw [open_open hfh]
      exact h

/-- `write` behind its `open`: rotate if it is time, append, flush if it is time. -/
theorem Follows.write_open {log : Segments.Log String} (h : Follows settings self log)
    {handle : FileHandle} (hfh : self.fh = some handle) (line : String) :
    Follows settings (self.write settings line)
      (log.acts ((if self.shouldRotateBeforeWrite settings line.utf8ByteSize then [.roll] else [])
        ++ [.append line])) := by
  have hput : ∀ {next : RotatingJsonlEventWriter} {log' : Segments.Log String}
      {handle' : FileHandle},
      Follows settings next log' → next.fh = some handle' →
        Follows settings
          (if ((next.put line).totalEvents : ℤ) % max settings.flushEveryEvents 1 = 0 then
            (next.put line).flush else next.put line) (log'.act (.append line)) := by
    intro next log' handle' hnext hnextFh
    split
    · exact (hnext.put hnextFh line).flush
    · exact hnext.put hnextFh line
  unfold write
  rw [open_open hfh]
  by_cases hrotate : self.shouldRotateBeforeWrite settings line.utf8ByteSize = true
  · obtain ⟨handle', hhandle⟩ :=
      open_isSome settings { self.close with fileIndex := self.close.fileIndex + 1 }
    simp only [if_pos hrotate, Segments.Log.acts_append]
    exact hput (h.rotate hfh) hhandle
  · simp only [if_neg hrotate, List.nil_append]
    exact hput h hfh

/-- **Every call keeps the files the segments of the log.** -/
theorem Follows.call {log : Segments.Log String} (h : Follows settings self log)
    (c : WriterCall α) :
    Follows settings (self.call toJson settings c) (log.acts (actsOf toJson settings self c)) := by
  cases c with
  | open_ => exact h.open_
  | write event =>
      obtain ⟨handle, hhandle⟩ := open_isSome settings self
      have hwrite : self.call toJson settings (.write event)
          = (self.open_ settings).write settings (lineOf toJson event) := by
        show self.write settings _ = _
        unfold RotatingJsonlEventWriter.write
        rw [open_open hhandle]
      rw [hwrite, actsOf, List.append_assoc, Segments.Log.acts_append]
      exact h.open_.write_open hhandle _
  | close => exact h.close

/-- What a list of calls does to the log. -/
def actsOfCalls (toJson : α → String) (settings : WriterSettings) :
    RotatingJsonlEventWriter → List (WriterCall α) → List (Segments.Act String)
  | _, [] => []
  | self, c :: rest =>
      actsOf toJson settings self c ++
        actsOfCalls toJson settings (self.call toJson settings c) rest

theorem actsOfCalls_snoc (c : WriterCall α) : ∀ (l : List (WriterCall α))
    (self : RotatingJsonlEventWriter),
    actsOfCalls toJson settings self (l ++ [c]) = actsOfCalls toJson settings self l ++
      actsOf toJson settings (l.foldl (RotatingJsonlEventWriter.call toJson settings) self) c := by
  intro l
  induction l with
  | nil => intro self; simp [actsOfCalls]
  | cons d rest ih => intro self; simp [actsOfCalls, ih]

theorem calls_snoc (l : List (WriterCall α)) (c : WriterCall α) :
    calls toJson settings (l ++ [c]) = (calls toJson settings l).call toJson settings c := by
  simp [calls]

/-- The log of a list of calls on a new writer. -/
def logActs (toJson : α → String) (settings : WriterSettings) (l : List (WriterCall α)) :
    List (Segments.Act String) := actsOfCalls toJson settings {} l

theorem logActs_snoc (l : List (WriterCall α)) (c : WriterCall α) :
    logActs toJson settings (l ++ [c])
      = logActs toJson settings l ++ actsOf toJson settings (calls toJson settings l) c :=
  actsOfCalls_snoc c l {}

theorem follows_calls (l : List (WriterCall α)) :
    Follows settings (calls toJson settings l) (Segments.ofActs (logActs toJson settings l)) := by
  induction l using List.reverseRecOn with
  | nil => exact ⟨rfl, rfl, Or.inr ⟨rfl, rfl, rfl⟩, fun handle h => by simp [calls] at h⟩
  | append_singleton l c ih =>
      rw [calls_snoc, logActs_snoc, Segments.ofActs_append]
      exact ih.call c

/-! ### Which calls lose nothing -/

/-- The events written, in order. -/
def written (l : List (WriterCall α)) : List α :=
  l.filterMap fun
    | .write event => some event
    | _ => none

theorem written_snoc (l : List (WriterCall α)) (c : WriterCall α) :
    written (l ++ [c]) = written l ++ written [c] := List.filterMap_append

theorem appended_logActs (toJson : α → String) (settings : WriterSettings)
    (l : List (WriterCall α)) :
    Segments.appended (logActs toJson settings l) = (written l).map (lineOf toJson) := by
  induction l using List.reverseRecOn with
  | nil => rfl
  | append_singleton l c ih =>
      have hopen : ∀ w : RotatingJsonlEventWriter, Segments.appended w.openActs = [] := by
        intro w
        unfold openActs
        split <;> rfl
      rw [logActs_snoc, Segments.appended_append, ih, written_snoc, List.map_append]
      congr 1
      cases c with
      | open_ => exact hopen _
      | write event =>
          rw [actsOf, Segments.appended_append, Segments.appended_append, hopen]
          split <;> rfl
      | close => rfl

/-- A write, and a close after it. -/
def ClosedAfterWrite (l : List (WriterCall α)) : Prop :=
  ∃ before after, l = before ++ .close :: after ∧ written before ≠ []

/-- Once the writer is closed after a write, nothing but `close` follows. -/
def ClosedForGood (l : List (WriterCall α)) : Prop :=
  ∀ before after, l = before ++ .close :: after → written before ≠ [] → ∀ c ∈ after, c = .close

theorem closedForGood_snoc {l : List (WriterCall α)} {c : WriterCall α} :
    ClosedForGood (l ++ [c]) ↔ ClosedForGood l ∧ (ClosedAfterWrite l → c = .close) := by
  constructor
  · intro h
    refine ⟨fun before after hl hw d hd => ?_, ?_⟩
    · exact h before (after ++ [c]) (by simp [hl]) hw d (by simp [hd])
    · rintro ⟨before, after, hl, hw⟩
      exact h before (after ++ [c]) (by simp [hl]) hw c (by simp)
  · rintro ⟨h, hc⟩ before after hl hw d hd
    rcases List.eq_nil_or_concat after with rfl | ⟨after', e, rfl⟩
    · simp at hd
    · have hassoc : before ++ WriterCall.close :: (after' ++ [e])
          = (before ++ .close :: after') ++ [e] := by simp
      rw [List.concat_eq_append, hassoc] at hl
      obtain ⟨hfront, hlast⟩ := List.append_inj' hl rfl
      rw [List.concat_eq_append, List.mem_append, List.mem_singleton] at hd
      rcases hd with hd | rfl
      · exact h before after' hfront hw d hd
      · rw [← List.head_eq_of_cons_eq hlast]
        exact hc ⟨before, after', hfront, hw⟩

theorem closedAfterWrite_snoc {l : List (WriterCall α)} {c : WriterCall α} :
    ClosedAfterWrite (l ++ [c]) ↔ ClosedAfterWrite l ∨ c = .close ∧ written l ≠ [] := by
  constructor
  · rintro ⟨before, after, hl, hw⟩
    rcases List.eq_nil_or_concat after with rfl | ⟨after', e, rfl⟩
    · obtain ⟨rfl, hlast⟩ := List.append_inj' hl rfl
      exact Or.inr ⟨List.head_eq_of_cons_eq hlast, hw⟩
    · have hassoc : before ++ WriterCall.close :: (after' ++ [e])
          = (before ++ .close :: after') ++ [e] := by simp
      rw [List.concat_eq_append, hassoc] at hl
      exact Or.inl ⟨before, after', (List.append_inj' hl rfl).1, hw⟩
  · rintro (⟨before, after, hl, hw⟩ | ⟨rfl, hw⟩)
    · exact ⟨before, after ++ [c], by simp [hl], hw⟩
    · exact ⟨l, [], rfl, hw⟩

/-- Only a close leaves the writer closed. -/
theorem call_fh (self : RotatingJsonlEventWriter) (c : WriterCall α) :
    (self.call toJson settings c).fh = none ↔ c = .close := by
  have hflush : ∀ w : RotatingJsonlEventWriter, w.flush.fh = none ↔ w.fh = none := by
    intro w
    unfold flush
    split <;> simp_all
  cases c with
  | open_ =>
      obtain ⟨handle, hhandle⟩ := open_isSome settings self
      simp [call, hhandle]
  | write event =>
      have hrotated : ∀ b : Bool, ∃ handle, (if b then (self.open_ settings).rotate settings
          else self.open_ settings).fh = some handle := by
        intro b
        cases b with
        | true => exact open_isSome settings _
        | false => exact open_isSome settings self
      obtain ⟨handle, hhandle⟩ := hrotated ((self.open_ settings).shouldRotateBeforeWrite settings
        (lineOf toJson event).utf8ByteSize)
      have hput : ∀ w : RotatingJsonlEventWriter, w.fh = some handle →
          (if ((w.put (lineOf toJson event)).totalEvents : ℤ) % max settings.flushEveryEvents 1 = 0
            then (w.put (lineOf toJson event)).flush
            else w.put (lineOf toJson event)).fh ≠ none := by
        intro w hw
        have hwritten : (w.put (lineOf toJson event)).fh ≠ none := by
          simp [RotatingJsonlEventWriter.put, hw]
        split
        · rw [ne_eq, hflush]
          exact hwritten
        · exact hwritten
      have hopen : (self.call toJson settings (.write event)).fh ≠ none := hput _ hhandle
      simpa using hopen
  | close => simpa [call] using (close_frame self).2.2

/-- A writer that is closed with something written has been closed after a write. -/
theorem closed_iff (toJson : α → String) (settings : WriterSettings) {l : List (WriterCall α)}
    (h : ClosedForGood l) :
    (calls toJson settings l).fh = none ∧ written l ≠ [] ↔ ClosedAfterWrite l := by
  induction l using List.reverseRecOn with
  | nil =>
      constructor
      · rintro ⟨-, hw⟩
        exact absurd rfl hw
      · rintro ⟨before, after, hl, -⟩
        simp at hl
  | append_singleton l c ih =>
      obtain ⟨hl, hc⟩ := closedForGood_snoc.mp h
      rw [calls_snoc, call_fh, closedAfterWrite_snoc]
      constructor
      · rintro ⟨rfl, hw⟩
        refine Or.inr ⟨rfl, ?_⟩
        rw [written_snoc] at hw
        simpa [written] using hw
      · intro hclosed
        have hclose : c = .close := hclosed.elim hc And.left
        refine ⟨hclose, ?_⟩
        rw [written_snoc]
        rcases hclosed with hbefore | ⟨-, hw⟩
        · simp [((ih hl).mpr hbefore).2]
        · simp [hw]

/-- While nothing is lost, the last segment is empty only before the first write. -/
theorem current_eq_nil {l : List (WriterCall α)}
    (h : Segments.Kept (logActs toJson settings l)) :
    (Segments.ofActs (logActs toJson settings l)).current = [] ↔ written l = [] := by
  induction l using List.reverseRecOn with
  | nil => exact ⟨fun _ => rfl, fun _ => rfl⟩
  | append_singleton l c ih =>
      rw [logActs_snoc] at h ⊢
      rw [written_snoc]
      cases c with
      | open_ =>
          have hnone : written ([.open_] : List (WriterCall α)) = [] := rfl
          rw [actsOf, openActs] at h ⊢
          rw [hnone, List.append_nil]
          by_cases hfh : (calls toJson settings l).fh.isNone = true
          · rw [if_pos hfh] at h ⊢
            obtain ⟨hkept, hempty⟩ := Segments.kept_snoc.mp h
            rw [Segments.ofActs_append, ← ih hkept, hempty rfl]
            simp [Segments.Log.act]
          · rw [if_neg hfh, List.append_nil] at h ⊢
            exact ih h
      | write event =>
          rw [actsOf, ← List.append_assoc, Segments.ofActs_append]
          simp [Segments.Log.act, written]
      | close =>
          have hnone : written ([.close] : List (WriterCall α)) = [] := rfl
          rw [actsOf, List.append_nil] at h ⊢
          rw [hnone, List.append_nil]
          exact ih h

/-- Whether a further call restarts a segment that holds something. -/
theorem kept_logActs_snoc {l : List (WriterCall α)} {c : WriterCall α} :
    Segments.Kept (logActs toJson settings (l ++ [c])) ↔
      Segments.Kept (logActs toJson settings l) ∧
        (c ≠ .close → (calls toJson settings l).fh = none →
          (Segments.ofActs (logActs toJson settings l)).current = []) := by
  have hopen : Segments.Kept (logActs toJson settings l ++ (calls toJson settings l).openActs) ↔
      Segments.Kept (logActs toJson settings l) ∧ ((calls toJson settings l).fh = none →
        (Segments.ofActs (logActs toJson settings l)).current = []) := by
    unfold openActs
    cases hfh : (calls toJson settings l).fh with
    | none => simp [Segments.kept_snoc]
    | some handle => simp
  rw [logActs_snoc]
  cases c with
  | open_ => simpa [actsOf] using hopen
  | write event =>
      have hroll : ∀ (xs : List (Segments.Act String)) (b : Bool),
          Segments.Kept (xs ++ if b then [.roll] else []) ↔ Segments.Kept xs := by
        intro xs b
        cases b with
        | true => simp [Segments.kept_snoc]
        | false => simp
      rw [actsOf, ← List.append_assoc, Segments.kept_snoc, ← List.append_assoc, hroll, hopen]
      simp
  | close => simp [actsOf]

/-- **Nothing is lost exactly when a closed writer that has written is not used again.** -/
theorem kept_iff_closedForGood (l : List (WriterCall α)) :
    Segments.Kept (logActs toJson settings l) ↔ ClosedForGood l := by
  induction l using List.reverseRecOn with
  | nil =>
      constructor
      · intro _ before after hl
        simp at hl
      · intro _ before after hl
        simp [logActs, actsOfCalls] at hl
  | append_singleton l c ih =>
      rw [kept_logActs_snoc, closedForGood_snoc, ih]
      refine and_congr_right fun hgood => ?_
      rw [current_eq_nil (ih.mpr hgood), ← closed_iff toJson settings hgood]
      by_cases hclose : c = .close
      · simp [hclose]
      · simp only [hclose, ne_eq, not_false_eq_true, forall_const, imp_false, not_and, not_not]

/--
**A recording holds the lines of all events written, in order and each once, exactly when
the writer is closed for good: once it is closed after a write, it is neither opened nor
written to again.**
-/
theorem recording_complete_iff (toJson : α → String) (settings : WriterSettings)
    (l : List (WriterCall α)) :
    (calls toJson settings l).recording = (written l).map (lineOf toJson) ↔ ClosedForGood l := by
  rw [(follows_calls l).recording, ← appended_logActs toJson settings,
    Segments.contents_eq_iff, kept_iff_closedForGood]

/-- A write after the close, as a late heartbeat makes it, empties the file it goes to. -/
theorem recording_loses_before_late_write :
    let l : List (WriterCall String) := [.open_, .write "a", .close, .write "b", .close]
    let settings : WriterSettings := { path := ⟨"recording".toList, ".jsonl".toList⟩ }
    (calls id settings l).recording = ["b\n"] ∧
      (calls id settings l).recording ≠ (written l).map (lineOf id) := by
  decide +kernel

end RotatingJsonlEventWriter

end GhostAmm
