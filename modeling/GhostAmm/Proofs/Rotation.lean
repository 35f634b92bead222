/-
What a rotated recording is, read back.

While the writer is open its counters are the length and the bytes of the last file, so it
fills its files as a log fills its segments: the files of a run are the lines, cut where a
line finds the file before it full (`session_files`).  The limits are limits of that cut.

Reading a recording back goes by the names of the files, sorted as texts.  The number in a
name is padded to four digits, so names sort in the order of writing up to the file
numbered 9999 and not beyond it.
-/
import GhostAmm.Lib.Text
import GhostAmm.Proofs.Writer

namespace GhostAmm

/-! ### The names -/

/-- What `pathlib` promises of a suffix: none, or one that begins with its dot. -/
def RecordingPath.Dotted (path : RecordingPath) : Prop :=
  path.suffix = [] ∨ ∃ rest, path.suffix = '.' :: rest

theorem RecordingPath.numbered_pos (path : RecordingPath) {i : ℕ} (hi : i ≠ 0) :
    path.numbered i = path.stem ++ ('_' :: (Py.zeroPad 4 i ++ path.suffix)) := by
  unfold numbered
  rw [if_neg hi, List.append_assoc, List.cons_append]

theorem RecordingPath.numbered_lt {path : RecordingPath} (h : path.Dotted) {i j : ℕ}
    (hij : i < j) (hj : j < 10000) : path.numbered i < path.numbered j := by
  rw [path.numbered_pos (show j ≠ 0 by omega)]
  by_cases hi : i = 0
  · subst hi
    show path.stem ++ path.suffix < _
    apply List.append_left_lt
    rcases h with hnone | ⟨rest, hdot⟩
    · rw [hnone]
      exact List.nil_lt_cons _ _
    · rw [hdot]
      exact List.cons_lt_cons_iff.mpr (Or.inl (by decide))
  · rw [path.numbered_pos hi]
    refine List.append_left_lt (List.cons_lt_cons_iff.mpr (Or.inr ⟨rfl, ?_⟩))
    refine Py.append_lt_append _ _ ?_ (Py.zeroPad_lt_zeroPad hij hj)
    rw [Py.length_zeroPad (show i < 10 ^ 4 by omega), Py.length_zeroPad (show j < 10 ^ 4 by omega)]

/-- A fifth digit sorts by the first. -/
theorem RecordingPath.numbered_tenThousand (path : RecordingPath) :
    path.numbered 10000 < path.numbered 9999 := by
  have hten : Py.zeroPad 4 10000 = ['1', '0', '0', '0', '0'] := by decide +kernel
  have hnines : Py.zeroPad 4 9999 = ['9', '9', '9', '9'] := by decide +kernel
  rw [path.numbered_pos (by decide), path.numbered_pos (by decide), hten, hnines]
  refine List.append_left_lt (List.cons_lt_cons_iff.mpr (Or.inr ⟨rfl, ?_⟩))
  exact List.cons_lt_cons_iff.mpr (Or.inl (by decide))

theorem insertionSort_eq_iff {α : Type} [LinearOrder α] {l : List α} :
    l.insertionSort (· ≤ ·) = l ↔ l.Pairwise (· ≤ ·) := by
  constructor
  · intro h
    rw [← h]
    exact List.pairwise_insertionSort _ _
  · exact List.Pairwise.insertionSort_eq

/-- **The names of the first files sort in their order exactly up to ten thousand files.** -/
theorem RecordingPath.sorted_iff {path : RecordingPath} (h : path.Dotted) (n : ℕ) :
    ((List.range n).map path.numbered).insertionSort (· ≤ ·) = (List.range n).map path.numbered ↔
      n ≤ 10000 := by
  rw [insertionSort_eq_iff, List.pairwise_map]
  constructor
  · intro hsorted
    by_contra hmany
    rw [List.pairwise_iff_getElem] at hsorted
    have hle := hsorted 9999 10000 (by rw [List.length_range]; omega)
      (by rw [List.length_range]; omega) (by omega)
    rw [List.getElem_range, List.getElem_range] at hle
    exact absurd hle (not_le.mpr path.numbered_tenThousand)
  · intro hfew
    rw [List.pairwise_iff_getElem]
    intro i j hi hj hij
    rw [List.length_range] at hj
    rw [List.getElem_range, List.getElem_range]
    exact (path.numbered_lt h hij (by omega)).le

/-! ### The counters -/

/-- The bytes of some lines. -/
def bytesOf (lines : List String) : ℕ := (lines.map String.utf8ByteSize).sum

/-- A line finds the file before it full. -/
def WriterSettings.full (settings : WriterSettings) (piece : List String) (line : String) : Bool :=
  if piece.length = 0 then false
  else if settings.rotateEveryEvents.any fun (limit : ℤ) => decide (limit ≤ piece.length) then true
  else settings.rotateEveryBytes.any fun (limit : ℤ) =>
    decide (limit < bytesOf piece + line.utf8ByteSize)

namespace RotatingJsonlEventWriter

variable {settings : WriterSettings} {self : RotatingJsonlEventWriter} {α : Type}
  {toJson : α → String}

/-- The counters of an open writer are those of the last file. -/
structure Counts (w : RotatingJsonlEventWriter) (log : Segments.Log String) : Prop where
  events : w.currentEvents = log.current.length
  bytes : w.currentBytes = bytesOf log.current
  isOpen : ∃ handle, w.fh = some handle

theorem Counts.shouldRotate {log : Segments.Log String} (h : Counts self log) (line : String) :
    self.shouldRotateBeforeWrite settings line.utf8ByteSize = settings.full log.current line := by
  unfold shouldRotateBeforeWrite WriterSettings.full
  rw [h.events, h.bytes]

theorem Counts.open_closed (h : self.fh = none) {log : Segments.Log String}
    (hlog : log.current = []) : Counts (self.open_ settings) log := by
  rw [RotatingJsonlEventWriter.open_closed settings h]
  exact ⟨by rw [hlog]; rfl, by rw [hlog]; rfl, _, rfl⟩

theorem Counts.put {log : Segments.Log String} (h : Counts self log) (line : String) :
    Counts (self.put line) (log.act (.append line)) := by
  obtain ⟨handle, hfh⟩ := h.isOpen
  refine ⟨?_, ?_, ?_⟩
  · show self.currentEvents + 1 = (log.current ++ [line]).length
    rw [h.events, List.length_append, List.length_singleton]
  · show self.currentBytes + line.utf8ByteSize = bytesOf (log.current ++ [line])
    rw [h.bytes, bytesOf, bytesOf, List.map_append, List.sum_append]
    simp
  · unfold RotatingJsonlEventWriter.put
    rw [hfh]
    exact ⟨_, rfl⟩

theorem Counts.flush {log : Segments.Log String} (h : Counts self log) :
    Counts self.flush log := by
  obtain ⟨handle, hfh⟩ := h.isOpen
  unfold RotatingJsonlEventWriter.flush
  rw [hfh]
  exact ⟨h.events, h.bytes, _, rfl⟩

/-- **A write fills the log.** -/
theorem write_fills {log : Segments.Log String} (h : Follows settings self log)
    (hc : Counts self log) (line : String) :
    Follows settings (self.write settings line) (log.fill settings.full line) ∧
      Counts (self.write settings line) (log.fill settings.full line) := by
  obtain ⟨handle, hfh⟩ := hc.isOpen
  refine ⟨?_, ?_⟩
  · have hwrite := h.write_open hfh line
    rw [hc.shouldRotate line] at hwrite
    exact hwrite
  · have hput : ∀ {next : RotatingJsonlEventWriter} {log' : Segments.Log String},
        Counts next log' → Counts
          (if ((next.put line).totalEvents : ℤ) % max settings.flushEveryEvents 1 = 0 then
            (next.put line).flush else next.put line) (log'.act (.append line)) := by
      intro next log' hnext
      split
      · exact (hnext.put line).flush
      · exact hnext.put line
    unfold write Segments.Log.fill
    rw [open_open hfh]
    simp only [hc.shouldRotate line]
    by_cases hfull : settings.full log.current line = true
    · simp only [if_pos hfull]
      have hrolled : Counts (self.rotate settings) (log.act .roll) := by
        refine Counts.open_closed ?_ rfl
        exact (close_frame self).2.2
      exact hput hrolled
    · simp only [if_neg hfull]
      exact hput hc

/-! ### A run -/

/-- A run: the writer is opened, writes the events and is closed. -/
def session (events : List α) : List (WriterCall α) :=
  .open_ :: events.map WriterCall.write ++ [.close]

theorem writes_fill : ∀ (events : List α) {w : RotatingJsonlEventWriter}
    {log : Segments.Log String}, Follows settings w log → Counts w log →
    Follows settings ((events.map WriterCall.write).foldl (call toJson settings) w)
        ((events.map (lineOf toJson)).foldl (Segments.Log.fill settings.full) log) ∧
      Counts ((events.map WriterCall.write).foldl (call toJson settings) w)
        ((events.map (lineOf toJson)).foldl (Segments.Log.fill settings.full) log) := by
  intro events
  induction events with
  | nil => intro w log h hc; exact ⟨h, hc⟩
  | cons event rest ih =>
      intro w log h hc
      obtain ⟨hnext, hnextCounts⟩ := write_fills h hc (lineOf toJson event)
      exact ih hnext hnextCounts

/-- The lines of a run, cut into files. -/
def piecesOf (toJson : α → String) (settings : WriterSettings) (events : List α) :
    List (List String) := Segments.cut settings.full [] (events.map (lineOf toJson))

/-- **The files of a run are its lines, cut where a line finds the file before it full.** -/
theorem session_files (toJson : α → String) (settings : WriterSettings) (events : List α) :
    (calls toJson settings (session events)).opened
        = (List.range (piecesOf toJson settings events).length).map settings.path.numbered ∧
      (calls toJson settings (session events)).opened.map
          (calls toJson settings (session events)).files.lines
        = piecesOf toJson settings events := by
  have hnew : Follows settings (({} : RotatingJsonlEventWriter).open_ settings) {} :=
    (@follows_calls settings α toJson []).open_closed rfl
  have hcounts : Counts (({} : RotatingJsonlEventWriter).open_ settings) {} :=
    Counts.open_closed rfl rfl
  obtain ⟨hwritten, hcounts⟩ := @writes_fill settings α toJson events _ _ hnew hcounts
  have hsegments := @Segments.segments_fills _ settings.full (events.map (lineOf toJson)) {}
  have hcalls : calls toJson settings (session events) = ((events.map WriterCall.write).foldl
      (call toJson settings) (({} : RotatingJsonlEventWriter).open_ settings)).close := by
    unfold calls session
    rw [List.foldl_append]
    rfl
  rw [hcalls]
  generalize (events.map WriterCall.write).foldl (call toJson settings)
    (({} : RotatingJsonlEventWriter).open_ settings) = w at *
  generalize (events.map (lineOf toJson)).foldl (Segments.Log.fill settings.full) {} = log at *
  obtain ⟨hindex, hpaths, hclosed⟩ := close_frame w
  obtain ⟨handle, hfh⟩ := hcounts.isOpen
  have hopened : w.close.opened
      = (List.range (w.fileIndex + 1)).map settings.path.numbered := by
    rcases hwritten.opened with hopened | ⟨hnone, -⟩
    · unfold RotatingJsonlEventWriter.opened
      rw [hpaths]
      exact hopened
    · exact absurd hnone (hwritten.handle handle hfh).2
  have hlines : w.close.opened.map w.close.files.lines = log.segments := by
    rw [hopened, List.map_map]
    have hfile : ∀ path, w.close.files.lines path = w.linesOf path := fun path => by
      rw [← linesOf_closed hclosed, linesOf_close]
    simp only [Function.comp_def, hfile]
    rw [List.range_succ, List.map_append, hwritten.sealed, List.map_singleton, hwritten.current]
    rfl
  have hpieces : log.segments = piecesOf toJson settings events := hsegments
  have hcount : w.fileIndex + 1 = (piecesOf toJson settings events).length := by
    rw [← hpieces, ← hlines, List.length_map, hopened, List.length_map, List.length_range]
  exact ⟨by rw [hopened, hcount], hlines.trans hpieces⟩

/-- The limits of a file: no more events than asked for, and no more bytes unless it holds a
single event. -/
structure WithinLimits (settings : WriterSettings) (lines : List String) : Prop where
  events : ∀ limit ∈ settings.rotateEveryEvents, 1 ≤ limit → (lines.length : ℤ) ≤ limit
  bytes : ∀ limit ∈ settings.rotateEveryBytes, (bytesOf lines : ℤ) ≤ limit ∨ lines.length = 1

theorem WithinLimits.one (settings : WriterSettings) (line : String) :
    WithinLimits settings [line] where
  events limit _ h := by simpa using h
  bytes limit _ := Or.inr rfl

/-- A line that does not find the file full stays within the limits. -/
theorem WithinLimits.add {piece : List String} {line : String} (hpiece : piece ≠ [])
    (h : settings.full piece line = false) : WithinLimits settings (piece ++ [line]) := by
  have hlen : ¬ piece.length = 0 := fun hzero => hpiece (List.length_eq_zero_iff.mp hzero)
  unfold WriterSettings.full at h
  rw [if_neg hlen] at h
  split at h
  · cases h
  · rename_i hevents
    refine ⟨fun limit hlimit _ => ?_, fun limit hlimit => Or.inl ?_⟩
    · rw [Option.mem_def] at hlimit
      rw [hlimit] at hevents
      have hbelow : ¬ limit ≤ piece.length := by simpa using hevents
      rw [List.length_append, List.length_singleton]
      push_cast
      omega
    · rw [Option.mem_def] at hlimit
      rw [hlimit] at h
      have hbelow : ¬ limit < bytesOf piece + line.utf8ByteSize := by simpa using h
      have hbytes : bytesOf (piece ++ [line]) = bytesOf piece + line.utf8ByteSize := by
        simp [bytesOf]
      rw [hbytes]
      push_cast
      omega

/-- **The files of a run that writes something are within the limits.** -/
theorem pieces_withinLimits (toJson : α → String) (settings : WriterSettings) {events : List α}
    (h : events ≠ []) : ∀ piece ∈ piecesOf toJson settings events, WithinLimits settings piece := by
  obtain ⟨event, rest, rfl⟩ := List.exists_cons_of_ne_nil h
  have hfirst : piecesOf toJson settings (event :: rest)
      = Segments.cut settings.full [lineOf toJson event] (rest.map (lineOf toJson)) := rfl
  rw [hfirst]
  intro piece hpiece
  refine (Segments.forall_mem_cut (P := fun piece => WithinLimits settings piece ∧ piece ≠ [])
    (fun line => ⟨WithinLimits.one settings line, List.cons_ne_nil _ _⟩)
    (fun piece line hpiece hfull => ⟨WithinLimits.add hpiece.2 hfull, by simp⟩) _ _
    ⟨WithinLimits.one settings _, List.cons_ne_nil _ _⟩ piece hpiece).1

/-- The files read in the order of their names are the lines, and that is the order of
writing. -/
structure ReadsBack (w : RotatingJsonlEventWriter) (lines : List String) : Prop where
  sorted : w.opened.insertionSort (· ≤ ·) = w.opened
  content : (w.opened.insertionSort (· ≤ ·)).flatMap w.files.lines = lines

/-- **A run reads back by its file names, within its limits, exactly when it fills at most ten
thousand files** and does not leave an empty file below a negative limit of bytes. -/
theorem rotated_run_iff (toJson : α → String) (settings : WriterSettings) (events : List α)
    (hpath : settings.path.Dotted) :
    (ReadsBack (calls toJson settings (session events)) (events.map (lineOf toJson)) ∧
        ∀ path ∈ (calls toJson settings (session events)).opened,
          WithinLimits settings ((calls toJson settings (session events)).files.lines path)) ↔
      (piecesOf toJson settings events).length ≤ 10000 ∧
        (events = [] → ∀ limit ∈ settings.rotateEveryBytes, 0 ≤ limit) := by
  obtain ⟨hopened, hlines⟩ := session_files toJson settings events
  generalize calls toJson settings (session events) = w at hopened hlines
  have hsorted : w.opened.insertionSort (· ≤ ·) = w.opened ↔
      (piecesOf toJson settings events).length ≤ 10000 := by
    rw [hopened]
    exact settings.path.sorted_iff hpath _
  have hlimits : (∀ path ∈ w.opened, WithinLimits settings (w.files.lines path)) ↔
      ∀ piece ∈ piecesOf toJson settings events, WithinLimits settings piece := by
    rw [← hlines, List.forall_mem_map]
  rw [hlimits]
  constructor
  · rintro ⟨hback, hwithin⟩
    refine ⟨hsorted.mp hback.sorted, ?_⟩
    rintro rfl limit hlimit
    have hempty := (hwithin [] (List.mem_singleton_self _)).bytes limit hlimit
    simpa [bytesOf] using hempty
  · rintro ⟨hfew, hnone⟩
    refine ⟨⟨hsorted.mpr hfew, ?_⟩, ?_⟩
    · rw [hsorted.mpr hfew, List.flatMap_def, hlines]
      exact Segments.flatten_cut _ []
    · by_cases hevents : events = []
      · subst hevents
        intro piece hpiece
        rw [List.mem_singleton.mp hpiece]
        refine ⟨fun limit _ h => by simpa using (zero_le_one.trans h), fun limit hlimit => ?_⟩
        exact Or.inl (by simpa [bytesOf] using hnone rfl limit hlimit)
      · exact pieces_withinLimits toJson settings hevents

/-- A recording with a file for each event. -/
def eachInItsFile : WriterSettings where
  path := ⟨"recording".toList, ".jsonl".toList⟩
  rotateEveryEvents := some 1

theorem rotated_run_of_three :
    ReadsBack (calls id eachInItsFile (session ["a", "b", "c"]))
        (["a", "b", "c"].map (lineOf id)) ∧
      ∀ path ∈ (calls id eachInItsFile (session ["a", "b", "c"])).opened, WithinLimits eachInItsFile
        ((calls id eachInItsFile (session ["a", "b", "c"])).files.lines path) :=
  (rotated_run_iff id eachInItsFile ["a", "b", "c"] (Or.inr ⟨"jsonl".toList, rfl⟩)).mpr
    ⟨by decide +kernel, fun h => by cases h⟩

theorem length_pieces_eachInItsFile (event : String) : ∀ rest : List String,
    (piecesOf id eachInItsFile (event :: rest)).length = rest.length + 1 := by
  intro rest
  induction rest generalizing event with
  | nil => rfl
  | cons next rest ih =>
      have hcut : piecesOf id eachInItsFile (event :: next :: rest)
          = [lineOf id event] :: piecesOf id eachInItsFile (next :: rest) := rfl
      rw [hcut, List.length_cons, ih, List.length_cons]

/-- With more than ten thousand files the names no longer sort in the order of writing. -/
theorem rotated_run_of_tenThousandOne :
    ¬ ∀ (settings : WriterSettings) (events : List String), settings.path.Dotted →
      ReadsBack (calls id settings (session events)) (events.map (lineOf id)) ∧
        ∀ path ∈ (calls id settings (session events)).opened,
          WithinLimits settings ((calls id settings (session events)).files.lines path) := by
  intro h
  have hback := (h eachInItsFile ("a" :: List.replicate 10000 "a")
    (Or.inr ⟨"jsonl".toList, rfl⟩)).1.sorted
  rw [(session_files id eachInItsFile _).1, RecordingPath.sorted_iff (Or.inr ⟨_, rfl⟩),
    length_pieces_eachInItsFile, List.length_replicate] at hback
  omega

end RotatingJsonlEventWriter

end GhostAmm
