/-
The recording writer (`recorder/jsonl_writer.py`).

The writer is modelled together with the directory it writes to.  A file is the list of the
lines in it, and the lines written to an open file wait in its handle until it is flushed:
what a reader finds meanwhile is the file and some of the lines waiting.  An event is
whatever has a text to write it as, so the writer is stated for any type of event and any
`to_json`.
-/
import GhostAmm.Lib.Python
import GhostAmm.Lib.Table

namespace GhostAmm

/-- A file name in the directory of the recording: `path.stem` and `path.suffix`. -/
structure RecordingPath where
  stem : List Char
  suffix : List Char

namespace RecordingPath

/-- `path.name`. -/
def name (path : RecordingPath) : List Char := path.stem ++ path.suffix

/-- `current_path`, for a file index. -/
def numbered (path : RecordingPath) (fileIndex : ℕ) : List Char :=
  if fileIndex = 0 then path.name
  else path.stem ++ '_' :: Py.zeroPad 4 fileIndex ++ path.suffix

end RecordingPath

/-- The arguments of `RotatingJsonlEventWriter`. -/
structure WriterSettings where
  path : RecordingPath
  rotateEveryEvents : Option ℤ := none
  rotateEveryBytes : Option ℤ := none
  flushEveryEvents : ℤ := 1

/-- An open file: its name and the lines that are not flushed yet. -/
structure FileHandle where
  path : List Char
  waiting : List String
  deriving DecidableEq

/-- A directory: the lines of each file, by name. -/
abbrev Directory := Py.Table (Prod.fst : List Char × List String → List Char)

/-- `RotatingJsonlEventWriter`, less its settings, and the directory it writes to. -/
structure RotatingJsonlEventWriter where
  totalEvents : ℕ := 0
  currentEvents : ℕ := 0
  currentBytes : ℕ := 0
  fileIndex : ℕ := 0
  paths : List (List Char) := []
  fh : Option FileHandle := none
  files : Directory := Py.Table.empty

/-- The lines of a file; a file that was never opened has none. -/
def Directory.lines (files : Directory) (path : List Char) : List String :=
  ((files.get? path).map Prod.snd).getD []

namespace RotatingJsonlEventWriter

/-- `open`: the file of the current index, emptied. -/
def open_ (settings : WriterSettings) (self : RotatingJsonlEventWriter) :
    RotatingJsonlEventWriter :=
  match self.fh with
  | some _ => self
  | none =>
      let path := settings.path.numbered self.fileIndex
      { self with
        paths := self.paths ++ [path], fh := some ⟨path, []⟩, files := self.files.put (path, []),
        currentEvents := 0, currentBytes := 0 }

/-- `self._fh.flush()`. -/
def flush (self : RotatingJsonlEventWriter) : RotatingJsonlEventWriter :=
  match self.fh with
  | none => self
  | some handle =>
      { self with
        fh := some { handle with waiting := [] },
        files := self.files.put (handle.path, self.files.lines handle.path ++ handle.waiting) }

/-- `close`. -/
def close (self : RotatingJsonlEventWriter) : RotatingJsonlEventWriter :=
  match self.fh with
  | none => self
  | some _ => { self.flush with fh := none }

/-- `_should_rotate_before_write`. -/
def shouldRotateBeforeWrite (settings : WriterSettings) (self : RotatingJsonlEventWriter)
    (nextBytes : ℕ) : Bool :=
  if self.currentEvents = 0 then false
  else if settings.rotateEveryEvents.any fun (limit : ℤ) => decide (limit ≤ self.currentEvents) then
    true
  else settings.rotateEveryBytes.any fun (limit : ℤ) =>
    decide (limit < self.currentBytes + nextBytes)

/-- `_rotate`. -/
def rotate (settings : WriterSettings) (self : RotatingJsonlEventWriter) :
    RotatingJsonlEventWriter :=
  { self.close with fileIndex := self.close.fileIndex + 1 }.open_ settings

/-- `self._fh.write(line)` and the counters after it. -/
def put (self : RotatingJsonlEventWriter) (line : String) : RotatingJsonlEventWriter :=
  { self with
    fh := self.fh.map fun handle => { handle with waiting := handle.waiting ++ [line] },
    totalEvents := self.totalEvents + 1,
    currentEvents := self.currentEvents + 1,
    currentBytes := self.currentBytes + line.utf8ByteSize }

/-- `write`, for the line an event is written as. -/
def write (settings : WriterSettings) (self : RotatingJsonlEventWriter) (line : String) :
    RotatingJsonlEventWriter :=
  let self := self.open_ settings
  let self :=
    if self.shouldRotateBeforeWrite settings line.utf8ByteSize then self.rotate settings else self
  let self := self.put line
  if (self.totalEvents : ℤ) % max settings.flushEveryEvents 1 = 0 then self.flush else self

end RotatingJsonlEventWriter

/-- A call on the writer. -/
inductive WriterCall (α : Type) where
  | open_
  | write (event : α)
  | close

namespace RotatingJsonlEventWriter

/-- `event.to_json() + "\n"`. -/
def lineOf {α : Type} (toJson : α → String) (event : α) : String := toJson event ++ "\n"

def call {α : Type} (toJson : α → String) (settings : WriterSettings)
    (self : RotatingJsonlEventWriter) : WriterCall α → RotatingJsonlEventWriter
  | .open_ => self.open_ settings
  | .write event => self.write settings (lineOf toJson event)
  | .close => self.close

/-- The writer after a list of calls. -/
def calls {α : Type} (toJson : α → String) (settings : WriterSettings) (l : List (WriterCall α)) :
    RotatingJsonlEventWriter := l.foldl (call toJson settings) {}

/-- The files in the order in which they were first opened. -/
def opened (self : RotatingJsonlEventWriter) : List (List Char) := self.paths.eraseDups

/-- A file as it will be once its handle is flushed. -/
def linesOf (self : RotatingJsonlEventWriter) (path : List Char) : List String :=
  self.files.lines path ++ ((self.fh.filter fun handle => decide (handle.path = path)).map
    FileHandle.waiting).getD []

/-- The files one after the other. -/
def recording (self : RotatingJsonlEventWriter) : List String :=
  self.opened.flatMap self.linesOf

end RotatingJsonlEventWriter

end GhostAmm
