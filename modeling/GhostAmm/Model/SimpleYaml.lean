/-
The built-in YAML parser (`_parse_simple_yaml` in `config.py`).

A stack of indentations holds the containers that are still open, and a line is put into the
innermost one that it is indented further than.  A key without a value opens a dictionary.  If
the first line under it turns out to be a list item, a list takes the place of that dictionary,
which stays on the stack but leads nowhere any more.

The containers are objects that are changed in place, through the stack and through the dictionary
they are in, so they are cells of a heap here and are referred to by number.  The root is the
first cell, and its entry on the stack, at -1, is never popped.  A number with a point or an
exponent is read by `float`, a parameter.
-/
import GhostAmm.Lib.IntText
import GhostAmm.Lib.Lines
import GhostAmm.Lib.Tree

namespace GhostAmm

open Py (Json)

/-- What stands under a key: a value, or the cell of a container. -/
inductive YamlSlot where
  | value (value : Json)
  | ref (cell : ℕ)

/-- A container; only scalars are ever put into a list. -/
inductive YamlCell where
  | dict (fields : List (String × YamlSlot))
  | list (items : List Json)

/-- The variables of the loop, with the containers they lead to. -/
structure YamlState where
  heap : List YamlCell
  stack : List (ℤ × ℕ)
  pendingKey : Option (ℤ × ℕ × String)

/-- `_parse_scalar`. -/
def parseScalar (float : String → Option ℚ) (value : List Char) : Json :=
  if value.head? = some '"' ∧ value.getLast? = some '"' then
    .str (String.ofList value.tail.dropLast)
  else if value.head? = some '\'' ∧ value.getLast? = some '\'' then
    .str (String.ofList value.tail.dropLast)
  else
    let lower := value.map Char.toLower
    if lower = "true".toList then .bool true
    else if lower = "false".toList then .bool false
    else if lower = "null".toList then .null
    else if value.any fun c => decide (c ∈ ['.', 'e', 'E']) then
      match float (String.ofList value) with
      | some number => .float number
      | none => .str (String.ofList value)
    else
      match Py.intOfText (String.ofList value) with
      | some number => .int number
      | none => .str (String.ofList value)

/-- A line without its comment: its indentation and what is on it, if anything is. -/
def readLine (rawLine : List Char) : Option (ℕ × List Char) :=
  let line := Py.rstrip (rawLine.takeWhile fun c => decide (c ≠ '#'))
  if Py.strip line = [] then none
  else some (line.length - (line.dropWhile fun c => decide (c = ' ')).length, Py.strip line)

namespace YamlState

/-- Before the first line there is the root. -/
def init : YamlState := ⟨[.dict []], [(-1, 0)], none⟩

/-- The containers a line at this indentation can be put into. -/
def popTo (self : YamlState) (indent : ℤ) : List (ℤ × ℕ) :=
  self.stack.dropWhile fun entry => decide (indent ≤ entry.1)

/-- `stack[-1][1]`. -/
def innermost (stack : List (ℤ × ℕ)) : ℕ := (stack.headD (-1, 0)).2

/-- `mapping[key] = slot`. -/
def setKey (heap : List YamlCell) (mapping : ℕ) (key : String) (slot : YamlSlot) :
    List YamlCell :=
  heap.modify mapping fun cell =>
    match cell with
    | .dict fields => .dict (Py.upsert Prod.fst (key, slot) fields)
    | .list items => .list items

/-- The list a first item under a pending key opens. -/
def openList (self : YamlState) (indent : ℤ) : YamlState :=
  match self.pendingKey with
  | some (pendingIndent, mapping, key) =>
      if pendingIndent = indent then
        { heap := setKey self.heap mapping key (.ref self.heap.length) ++ [.list []]
          stack := (indent - 1, self.heap.length) :: self.stack
          pendingKey := none }
      else self
  | none => self

/-- A line that begins with a dash. -/
def listItem (float : String → Option ℚ) (self : YamlState) (rawLine : List Char) (indent : ℤ)
    (item : List Char) : Except Py.Error YamlState :=
  let opened := self.openList indent
  let parent := innermost opened.stack
  match opened.heap[parent]? with
  | some (.list items) =>
      .ok { opened with
        heap := opened.heap.set parent
          (.list (items ++ [parseScalar float (Py.strip (item.drop 2))])) }
  | _ => .error (.valueError
      ("YAML list item without list parent: " ++ String.ofList rawLine))

/-- A line with a key. -/
def mappingItem (float : String → Option ℚ) (self : YamlState) (rawLine : List Char)
    (indent : ℤ) (item : List Char) : Except Py.Error YamlState :=
  if ':' ∉ item then .error (.valueError ("Unsupported YAML line: " ++ String.ofList rawLine))
  else
    let key := String.ofList (Py.strip (item.takeWhile fun c => decide (c ≠ ':')))
    let value := Py.strip ((item.dropWhile fun c => decide (c ≠ ':')).drop 1)
    let parent := innermost self.stack
    match self.heap[parent]? with
    | some (.dict _) =>
        if value = [] then
          .ok
            { heap := setKey self.heap parent key (.ref self.heap.length) ++ [.dict []]
              stack := (indent, self.heap.length) :: self.stack
              pendingKey := some (indent + 2, parent, key) }
        else
          .ok { self with
            heap := setKey self.heap parent key (.value (parseScalar float value))
            pendingKey := none }
    | _ => .error (.valueError
        ("YAML mapping item without mapping parent: " ++ String.ofList rawLine))

/-- The body of the loop. -/
def parseLine (float : String → Option ℚ) (self : YamlState) (rawLine : List Char) :
    Except Py.Error YamlState :=
  match readLine rawLine with
  | none => .ok self
  | some (indent, item) =>
      let popped := { self with stack := self.popTo indent }
      if ['-', ' '].isPrefixOf item then popped.listItem float rawLine indent item
      else popped.mappingItem float rawLine indent item

end YamlState

/-- The value a slot leads to.  A container only leads to later ones, so the number of cells is
steps enough. -/
def readSlot (heap : List YamlCell) : ℕ → YamlSlot → Json
  | _, .value value => value
  | 0, .ref _ => .null
  | steps + 1, .ref cell =>
      match heap[cell]? with
      | some (.dict fields) => .obj (fields.map fun f => (f.1, readSlot heap steps f.2))
      | some (.list items) => .arr items
      | none => .null

/-- `_parse_simple_yaml`. -/
def parseSimpleYaml (float : String → Option ℚ) (text : List Char) : Except Py.Error Json := do
  let state ← (Py.splitLines text).foldlM (YamlState.parseLine float) YamlState.init
  return readSlot state.heap state.heap.length (.ref 0)

end GhostAmm
