/-
JSON as text.

`dumps` writes a decoded value the way Python's `json.dumps` does with sorted keys, compactly or
with a space after each separator, in ASCII or not; `loads` is Python's decoder, which reads one
piece at a time and leaves the rest.

How a float is written and read is a parameter: `repr` and `float`.  Not a number and the
infinities are no values here, and neither is half a surrogate pair, which only Python's texts can
hold.  An integer may have any number of digits, where Python raises beyond `maxStrDigits`, in
writing as in reading.
-/
import GhostAmm.Lib.IntText
import GhostAmm.Lib.Text
import GhostAmm.Lib.Tree

namespace Py

/-- What `json.loads` raises. -/
inductive DecodeError where
  | unterminatedString
  | invalidControlCharacter
  | invalidEscape
  | invalidUnicodeEscape
  | loneSurrogate
  | expectingValue
  | expectingPropertyName
  | expectingColon
  | expectingComma
  | extraData
  | nonFinite
  | outOfFuel
  deriving DecidableEq

/-- `float.__repr__`, and `float` of a text that is a number. -/
structure FloatText where
  repr : ℚ → List Char
  read : List Char → Option ℚ

/-- What JSON takes for space. -/
def isJsonSpace (c : Char) : Bool := decide (c ∈ [' ', '\t', '\n', '\r'])

/-- How values are written: the space after a separator, and whether only ASCII is used. -/
structure JsonStyle where
  gap : List Char
  gap_space : ∀ c ∈ gap, isJsonSpace c = true
  ensureAscii : Bool

/-- `separators=(",", ":"), ensure_ascii=False`. -/
def JsonStyle.compact : JsonStyle := ⟨[], by simp, false⟩

/-- What `json.dumps` does by itself. -/
def JsonStyle.default : JsonStyle := ⟨[' '], by simp [isJsonSpace], true⟩

namespace JsonText

/-! ### Writing -/

/-- Four hexadecimal digits. -/
def hex4 (n : ℕ) : List Char :=
  [n / 4096 % 16, n / 256 % 16, n / 16 % 16, n % 16].map Nat.digitChar

/-- `\uXXXX`, twice for a character beyond the first plane. -/
def unicodeEscape (n : ℕ) : List Char :=
  if n < 0x10000 then '\\' :: 'u' :: hex4 n
  else '\\' :: 'u' :: hex4 (0xd800 + (n - 0x10000) / 0x400) ++
    '\\' :: 'u' :: hex4 (0xdc00 + (n - 0x10000) % 0x400)

/-- The characters with a short escape. -/
def shortEscapes : List (Char × Char) :=
  [('"', '"'), ('\\', '\\'), ('\n', 'n'), ('\r', 'r'), ('\t', 't'), ('\x08', 'b'), ('\x0c', 'f')]

/-- A character of a text. -/
def escape (ensureAscii : Bool) (c : Char) : List Char :=
  match shortEscapes.find? fun e => decide (e.1 = c) with
  | some (_, short) => ['\\', short]
  | none =>
      if c.toNat < 0x20 || ensureAscii && decide (0x7f ≤ c.toNat) then unicodeEscape c.toNat
      else [c]

/-- A text. -/
def quoted (ensureAscii : Bool) (text : String) : List Char :=
  '"' :: text.toList.flatMap (escape ensureAscii) ++ ['"']

/-- The parts of a list or a dictionary. -/
def joined (style : JsonStyle) (parts : List (List Char)) : List Char :=
  (parts.intersperse (',' :: style.gap)).flatten

mutual

/-- `json.dumps(value, sort_keys=True)`. -/
def dumps (floats : FloatText) (style : JsonStyle) : Json → List Char
  | .null => "null".toList
  | .bool true => "true".toList
  | .bool false => "false".toList
  | .int value => intText value
  | .float value => floats.repr value
  | .str text => quoted style.ensureAscii text
  | .arr items => '[' :: joined style (dumpsItems floats style items) ++ [']']
  | .obj fields =>
      '{' :: joined style
        (((dumpsFields floats style fields).insertionSort fun f g => f.1 ≤ g.1).map fun f =>
          quoted style.ensureAscii f.1 ++ ':' :: style.gap ++ f.2) ++ ['}']

def dumpsItems (floats : FloatText) (style : JsonStyle) : List Json → List (List Char)
  | [] => []
  | item :: rest => dumps floats style item :: dumpsItems floats style rest

def dumpsFields (floats : FloatText) (style : JsonStyle) :
    List (String × Json) → List (String × List Char)
  | [] => []
  | (key, value) :: rest => (key, dumps floats style value) :: dumpsFields floats style rest

end

/-! ### Reading -/

def skipSpace (text : List Char) : List Char := text.dropWhile isJsonSpace

/-- A hexadecimal digit. -/
def hexValue (c : Char) : Option ℕ :=
  if c.isDigit then some (c.toNat - '0'.toNat)
  else if 'a' ≤ c ∧ c ≤ 'f' then some (c.toNat - 'a'.toNat + 10)
  else if 'A' ≤ c ∧ c ≤ 'F' then some (c.toNat - 'A'.toNat + 10)
  else none

/-- `_decode_uXXXX`. -/
def decodeHex4 : List Char → Option (ℕ × List Char)
  | a :: b :: c :: d :: rest => do
      let a ← hexValue a
      let b ← hexValue b
      let c ← hexValue c
      let d ← hexValue d
      return (4096 * a + 256 * b + 16 * c + d, rest)
  | _ => none

/-- What follows `\u`: a character, or the first half of a pair and then the other. -/
def scanUnicode (text : List Char) : Except DecodeError (Char × List Char) :=
  match decodeHex4 text with
  | none => .error .invalidUnicodeEscape
  | some (n, rest) =>
      if 0xd800 ≤ n ∧ n < 0xdc00 then
        match rest with
        | '\\' :: 'u' :: more =>
            match decodeHex4 more with
            | none => .error .invalidUnicodeEscape
            | some (low, rest) =>
                if 0xdc00 ≤ low ∧ low < 0xe000 then
                  .ok (Char.ofNat (0x10000 + (n - 0xd800) * 0x400 + (low - 0xdc00)), rest)
                else .error .loneSurrogate
        | _ => .error .loneSurrogate
      else if 0xdc00 ≤ n ∧ n < 0xe000 then .error .loneSurrogate
      else .ok (Char.ofNat n, rest)

/-- The escapes that are read: those that are written, and the slash. -/
def readEscapes : List (Char × Char) := ('/', '/') :: shortEscapes

/-- The next character of a text, `none` at its end. -/
def scanChar : List Char → Except DecodeError (Option Char × List Char)
  | [] => .error .unterminatedString
  | '"' :: rest => .ok (none, rest)
  | ['\\'] => .error .unterminatedString
  | '\\' :: e :: rest =>
      if e = 'u' then (scanUnicode rest).map fun r => (some r.1, r.2)
      else
        match readEscapes.find? fun r => decide (r.2 = e) with
        | some (c, _) => .ok (some c, rest)
        | none => .error .invalidEscape
  | c :: rest =>
      if c.toNat < 0x20 then .error .invalidControlCharacter else .ok (some c, rest)

/-- `scanstring`: what is left of a text after its opening quote. -/
def scanChars : ℕ → List Char → Except DecodeError (List Char × List Char)
  | 0, _ => .error .outOfFuel
  | fuel + 1, text => do
      match ← scanChar text with
      | (none, rest) => return ([], rest)
      | (some c, rest) =>
          let (more, rest) ← scanChars fuel rest
          return (c :: more, rest)

/-- The digits a text begins with. -/
def digits (text : List Char) : List Char := text.takeWhile Char.isDigit

/-- `(\.[0-9]+)?`. -/
def fraction : List Char → List Char
  | '.' :: rest => if digits rest = [] then [] else '.' :: digits rest
  | _ => []

/-- `([eE][-+]?[0-9]+)?`. -/
def exponent : List Char → List Char
  | e :: rest =>
      if e = 'e' ∨ e = 'E' then
        let sign := rest.takeWhile fun c => decide (c ∈ ['-', '+'])
        let sign := sign.take 1
        if digits (rest.drop sign.length) = [] then []
        else e :: sign ++ digits (rest.drop sign.length)
      else []
  | [] => []

/-- `-?(?:0|[1-9][0-9]*)`, empty where there is none. -/
def whole (text : List Char) : List Char :=
  let sign := if text.head? = some '-' then ['-'] else []
  let body := text.drop sign.length
  if body.head? = some '0' then sign ++ ['0']
  else if digits body = [] then []
  else sign ++ digits body

/-- A number: an integer unless it has a fraction or an exponent. -/
def scanNumber (floats : FloatText) (text : List Char) : Except DecodeError (Json × List Char) :=
  let whole := whole text
  let rest := text.drop whole.length
  let fraction := fraction rest
  let rest := rest.drop fraction.length
  let exponent := exponent rest
  let rest := rest.drop exponent.length
  if whole = [] then .error .expectingValue
  else if fraction = [] ∧ exponent = [] then
    match wholeOfText whole with
    | some value => .ok (.int value, rest)
    | none => .error .expectingValue
  else
    match floats.read (whole ++ fraction ++ exponent) with
    | some value => .ok (.float value, rest)
    | none => .error .nonFinite

/-- The words that are values. -/
def words : List (List Char × Except DecodeError Json) :=
  [("null".toList, .ok .null), ("true".toList, .ok (.bool true)),
   ("false".toList, .ok (.bool false)), ("NaN".toList, .error .nonFinite),
   ("Infinity".toList, .error .nonFinite), ("-Infinity".toList, .error .nonFinite)]

/-- `dict(pairs)`: a key that comes again keeps its place and takes the later value. -/
def ofPairs (pairs : List (String × Json)) : List (String × Json) :=
  pairs.foldl (fun fields pair => upsert Prod.fst pair fields) []

mutual

/-- `scan_once`: a value and what is left. -/
def scanOnce (floats : FloatText) : ℕ → List Char → Except DecodeError (Json × List Char)
  | 0, _ => .error .outOfFuel
  | fuel + 1, '"' :: rest => do
      let (text, rest) ← scanChars fuel rest
      return (.str (String.ofList text), rest)
  | fuel + 1, '[' :: rest =>
      match skipSpace rest with
      | ']' :: rest => .ok (.arr [], rest)
      | text => do
          let (items, rest) ← scanItems floats fuel text
          return (.arr items, rest)
  | fuel + 1, '{' :: rest =>
      match skipSpace rest with
      | '}' :: rest => .ok (.obj [], rest)
      | text => do
          let (pairs, rest) ← scanFields floats fuel text
          return (.obj (ofPairs pairs), rest)
  | _ + 1, text =>
      match words.find? fun word => word.1.isPrefixOf text with
      | some (word, value) => value.map fun value => (value, text.drop word.length)
      | none => scanNumber floats text

/-- `JSONArray`, from its first item on. -/
def scanItems (floats : FloatText) : ℕ → List Char → Except DecodeError (List Json × List Char)
  | 0, _ => .error .outOfFuel
  | fuel + 1, text => do
      let (item, rest) ← scanOnce floats fuel text
      match skipSpace rest with
      | ']' :: rest => return ([item], rest)
      | ',' :: rest =>
          let (more, rest) ← scanItems floats fuel (skipSpace rest)
          return (item :: more, rest)
      | _ => .error .expectingComma

/-- `JSONObject`, from its first key on. -/
def scanFields (floats : FloatText) :
    ℕ → List Char → Except DecodeError (List (String × Json) × List Char)
  | 0, _ => .error .outOfFuel
  | fuel + 1, '"' :: text => do
      let (key, rest) ← scanChars fuel text
      match skipSpace rest with
      | ':' :: rest =>
          let (value, rest) ← scanOnce floats fuel (skipSpace rest)
          match skipSpace rest with
          | '}' :: rest => return ([(String.ofList key, value)], rest)
          | ',' :: rest =>
              let (more, rest) ← scanFields floats fuel (skipSpace rest)
              return ((String.ofList key, value) :: more, rest)
          | _ => .error .expectingComma
      | _ => .error .expectingColon
  | _ + 1, _ => .error .expectingPropertyName

end

theorem scanOnce_bracket (floats : FloatText) (fuel : ℕ) (text : List Char) :
    scanOnce floats (fuel + 1) ('[' :: text) =
      match skipSpace text with
      | ']' :: rest => .ok (.arr [], rest)
      | text => do
          let (items, rest) ← scanItems floats fuel text
          return (.arr items, rest) := rfl

theorem scanOnce_brace (floats : FloatText) (fuel : ℕ) (text : List Char) :
    scanOnce floats (fuel + 1) ('{' :: text) =
      match skipSpace text with
      | '}' :: rest => .ok (.obj [], rest)
      | text => do
          let (pairs, rest) ← scanFields floats fuel text
          return (.obj (ofPairs pairs), rest) := rfl

/-- `json.loads`. -/
def loads (floats : FloatText) (text : List Char) : Except DecodeError Json := do
  let (value, rest) ← scanOnce floats (2 * text.length + 1) (skipSpace text)
  if skipSpace rest = [] then return value else .error .extraData

end JsonText

end Py
