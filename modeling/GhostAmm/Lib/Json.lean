/-
Decoded JSON as Python sees it.

A decoded value is asked for its truth, for an entry, for what a loop over it yields and
for the two halves of a pair.  Each of these takes more values than a format promises: a
text can be looped over and a text of two letters is a pair.
-/
import GhostAmm.Lib.Python

namespace Py

inductive Json where
  | null
  | bool (value : Bool)
  | int (value : ℤ)
  | float (value : ℚ)
  | str (value : String)
  | arr (items : List Json)
  | obj (fields : List (String × Json))

namespace Json

/-- `type(value).__name__`. -/
def typeName : Json → String
  | .null => "NoneType"
  | .bool _ => "bool"
  | .int _ => "int"
  | .float _ => "float"
  | .str _ => "str"
  | .arr _ => "list"
  | .obj _ => "dict"

/-- `bool(value)`. -/
def truthy : Json → Bool
  | .null => false
  | .bool value => value
  | .int value => decide (value ≠ 0)
  | .float value => decide (value ≠ 0)
  | .str value => decide (value ≠ "")
  | .arr items => !items.isEmpty
  | .obj fields => !fields.isEmpty

/-- `x or y`. -/
def or (x y : Json) : Json := if x.truthy then x else y

/-- `fields.get(key, default)`. -/
def get (fields : List (String × Json)) (key : String) (default : Json := .null) : Json :=
  ((fields.find? fun f => decide (f.1 = key)).map Prod.snd).getD default

/-- What a loop over the value goes through. -/
def iterate : Json → Except Py.Error (List Json)
  | .arr items => .ok items
  | .obj fields => .ok (fields.map fun f => .str f.1)
  | .str value => .ok (value.toList.map fun c => .str (String.singleton c))
  | value => .error (.typeError ("'" ++ value.typeName ++ "' object is not iterable"))

/-- `a, b = value`, when it succeeds. -/
def unpack (value : Json) : Option (Json × Json) :=
  match value.iterate with
  | .ok [a, b] => some (a, b)
  | _ => none

end Json

/-- What Python makes of texts: `str` of a value that is no text, `float` and `upper`. -/
structure Texts where
  str : Json → String
  float : String → Option ℚ
  upper : String → String

/-- `str(value)`. -/
def Texts.strOf (texts : Texts) : Json → String
  | .str value => value
  | value => texts.str value

end Py
