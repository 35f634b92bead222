/-
Mappings as block YAML.

A mapping is written with two spaces of indentation a level: a key and its scalar on one line, a
key alone above the mapping or the list that belongs to it.  A key has no space in it, no colon
and no comment sign, and a scalar neither begins nor ends with space, so a line that has no
comment sign and no character that breaks lines is read as its indentation and what is on it
(`readLine_indented`), and a scalar's text as the scalar (`parseScalar_text`), unless it is an
integer of more digits than `int` takes.
-/
import GhostAmm.Model.SimpleYaml

namespace GhostAmm

open Py (Json)

/-! ### Mappings as they are written -/

/-- A key, such as an identifier. -/
structure YamlKey where
  text : List Char
  ne_nil : text ≠ []
  plain : ∀ c ∈ text, Py.isspace c = false ∧ c ≠ ':' ∧ c ≠ '#'

/-- A string that can stand between double quotes. -/
structure YamlString where
  text : List Char
  quotable : ∀ c ∈ text, c ≠ '"' ∧ c ≠ '\\' ∧ c ≠ '\n' ∧ c ≠ '\r'

inductive YamlScalar where
  | null
  | bool (value : Bool)
  | int (value : ℤ)
  | str (value : YamlString)

mutual

/-- A scalar, a list of at least one, or a mapping. -/
inductive YamlValue where
  | scalar (scalar : YamlScalar)
  | list (first : YamlScalar) (rest : List YamlScalar)
  | mapping (fields : YamlFields)

/-- The fields of a mapping. -/
inductive YamlFields where
  | nil
  | cons (key : YamlKey) (value : YamlValue) (rest : YamlFields)

end

namespace YamlKey

def name (self : YamlKey) : String := String.ofList self.text

end YamlKey

namespace YamlScalar

def toJson : YamlScalar → Json
  | .null => .null
  | .bool value => .bool value
  | .int value => .int value
  | .str value => .str (String.ofList value.text)

def text : YamlScalar → List Char
  | .null => ['n', 'u', 'l', 'l']
  | .bool value => if value then ['t', 'r', 'u', 'e'] else ['f', 'a', 'l', 's', 'e']
  | .int value => Py.intText value
  | .str value => '"' :: value.text ++ ['"']

end YamlScalar

mutual

def YamlValue.toJson : YamlValue → Json
  | .scalar scalar => scalar.toJson
  | .list first rest => .arr ((first :: rest).map YamlScalar.toJson)
  | .mapping fields => .obj fields.toJson

def YamlFields.toJson : YamlFields → List (String × Json)
  | .nil => []
  | .cons key value rest => (key.name, value.toJson) :: rest.toJson

end

mutual

/-- The scalars in a value. -/
def YamlValue.scalars : YamlValue → List YamlScalar
  | .scalar scalar => [scalar]
  | .list first rest => first :: rest
  | .mapping fields => fields.scalars

def YamlFields.scalars : YamlFields → List YamlScalar
  | .nil => []
  | .cons _ value rest => value.scalars ++ rest.scalars

end

def YamlFields.keys : YamlFields → List String
  | .nil => []
  | .cons key _ rest => key.name :: rest.keys

mutual

/-- A mapping has each key once. -/
def YamlValue.Distinct : YamlValue → Prop
  | .mapping fields => fields.keys.Nodup ∧ fields.Distinct
  | _ => True

def YamlFields.Distinct : YamlFields → Prop
  | .nil => True
  | .cons _ value rest => value.Distinct ∧ rest.Distinct

end

/-- A nested mapping. -/
structure YamlMapping where
  fields : YamlFields
  nodup : fields.keys.Nodup
  distinct : fields.Distinct

/-- A line at an indentation. -/
def indented (n : ℕ) (item : List Char) : List Char := List.replicate n ' ' ++ item

mutual

/-- The lines of a key and its value. -/
def YamlValue.linesUnder (n : ℕ) (key : YamlKey) : YamlValue → List (List Char)
  | .scalar scalar => [indented n (key.text ++ ':' :: ' ' :: scalar.text)]
  | .list first rest => indented n (key.text ++ [':']) ::
      (first :: rest).map fun scalar => indented (n + 2) ('-' :: ' ' :: scalar.text)
  | .mapping fields => indented n (key.text ++ [':']) :: fields.lines (n + 2)

/-- The lines of the fields of a mapping. -/
def YamlFields.lines (n : ℕ) : YamlFields → List (List Char)
  | .nil => []
  | .cons key value rest => value.linesUnder n key ++ rest.lines n

end

/-- A mapping as block YAML. -/
def YamlMapping.render (self : YamlMapping) : List Char :=
  (self.fields.lines 0).flatMap fun line => line ++ ['\n']

/-- What can be read from a line. -/
def Readable (text : List Char) : Prop := ∀ c ∈ text, c ≠ '#' ∧ Py.isLineBreak c = false

/-- A scalar that can be read: a string from its line, and an integer by `int`. -/
def YamlScalar.Readable : YamlScalar → Prop
  | .str value => GhostAmm.Readable value.text
  | .int value => value.natAbs < 10 ^ Py.maxStrDigits
  | _ => True

theorem Readable.of_all {text : List Char}
    (h : (text.all fun c => decide (c ≠ '#') && !Py.isLineBreak c) = true) : Readable text := by
  intro c hc
  simpa using List.all_eq_true.mp h c hc

theorem trimmed_of_all {text : List Char} (hne : text ≠ [])
    (h : (text.all fun c => !Py.isspace c) = true) : Py.Trimmed text := by
  refine Py.Trimmed.of_forall hne fun c hc => ?_
  simpa using List.all_eq_true.mp h c hc

/-! ### Reading a line -/

theorem readLine_indented {item : List Char} (htrim : Py.Trimmed item) (hread : Readable item)
    (n : ℕ) : readLine (indented n item) = some (n, item) := by
  have hcomment : (indented n item).takeWhile (fun c => decide (c ≠ '#')) = indented n item := by
    rw [List.takeWhile_eq_self_iff]
    intro c hc
    rcases List.mem_append.mp hc with hc | hc
    · rw [List.eq_of_mem_replicate hc]
      decide
    · simpa using (hread c hc).1
  unfold readLine
  rw [hcomment]
  unfold indented
  rw [htrim.rstrip_append]
  dsimp only
  rw [htrim.strip_indented, htrim.dropWhile_indented, if_neg htrim.ne_nil]
  simp

/-! ### Scalars -/

/-- A number cannot be taken for anything else. -/
theorem numberChar_plain {c : Char} (hc : c ∈ Py.numberChars) :
    c ≠ '"' ∧ c ≠ '\'' ∧ c.toLower ≠ 't' ∧ c.toLower ≠ 'f' ∧ c.toLower ≠ 'n' ∧
      c ∉ ['.', 'e', 'E'] := by
  have hall : (Py.numberChars.all fun c => decide (c ≠ '"') && decide (c ≠ '\'') &&
      decide (c.toLower ≠ 't') && decide (c.toLower ≠ 'f') && decide (c.toLower ≠ 'n') &&
      decide (c ∉ ['.', 'e', 'E'])) = true := rfl
  simpa [and_assoc] using List.all_eq_true.mp hall c hc

theorem parseScalar_intText (float : String → Option ℚ) {n : ℤ}
    (h : n.natAbs < 10 ^ Py.maxStrDigits) : parseScalar float (Py.intText n) = .int n := by
  have hread := Py.intOfText_intText h
  have hmem : ∀ c ∈ Py.intText n, c ∈ Py.numberChars := fun c => Py.mem_intText
  cases htext : Py.intText n with
  | nil => exact absurd htext (Py.intText_ne_nil n)
  | cons c rest =>
      rw [htext] at hread hmem
      obtain ⟨hquote, hapostrophe, ht, hf, hn, -⟩ := numberChar_plain (hmem c List.mem_cons_self)
      have hpoint : ((c :: rest).any fun d => decide (d ∈ ['.', 'e', 'E'])) = false := by
        rw [List.any_eq_false]
        intro d hd
        obtain ⟨-, -, -, -, -, hd⟩ := numberChar_plain (hmem d hd)
        simpa using hd
      have hword : ∀ (d : Char) (word : List Char), c.toLower ≠ d →
          (c :: rest).map Char.toLower ≠ d :: word :=
        fun d word hne h => hne (List.cons.inj h).1
      have htrue : (c :: rest).map Char.toLower ≠ "true".toList := hword 't' ['r', 'u', 'e'] ht
      have hfalse : (c :: rest).map Char.toLower ≠ "false".toList :=
        hword 'f' ['a', 'l', 's', 'e'] hf
      have hnull : (c :: rest).map Char.toLower ≠ "null".toList := hword 'n' ['u', 'l', 'l'] hn
      unfold parseScalar
      rw [if_neg (fun h => hquote (Option.some.inj h.1)),
        if_neg (fun h => hapostrophe (Option.some.inj h.1))]
      dsimp only
      rw [if_neg htrue, if_neg hfalse, if_neg hnull, hpoint, hread]
      rfl

theorem parseScalar_text (float : String → Option ℚ) {scalar : YamlScalar}
    (h : scalar.Readable) : parseScalar float scalar.text = scalar.toJson := by
  cases scalar with
  | null => rfl
  | bool value => cases value <;> rfl
  | int value => exact parseScalar_intText float h
  | str value =>
      have hlast : ('"' :: value.text ++ ['"']).getLast? = some '"' := List.getLast?_concat
      unfold parseScalar YamlScalar.text
      rw [if_pos ⟨rfl, hlast⟩]
      show Json.str (String.ofList (value.text ++ ['"']).dropLast) = _
      rw [List.dropLast_concat]
      rfl

theorem trimmed_text (scalar : YamlScalar) : Py.Trimmed scalar.text := by
  cases scalar with
  | null => exact trimmed_of_all (List.cons_ne_nil _ _) rfl
  | bool value => cases value <;> exact trimmed_of_all (List.cons_ne_nil _ _) rfl
  | int value =>
      have hspace : (Py.numberChars.all fun c => !Py.isspace c) = true := rfl
      refine Py.Trimmed.of_forall (Py.intText_ne_nil value) fun c hc => ?_
      simpa using List.all_eq_true.mp hspace c (Py.mem_intText hc)
  | str value =>
      exact ⟨⟨'"', value.text ++ ['"'], rfl, rfl⟩, ⟨'"' :: value.text, '"', rfl, rfl⟩⟩

theorem readable_text {scalar : YamlScalar} (h : scalar.Readable) : Readable scalar.text := by
  cases scalar with
  | null => exact Readable.of_all rfl
  | bool value => cases value <;> exact Readable.of_all rfl
  | int value =>
      have hnumber := @Readable.of_all Py.numberChars rfl
      exact fun c hc => hnumber c (Py.mem_intText hc)
  | str value =>
      have hquote : '"' ≠ '#' ∧ Py.isLineBreak '"' = false := ⟨by decide, rfl⟩
      intro c hc
      rcases List.mem_append.mp hc with hc | hc
      · rcases List.mem_cons.mp hc with rfl | hc
        · exact hquote
        · exact h c hc
      · exact List.mem_singleton.mp hc ▸ hquote

/-! ### Keys and lines -/

namespace YamlKey

variable (key : YamlKey)

theorem trimmed : Py.Trimmed key.text :=
  Py.Trimmed.of_forall key.ne_nil fun c hc => (key.plain c hc).1

theorem readable : Readable key.text := by
  intro c hc
  refine ⟨(key.plain c hc).2.2, Bool.eq_false_iff.mpr fun hbreak => ?_⟩
  have hspace := Py.isspace_of_isLineBreak hbreak
  rw [(key.plain c hc).1] at hspace
  exact absurd hspace (by decide)

/-- A key does not begin a list item. -/
theorem not_dash (tail : List Char) : ['-', ' '].isPrefixOf (key.text ++ ':' :: tail) = false := by
  have hplain := key.plain
  cases htext : key.text with
  | nil => exact absurd htext key.ne_nil
  | cons c rest =>
      cases rest with
      | nil => simp [List.isPrefixOf]
      | cons d rest =>
          rw [htext] at hplain
          have hd := (hplain d (by simp)).1
          have hspace : d ≠ ' ' := by
            rintro rfl
            exact absurd hd (by decide)
          simp [List.isPrefixOf, Ne.symm hspace]

theorem takeWhile_colon (tail : List Char) :
    (key.text ++ ':' :: tail).takeWhile (fun c => decide (c ≠ ':')) = key.text := by
  rw [List.takeWhile_append_of_pos, List.takeWhile_cons_of_neg (by simp), List.append_nil]
  intro c hc
  simpa using (key.plain c hc).2.1

theorem dropWhile_colon (tail : List Char) :
    ((key.text ++ ':' :: tail).dropWhile (fun c => decide (c ≠ ':'))).drop 1 = tail := by
  rw [List.dropWhile_append_of_pos, List.dropWhile_cons_of_neg (by simp)]
  · rfl
  · intro c hc
    simpa using (key.plain c hc).2.1

end YamlKey

theorem Readable.append {front back : List Char} (hfront : Readable front)
    (hback : Readable back) : Readable (front ++ back) := by
  intro c hc
  rcases List.mem_append.mp hc with hc | hc
  · exact hfront c hc
  · exact hback c hc

theorem Readable.indented {item : List Char} (h : Readable item) (n : ℕ) :
    Readable (indented n item) := by
  refine Readable.append (fun c hc => ?_) h
  rw [List.eq_of_mem_replicate hc]
  exact ⟨by decide, rfl⟩

theorem readable_keyLine (key : YamlKey) : Readable (key.text ++ [':']) :=
  key.readable.append (Readable.of_all rfl)

theorem readable_scalarLine (key : YamlKey) {scalar : YamlScalar} (h : scalar.Readable) :
    Readable (key.text ++ ':' :: ' ' :: scalar.text) :=
  key.readable.append (@Readable.append [':', ' '] _ (Readable.of_all rfl) (readable_text h))

theorem readable_itemLine {scalar : YamlScalar} (h : scalar.Readable) :
    Readable ('-' :: ' ' :: scalar.text) :=
  @Readable.append ['-', ' '] _ (Readable.of_all rfl) (readable_text h)

mutual

theorem YamlValue.readable_lines : ∀ (value : YamlValue) (n : ℕ) (key : YamlKey),
    (∀ scalar ∈ value.scalars, scalar.Readable) → ∀ line ∈ value.linesUnder n key, Readable line
  | .scalar scalar, n, key, hread, line, hline => by
      rw [List.mem_singleton.mp hline]
      exact (readable_scalarLine key (hread scalar List.mem_cons_self)).indented n
  | .list first rest, n, key, hread, line, hline => by
      rcases List.mem_cons.mp hline with rfl | hline
      · exact (readable_keyLine key).indented n
      · obtain ⟨scalar, hscalar, rfl⟩ := List.mem_map.mp hline
        exact (readable_itemLine (hread scalar hscalar)).indented (n + 2)
  | .mapping fields, n, key, hread, line, hline => by
      rcases List.mem_cons.mp hline with rfl | hline
      · exact (readable_keyLine key).indented n
      · exact YamlFields.readable_lines fields (n + 2) hread line hline

theorem YamlFields.readable_lines : ∀ (fields : YamlFields) (n : ℕ),
    (∀ scalar ∈ fields.scalars, scalar.Readable) → ∀ line ∈ fields.lines n, Readable line
  | .nil, n, _, line, hline => by simp [YamlFields.lines] at hline
  | .cons key value rest, n, hread, line, hline => by
      rcases List.mem_append.mp hline with hline | hline
      · exact YamlValue.readable_lines value n key
          (fun scalar hscalar => hread scalar (List.mem_append_left _ hscalar)) line hline
      · exact YamlFields.readable_lines rest n
          (fun scalar hscalar => hread scalar (List.mem_append_right _ hscalar)) line hline

end

end GhostAmm
