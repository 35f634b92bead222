/-
Written JSON is read back.

What the decoder does with a written piece is said with a rest behind it, so that one rule covers
every place a value can stand in (`scanOnce_dumps`).  A value that can be written is read back with
its dictionaries in key order (`loads_dumps`), and so the text of a value determines it up to that
order (`dumps_inj`).
-/
import GhostAmm.Lib.JsonText

namespace Py

namespace JsonText

/-! ### A text is read back -/

theorem hexValue_digitChar {d : ℕ} (h : d < 16) : hexValue (Nat.digitChar d) = some d := by
  interval_cases d <;> decide

theorem decodeHex4_hex4 {n : ℕ} (h : n < 0x10000) (rest : List Char) :
    decodeHex4 (hex4 n ++ rest) = some (n, rest) := by
  have hsum : 4096 * (n / 4096 % 16) + 256 * (n / 256 % 16) + 16 * (n / 16 % 16) + n % 16 = n := by
    omega
  simp [hex4, decodeHex4, hexValue_digitChar (Nat.mod_lt _ (by norm_num : 0 < 16)), hsum]

/-- A character is no half of a pair. -/
theorem not_surrogate (c : Char) :
    ¬ (0xd800 ≤ c.toNat ∧ c.toNat < 0xe000) ∧ c.toNat < 0x110000 := by
  have hvalid : c.toNat < 0xd800 ∨ 0xdfff < c.toNat ∧ c.toNat < 0x110000 := c.valid
  omega

theorem scanChar_unicode (text : List Char) :
    scanChar ('\\' :: 'u' :: text) = (scanUnicode text).map fun r => (some r.1, r.2) := rfl

theorem scanUnicode_plain {n : ℕ} (h : n < 0x10000) (hplane : ¬ (0xd800 ≤ n ∧ n < 0xe000))
    (rest : List Char) : scanUnicode (hex4 n ++ rest) = .ok (Char.ofNat n, rest) := by
  have hlow : ¬ (0xd800 ≤ n ∧ n < 0xdc00) := by omega
  have hhigh : ¬ (0xdc00 ≤ n ∧ n < 0xe000) := by omega
  simp only [scanUnicode, decodeHex4_hex4 h, hlow, hhigh, if_false]

theorem scanUnicode_pair {high low : ℕ} (hhigh : 0xd800 ≤ high ∧ high < 0xdc00)
    (hlow : 0xdc00 ≤ low ∧ low < 0xe000) (rest : List Char) :
    scanUnicode (hex4 high ++ '\\' :: 'u' :: (hex4 low ++ rest)) =
      .ok (Char.ofNat (0x10000 + (high - 0xd800) * 0x400 + (low - 0xdc00)), rest) := by
  simp only [scanUnicode, decodeHex4_hex4 (show high < 0x10000 by omega),
    decodeHex4_hex4 (show low < 0x10000 by omega), hhigh, hlow, and_self, if_true]

theorem scanChar_unicodeEscape (c : Char) (rest : List Char) :
    scanChar (unicodeEscape c.toNat ++ rest) = .ok (some c, rest) := by
  obtain ⟨hplane, hbound⟩ := not_surrogate c
  unfold unicodeEscape
  split
  · rename_i hsmall
    rw [List.cons_append, List.cons_append, scanChar_unicode, scanUnicode_plain hsmall hplane,
      Char.ofNat_toNat]
    rfl
  · rename_i hlarge
    generalize hhigh : 0xd800 + (c.toNat - 0x10000) / 0x400 = high
    generalize hlow : 0xdc00 + (c.toNat - 0x10000) % 0x400 = low
    have hpair : 0x10000 + (high - 0xd800) * 0x400 + (low - 0xdc00) = c.toNat := by omega
    rw [List.append_assoc, List.cons_append, List.cons_append, List.cons_append, List.cons_append,
      scanChar_unicode, scanUnicode_pair (by omega) (by omega), hpair, Char.ofNat_toNat]
    rfl

theorem scanChar_escape (ensureAscii : Bool) (c : Char) (rest : List Char) :
    scanChar (escape ensureAscii c ++ rest) = .ok (some c, rest) := by
  unfold escape
  cases hshort : shortEscapes.find? fun e => decide (e.1 = c) with
  | some e =>
      have hc : e.1 = c := by simpa using List.find?_some hshort
      have hmem := List.mem_of_find?_eq_some hshort
      subst hc
      fin_cases hmem <;> rfl
  | none =>
      rw [List.find?_eq_none] at hshort
      have hquote : c ≠ '"' := fun h => hshort ('"', '"') (by simp [shortEscapes]) (by simp [h])
      have hslash : c ≠ '\\' := fun h =>
        hshort ('\\', '\\') (by simp [shortEscapes]) (by simp [h])
      dsimp only
      split
      · exact scanChar_unicodeEscape c rest
      · rename_i hplain
        have hcontrol : ¬ c.toNat < 0x20 := by
          intro h
          simp [h] at hplain
        rw [List.singleton_append, scanChar.eq_5 _ _ hquote (fun h => absurd h hslash)
          (fun _ _ h => absurd h hslash), if_neg hcontrol]

theorem escape_ne_nil (ensureAscii : Bool) (c : Char) : escape ensureAscii c ≠ [] := by
  unfold escape unicodeEscape
  split
  · simp
  · split
    · split <;> simp
    · simp

theorem scanChars_escape (ensureAscii : Bool) (chars rest : List Char) : ∀ fuel : ℕ,
    (chars.flatMap (escape ensureAscii) ++ '"' :: rest).length < fuel →
      scanChars fuel (chars.flatMap (escape ensureAscii) ++ '"' :: rest) = .ok (chars, rest) := by
  induction chars with
  | nil =>
      intro fuel hfuel
      cases fuel with
      | zero => simp at hfuel
      | succ fuel => rfl
  | cons c chars ih =>
      intro fuel hfuel
      cases fuel with
      | zero => simp at hfuel
      | succ fuel =>
          have hlen := List.length_pos_iff.mpr (escape_ne_nil ensureAscii c)
          rw [List.flatMap_cons, List.append_assoc] at hfuel ⊢
          rw [List.length_append] at hfuel
          rw [scanChars, scanChar_escape]
          show (scanChars fuel _ >>= _) = _
          rw [ih fuel (by omega)]
          rfl

/-! ### A number is read back -/

/-- A number ends here. -/
def NumberEnds (rest : List Char) : Prop :=
  ∀ c ∈ rest.head?, c.isDigit = false ∧ c ≠ '.' ∧ c ≠ 'e' ∧ c ≠ 'E'

/-- `0|[1-9][0-9]*`. -/
def IsUnsigned (body : List Char) : Prop :=
  body = ['0'] ∨ body ≠ [] ∧ (∀ c ∈ body, c.isDigit = true) ∧ body.head? ≠ some '0'

/-- `-?(?:0|[1-9][0-9]*)`. -/
def IsWhole (text : List Char) : Prop :=
  ∃ sign body, text = sign ++ body ∧ (sign = [] ∨ sign = ['-']) ∧ IsUnsigned body

/-- `(\.[0-9]+)?`. -/
def IsFraction (text : List Char) : Prop :=
  text = [] ∨ ∃ ds, ds ≠ [] ∧ (∀ c ∈ ds, c.isDigit = true) ∧ text = '.' :: ds

/-- `([eE][-+]?[0-9]+)?`. -/
def IsExponent (text : List Char) : Prop :=
  text = [] ∨ ∃ mark sign ds, (mark = 'e' ∨ mark = 'E') ∧
    (sign = [] ∨ sign = ['-'] ∨ sign = ['+']) ∧ ds ≠ [] ∧ (∀ c ∈ ds, c.isDigit = true) ∧
      text = mark :: sign ++ ds

theorem digits_append {ds rest : List Char} (hds : ∀ c ∈ ds, c.isDigit = true)
    (hrest : ∀ c ∈ rest.head?, c.isDigit = false) : digits (ds ++ rest) = ds := by
  unfold digits
  rw [List.takeWhile_append_of_pos hds]
  cases rest with
  | nil => simp
  | cons c rest => simp [hrest c rfl]

theorem IsUnsigned.head {body : List Char} (h : IsUnsigned body) :
    ∃ c more, body = c :: more ∧ c.isDigit = true := by
  rcases h with rfl | ⟨hne, hdigits, -⟩
  · exact ⟨'0', [], rfl, rfl⟩
  · obtain ⟨c, more, rfl⟩ := List.exists_cons_of_ne_nil hne
    exact ⟨c, more, rfl, hdigits c List.mem_cons_self⟩

theorem whole_append {text rest : List Char} (h : IsWhole text)
    (hrest : ∀ c ∈ rest.head?, c.isDigit = false) : whole (text ++ rest) = text := by
  obtain ⟨sign, body, rfl, hsign, hbody⟩ := h
  obtain ⟨c, more, rfl, hdigit⟩ := hbody.head
  have hminus : c ≠ '-' := by
    rintro rfl
    cases hdigit
  have hcut : (if (sign ++ c :: more ++ rest).head? = some '-' then ['-'] else []) = sign := by
    rcases hsign with rfl | rfl
    · simp [hminus]
    · simp
  unfold whole
  dsimp only
  rw [hcut, List.append_assoc, List.drop_left]
  rcases hbody with hzero | ⟨-, hdigits, hlead⟩
  · rw [hzero]
    rfl
  · rw [if_neg (by simpa using hlead), digits_append hdigits hrest, if_neg (by simp)]

theorem head_zeroPad {n : ℕ} (hn : n ≠ 0) : (zeroPad 1 n).head? ≠ some '0' := by
  have hne : Nat.digits 10 n ≠ [] := Nat.digits_ne_nil_iff_ne_zero.mpr hn
  have hlast := Nat.getLast_digit_ne_zero 10 hn
  have hlt : (Nat.digits 10 n).getLast hne < 10 :=
    Nat.digits_lt_base (by norm_num) (List.getLast_mem hne)
  have hpad : 1 - (Nat.digits 10 n).length = 0 := by
    have := List.length_pos_iff.mpr hne
    omega
  rw [zeroPad, hpad, List.replicate_zero, List.nil_append, List.head?_reverse, List.getLast?_map,
    List.getLast?_eq_some_getLast hne]
  generalize (Nat.digits 10 n).getLast hne = d at hlast hlt
  interval_cases d <;> simp_all

theorem isWhole_intText (n : ℤ) : IsWhole (intText n) := by
  have hbody : ∀ m : ℕ, IsUnsigned (zeroPad 1 m) := by
    intro m
    by_cases hm : m = 0
    · subst hm
      exact Or.inl rfl
    · exact Or.inr ⟨zeroPad_one_ne_nil m, fun c => isDigit_of_mem_zeroPad, head_zeroPad hm⟩
  unfold intText
  split
  · exact ⟨['-'], _, rfl, Or.inr rfl, hbody _⟩
  · exact ⟨[], _, rfl, Or.inl rfl, hbody _⟩

theorem fraction_append {text rest : List Char} (h : IsFraction text)
    (hrest : ∀ c ∈ rest.head?, c.isDigit = false ∧ c ≠ '.') : fraction (text ++ rest) = text := by
  rcases h with rfl | ⟨ds, hne, hds, rfl⟩
  · cases rest with
    | nil => rfl
    | cons c rest =>
        rw [List.nil_append, fraction]
        rintro rest' h
        exact (hrest c rfl).2 (List.cons.inj h).1
  · rw [List.cons_append, fraction, digits_append hds fun c hc => (hrest c hc).1, if_neg hne]

theorem exponent_append {text rest : List Char} (h : IsExponent text) (hrest : NumberEnds rest) :
    exponent (text ++ rest) = text := by
  rcases h with rfl | ⟨mark, sign, ds, hmark, hsign, hne, hds, rfl⟩
  · cases rest with
    | nil => rfl
    | cons c rest =>
        have hc := hrest c rfl
        rw [List.nil_append, exponent, if_neg (by simp [hc.2.2.1, hc.2.2.2])]
  · have hlead : ∀ c ∈ (ds ++ rest).head?, c ≠ '-' ∧ c ≠ '+' := by
      obtain ⟨d, more, rfl⟩ := List.exists_cons_of_ne_nil hne
      have hd := hds d List.mem_cons_self
      rintro c ⟨⟩
      constructor <;> rintro rfl <;> cases hd
    have hcut : ((sign ++ (ds ++ rest)).takeWhile fun c => decide (c ∈ ['-', '+'])).take 1 =
        sign := by
      have hnone : (ds ++ rest).takeWhile (fun c => decide (c ∈ ['-', '+'])) = [] := by
        cases htext : ds ++ rest with
        | nil => rfl
        | cons c more =>
            have := hlead c (by rw [htext]; rfl)
            simp [this.1, this.2]
      rcases hsign with rfl | rfl | rfl
      · rw [List.nil_append, hnone]
        rfl
      · simp
      · simp
    rw [List.append_assoc, List.cons_append, exponent, if_pos hmark]
    dsimp only
    rw [hcut, List.drop_left, digits_append hds fun c hc => (hrest c hc).1, if_neg hne]

/-- What a float can be written as: a number with a fraction or an exponent. -/
def IsFloat (text : List Char) : Prop :=
  ∃ w f e, text = w ++ f ++ e ∧ IsWhole w ∧ IsFraction f ∧ IsExponent e ∧ ¬ (f = [] ∧ e = [])

/-- A float is written as one and read back. -/
def Reads (floats : FloatText) (x : ℚ) : Prop :=
  IsFloat (floats.repr x) ∧ floats.read (floats.repr x) = some x

theorem NumberEnds.noDigit {rest : List Char} (h : NumberEnds rest) :
    ∀ c ∈ rest.head?, c.isDigit = false := fun c hc => (h c hc).1

theorem isWhole_ne_nil {text : List Char} (h : IsWhole text) : text ≠ [] := by
  obtain ⟨sign, body, rfl, -, hbody⟩ := h
  obtain ⟨c, more, rfl, -⟩ := hbody.head
  simp

theorem scanNumber_int (floats : FloatText) (n : ℤ) {rest : List Char} (hrest : NumberEnds rest) :
    scanNumber floats (intText n ++ rest) = .ok (.int n, rest) := by
  have hwhole := whole_append (isWhole_intText n) hrest.noDigit
  have hfraction : fraction rest = [] :=
    fraction_append (Or.inl rfl) fun c hc => ⟨(hrest c hc).1, (hrest c hc).2.1⟩
  have hexponent : exponent rest = [] := exponent_append (Or.inl rfl) hrest
  unfold scanNumber
  simp only [hwhole, List.drop_left, hfraction, hexponent, List.length_nil, List.drop_zero,
    isWhole_ne_nil (isWhole_intText n), if_false, and_self, if_true, wholeOfText_intText]

theorem scanNumber_float {floats : FloatText} {x : ℚ} (hx : Reads floats x) {rest : List Char}
    (hrest : NumberEnds rest) :
    scanNumber floats (floats.repr x ++ rest) = .ok (.float x, rest) := by
  obtain ⟨⟨w, f, e, htext, hw, hf, he, hne⟩, hread⟩ := hx
  have hmark : ∀ c ∈ (e ++ rest).head?, c.isDigit = false ∧ c ≠ '.' := by
    rcases he with rfl | ⟨mark, sign, ds, hmark, -, -, -, rfl⟩
    · exact fun c hc => ⟨(hrest c hc).1, (hrest c hc).2.1⟩
    · rintro c ⟨⟩
      rcases hmark with rfl | rfl <;> exact ⟨rfl, by decide⟩
  have hpoint : ∀ c ∈ (f ++ (e ++ rest)).head?, c.isDigit = false := by
    rcases hf with rfl | ⟨ds, -, -, rfl⟩
    · exact fun c hc => (hmark c hc).1
    · rintro c ⟨⟩
      rfl
  have hwhole := whole_append hw hpoint
  have hfraction := fraction_append hf hmark
  have hexponent := exponent_append he hrest
  rw [htext] at hread
  rw [htext, List.append_assoc, List.append_assoc]
  unfold scanNumber
  simp only [hwhole, List.drop_left, hfraction, hexponent, isWhole_ne_nil hw,
    if_false, hne, hread]

/-! ### A value is read back -/

mutual

/-- A value with its dictionaries in key order. -/
def sortKeys : Json → Json
  | .arr items => .arr (sortItems items)
  | .obj fields => .obj ((sortFields fields).insertionSort fun f g => f.1 ≤ g.1)
  | .null => .null
  | .bool value => .bool value
  | .int value => .int value
  | .float value => .float value
  | .str value => .str value

def sortItems : List Json → List Json
  | [] => []
  | item :: rest => sortKeys item :: sortItems rest

def sortFields : List (String × Json) → List (String × Json)
  | [] => []
  | (key, value) :: rest => (key, sortKeys value) :: sortFields rest

end

/-- A value that can be written and read back: its dictionaries have each key once, and its floats
are read back. -/
inductive Written (floats : FloatText) : Json → Prop
  | null : Written floats .null
  | bool (value : Bool) : Written floats (.bool value)
  | int (value : ℤ) : Written floats (.int value)
  | float (value : ℚ) (h : Reads floats value) : Written floats (.float value)
  | str (text : String) : Written floats (.str text)
  | arr (items : List Json) (h : ∀ item ∈ items, Written floats item) : Written floats (.arr items)
  | obj (fields : List (String × Json)) (hkeys : (fields.map Prod.fst).Nodup)
      (h : ∀ f ∈ fields, Written floats f.2) : Written floats (.obj fields)

theorem dumpsItems_eq (floats : FloatText) (style : JsonStyle) (items : List Json) :
    dumpsItems floats style items = items.map (dumps floats style) := by
  induction items with
  | nil => rfl
  | cons item rest ih => rw [dumpsItems, ih, List.map_cons]

theorem dumpsFields_eq (floats : FloatText) (style : JsonStyle) (fields : List (String × Json)) :
    dumpsFields floats style fields = fields.map fun f => (f.1, dumps floats style f.2) := by
  induction fields with
  | nil => rfl
  | cons f rest ih => rw [dumpsFields, ih, List.map_cons]

theorem sortItems_eq (items : List Json) : sortItems items = items.map sortKeys := by
  induction items with
  | nil => rfl
  | cons item rest ih => rw [sortItems, ih, List.map_cons]

theorem sortFields_eq (fields : List (String × Json)) :
    sortFields fields = fields.map fun f => (f.1, sortKeys f.2) := by
  induction fields with
  | nil => rfl
  | cons f rest ih => rw [sortFields, ih, List.map_cons]

/-- The fields of a dictionary in key order. -/
def inOrder {α : Type} (fields : List (String × α)) : List (String × α) :=
  fields.insertionSort fun f g => f.1 ≤ g.1

theorem inOrder_map {α β : Type} (g : α → β) (fields : List (String × α)) :
    inOrder (fields.map fun f => (f.1, g f.2)) = (inOrder fields).map fun f => (f.1, g f.2) :=
  (List.map_insertionSort (fun f g : String × α => f.1 ≤ g.1)
    (fun f g : String × β => f.1 ≤ g.1) (fun f => (f.1, g f.2)) fields
    fun _ _ _ _ => Iff.rfl).symm

theorem dumps_int (floats : FloatText) (style : JsonStyle) (value : ℤ) :
    dumps floats style (.int value) = intText value := rfl

theorem dumps_float (floats : FloatText) (style : JsonStyle) (value : ℚ) :
    dumps floats style (.float value) = floats.repr value := rfl

theorem dumps_str (floats : FloatText) (style : JsonStyle) (text : String) :
    dumps floats style (.str text) = quoted style.ensureAscii text := rfl

theorem dumps_arr (floats : FloatText) (style : JsonStyle) (items : List Json) :
    dumps floats style (.arr items) =
      '[' :: joined style (items.map (dumps floats style)) ++ [']'] := by
  show '[' :: joined style (dumpsItems floats style items) ++ [']'] = _
  rw [dumpsItems_eq]

theorem dumps_obj (floats : FloatText) (style : JsonStyle) (fields : List (String × Json)) :
    dumps floats style (.obj fields) =
      '{' :: joined style ((inOrder fields).map fun f =>
        quoted style.ensureAscii f.1 ++ ':' :: style.gap ++ dumps floats style f.2) ++ ['}'] := by
  show '{' :: joined style ((inOrder (dumpsFields floats style fields)).map _) ++ ['}'] = _
  rw [dumpsFields_eq, inOrder_map, List.map_map]
  rfl

theorem sortKeys_arr (items : List Json) : sortKeys (.arr items) = .arr (items.map sortKeys) := by
  rw [sortKeys, sortItems_eq]

theorem sortKeys_obj (fields : List (String × Json)) :
    sortKeys (.obj fields) = .obj ((inOrder fields).map fun f => (f.1, sortKeys f.2)) := by
  rw [sortKeys, sortFields_eq]
  exact congrArg Json.obj (inOrder_map sortKeys fields)

theorem ofPairs_eq {pairs : List (String × Json)} (h : (pairs.map Prod.fst).Nodup) :
    ofPairs pairs = pairs := by
  have hfold : ∀ before after : List (String × Json),
      ((before ++ after).map Prod.fst).Nodup →
        after.foldl (fun fields pair => upsert Prod.fst pair fields) before = before ++ after := by
    intro before after
    induction after generalizing before with
    | nil => simp
    | cons pair after ih =>
        intro hkeys
        have hnew : pair.1 ∉ before.map Prod.fst := by
          rw [List.map_append, List.nodup_append] at hkeys
          exact fun hmem => hkeys.2.2 _ hmem pair.1 (by simp) rfl
        rw [List.foldl_cons, upsert_of_notMem pair hnew, ih _ (by simpa using hkeys),
          List.append_assoc]
        rfl
  exact hfold [] pairs h

theorem words_whole {text : List Char} (h : IsWhole text) (rest : List Char) :
    (words.find? fun word => word.1.isPrefixOf (text ++ rest)) = none := by
  obtain ⟨sign, body, rfl, hsign, hbody⟩ := h
  obtain ⟨c, more, rfl, hdigit⟩ := hbody.head
  have hne : ∀ d : Char, d.isDigit = false → (d == c) = false := by
    intro d hd
    rw [beq_eq_false_iff_ne]
    rintro rfl
    rw [hd] at hdigit
    cases hdigit
  have hn := hne 'n' rfl
  have ht := hne 't' rfl
  have hf := hne 'f' rfl
  have hN := hne 'N' rfl
  have hI := hne 'I' rfl
  have hminus := hne '-' rfl
  rcases hsign with rfl | rfl
  · simp [words, List.isPrefixOf, hn, ht, hf, hN, hI, hminus]
  · simp [words, List.isPrefixOf, hI]

/-- Where no text, list or dictionary begins. -/
theorem scanOnce_other (floats : FloatText) (fuel : ℕ) {c : Char} {rest : List Char}
    (hquote : c ≠ '"') (hlist : c ≠ '[') (hdict : c ≠ '{') :
    scanOnce floats (fuel + 1) (c :: rest) =
      match words.find? fun word => word.1.isPrefixOf (c :: rest) with
      | some (word, value) => value.map fun value => (value, (c :: rest).drop word.length)
      | none => scanNumber floats (c :: rest) := by
  rw [scanOnce]
  all_goals first
    | rfl
    | intro rest' h
      have := (List.cons.inj h).1
      contradiction

/-- A written value, in any place: what is left of the text is left. -/
def ReadsBack (floats : FloatText) (style : JsonStyle) (value : Json) : Prop :=
  ∀ (fuel : ℕ) (rest : List Char), 2 * (dumps floats style value ++ rest).length < fuel →
    NumberEnds rest →
    scanOnce floats fuel (dumps floats style value ++ rest) = .ok (sortKeys value, rest)

/-- A value's text begins with itself. -/
theorem dumps_head {floats : FloatText} (style : JsonStyle) {value : Json}
    (h : Written floats value) : ∃ c more, dumps floats style value = c :: more ∧
      isJsonSpace c = false ∧ c ≠ ']' ∧ c ≠ '}' := by
  have hwhole : ∀ {text : List Char}, IsWhole text → ∃ c more, text = c :: more ∧
      isJsonSpace c = false ∧ c ≠ ']' ∧ c ≠ '}' := by
    rintro _ ⟨sign, body, rfl, rfl | rfl, hbody⟩
    · obtain ⟨c, more, rfl, hdigit⟩ := hbody.head
      refine ⟨c, more, rfl, ?_, ?_, ?_⟩
      · by_contra hspace
        simp only [isJsonSpace, List.mem_cons, List.not_mem_nil, or_false, decide_eq_false_iff_not,
          not_not] at hspace
        rcases hspace with rfl | rfl | rfl | rfl <;> cases hdigit
      · rintro rfl
        cases hdigit
      · rintro rfl
        cases hdigit
    · exact ⟨'-', body, rfl, by decide⟩
  cases h with
  | null => exact ⟨'n', _, rfl, by decide⟩
  | bool value => cases value <;> exact ⟨_, _, rfl, by decide⟩
  | int value => exact hwhole (isWhole_intText value)
  | float value h =>
      obtain ⟨⟨w, f, e, htext, hw, -⟩, -⟩ := h
      obtain ⟨c, more, rfl, hc⟩ := hwhole hw
      exact ⟨c, _, htext, hc⟩
  | str text => exact ⟨'"', _, rfl, by decide⟩
  | arr items => exact ⟨'[', _, rfl, by decide⟩
  | obj fields => exact ⟨'{', _, rfl, by decide⟩

theorem skipSpace_gap (style : JsonStyle) {c : Char} {more : List Char}
    (hc : isJsonSpace c = false) : skipSpace (style.gap ++ c :: more) = c :: more := by
  rw [skipSpace, List.dropWhile_append_of_pos style.gap_space]
  simp [hc]

theorem skipSpace_cons {c : Char} {more : List Char} (hc : isJsonSpace c = false) :
    skipSpace (c :: more) = c :: more := by
  simp [skipSpace, hc]

theorem joined_cons_cons (style : JsonStyle) (part next : List Char) (parts : List (List Char)) :
    joined style (part :: next :: parts) =
      part ++ ',' :: style.gap ++ joined style (next :: parts) := by
  simp [joined]

theorem joined_singleton (style : JsonStyle) (part : List Char) : joined style [part] = part := by
  simp [joined]

theorem scanItems_last {floats : FloatText} {fuel : ℕ} {text tail rest : List Char} {item : Json}
    (h : scanOnce floats fuel text = .ok (item, tail)) (htail : skipSpace tail = ']' :: rest) :
    scanItems floats (fuel + 1) text = .ok ([item], rest) := by
  show (scanOnce floats fuel text >>= _) = _
  rw [h]
  dsimp only [bind, Except.bind]
  rw [htail]
  rfl

theorem scanItems_more {floats : FloatText} {fuel : ℕ} {text tail next rest : List Char}
    {item : Json} {items : List Json} (h : scanOnce floats fuel text = .ok (item, tail))
    (htail : skipSpace tail = ',' :: next)
    (hmore : scanItems floats fuel (skipSpace next) = .ok (items, rest)) :
    scanItems floats (fuel + 1) text = .ok (item :: items, rest) := by
  show (scanOnce floats fuel text >>= _) = _
  rw [h]
  dsimp only [bind, Except.bind]
  rw [htail]
  show (scanItems floats fuel (skipSpace next) >>= _) = _
  rw [hmore]
  rfl

theorem numberEnds_of {c : Char} {rest : List Char}
    (h : c.isDigit = false ∧ c ≠ '.' ∧ c ≠ 'e' ∧ c ≠ 'E') : NumberEnds (c :: rest) := by
  rintro _ ⟨⟩
  exact h

/-- Parts begin as the first of them does. -/
theorem joined_head (style : JsonStyle) (c : Char) (more : List Char) (parts : List (List Char))
    (rest : List Char) :
    ∃ others, joined style ((c :: more) :: parts) ++ rest = c :: others := by
  cases parts with
  | nil => exact ⟨more ++ rest, by simp [joined_singleton]⟩
  | cons next parts =>
      rw [joined_cons_cons]
      exact ⟨_, rfl⟩

theorem scanItems_joined {floats : FloatText} {style : JsonStyle} {items : List Json}
    (hne : items ≠ []) (hwritten : ∀ item ∈ items, Written floats item)
    (hback : ∀ item ∈ items, ReadsBack floats style item) : ∀ (fuel : ℕ) (rest : List Char),
      2 * (joined style (items.map (dumps floats style)) ++ ']' :: rest).length + 1 < fuel →
      scanItems floats fuel (joined style (items.map (dumps floats style)) ++ ']' :: rest) =
        .ok (items.map sortKeys, rest) := by
  induction items with
  | nil => exact absurd rfl hne
  | cons item items ih =>
      intro fuel rest hfuel
      have hitem := hback item (by simp)
      obtain ⟨fuel, rfl⟩ : ∃ n, fuel = n + 1 := ⟨fuel - 1, by omega⟩
      cases items with
      | nil =>
          rw [List.map_singleton, joined_singleton] at hfuel ⊢
          exact scanItems_last (hitem fuel (']' :: rest) (by omega) (numberEnds_of (by decide)))
            (skipSpace_cons (by decide))
      | cons next items =>
          have hnext := ih (by simp) (fun v hv => hwritten v (by simp [hv]))
            (fun v hv => hback v (by simp [hv])) fuel rest
          obtain ⟨c, more, hhead, hspace, -⟩ := dumps_head style (hwritten next (by simp))
          obtain ⟨others, hothers⟩ := joined_head style c more (items.map (dumps floats style))
            (']' :: rest)
          rw [List.map_cons, List.map_cons, joined_cons_cons, List.append_assoc, List.append_assoc,
            List.cons_append, hhead, hothers] at hfuel ⊢
          rw [List.map_cons, hhead, hothers] at hnext
          refine scanItems_more (hitem fuel _ (by omega) (numberEnds_of (by decide)))
            (skipSpace_cons (by decide)) ?_
          rw [skipSpace_gap style hspace]
          exact hnext (by simp at hfuel ⊢; omega)

/-- A field of a dictionary. -/
def dumpsField (floats : FloatText) (style : JsonStyle) (f : String × Json) : List Char :=
  quoted style.ensureAscii f.1 ++ ':' :: style.gap ++ dumps floats style f.2

theorem scanFields_last {floats : FloatText} {fuel : ℕ} {text tail next last rest : List Char}
    {key : List Char} {value : Json} (hkey : scanChars fuel text = .ok (key, tail))
    (htail : skipSpace tail = ':' :: next)
    (hvalue : scanOnce floats fuel (skipSpace next) = .ok (value, last))
    (hlast : skipSpace last = '}' :: rest) :
    scanFields floats (fuel + 1) ('"' :: text) = .ok ([(String.ofList key, value)], rest) := by
  show (scanChars fuel text >>= _) = _
  rw [hkey]
  dsimp only [bind, Except.bind]
  rw [htail]
  show (scanOnce floats fuel (skipSpace next) >>= _) = _
  rw [hvalue]
  dsimp only [bind, Except.bind]
  rw [hlast]
  rfl

theorem scanFields_more {floats : FloatText} {fuel : ℕ} {text tail next last more rest : List Char}
    {key : List Char} {value : Json} {fields : List (String × Json)}
    (hkey : scanChars fuel text = .ok (key, tail)) (htail : skipSpace tail = ':' :: next)
    (hvalue : scanOnce floats fuel (skipSpace next) = .ok (value, last))
    (hlast : skipSpace last = ',' :: more)
    (hmore : scanFields floats fuel (skipSpace more) = .ok (fields, rest)) :
    scanFields floats (fuel + 1) ('"' :: text) =
      .ok ((String.ofList key, value) :: fields, rest) := by
  show (scanChars fuel text >>= _) = _
  rw [hkey]
  dsimp only [bind, Except.bind]
  rw [htail]
  show (scanOnce floats fuel (skipSpace next) >>= _) = _
  rw [hvalue]
  dsimp only [bind, Except.bind]
  rw [hlast]
  show (scanFields floats fuel (skipSpace more) >>= _) = _
  rw [hmore]
  rfl

/-- A field is a quoted key, a colon and a value. -/
theorem dumpsField_append (floats : FloatText) (style : JsonStyle) (f : String × Json)
    (rest : List Char) : dumpsField floats style f ++ rest =
      '"' :: (f.1.toList.flatMap (escape style.ensureAscii) ++
        '"' :: ':' :: (style.gap ++ (dumps floats style f.2 ++ rest))) := by
  simp [dumpsField, quoted]

theorem scanFields_joined {floats : FloatText} {style : JsonStyle} {fields : List (String × Json)}
    (hne : fields ≠ []) (hwritten : ∀ f ∈ fields, Written floats f.2)
    (hback : ∀ f ∈ fields, ReadsBack floats style f.2) : ∀ (fuel : ℕ) (rest : List Char),
      2 * (joined style (fields.map (dumpsField floats style)) ++ '}' :: rest).length + 1 < fuel →
      scanFields floats fuel (joined style (fields.map (dumpsField floats style)) ++ '}' :: rest) =
        .ok (fields.map fun f => (f.1, sortKeys f.2), rest) := by
  induction fields with
  | nil => exact absurd rfl hne
  | cons f fields ih =>
      intro fuel rest hfuel
      obtain ⟨fuel, rfl⟩ : ∃ n, fuel = n + 1 := ⟨fuel - 1, by omega⟩
      obtain ⟨c, more, hhead, hspace, -⟩ := dumps_head style (hwritten f (by simp))
      have hkey := scanChars_escape style.ensureAscii f.1.toList
      -- what the field is read as, whatever follows it
      have hvalue : ∀ tail, 2 * (dumps floats style f.2 ++ tail).length < fuel → NumberEnds tail →
          scanOnce floats fuel (skipSpace (style.gap ++ (dumps floats style f.2 ++ tail))) =
            .ok (sortKeys f.2, tail) := by
        intro tail hlen htail
        rw [hhead, List.cons_append, skipSpace_gap style hspace, ← List.cons_append, ← hhead]
        exact hback f (by simp) fuel tail hlen htail
      cases fields with
      | nil =>
          rw [List.map_singleton, joined_singleton, dumpsField_append] at hfuel ⊢
          simp only [List.length_cons, List.length_append] at hfuel
          rw [scanFields_last
            (hkey _ fuel (by simp only [List.length_cons, List.length_append]; omega))
            (skipSpace_cons (by decide))
            (hvalue _ (by simp only [List.length_cons, List.length_append]; omega)
              (numberEnds_of (by decide)))
            (skipSpace_cons (by decide)), String.ofList_toList]
          rfl
      | cons next fields =>
          have hnext := ih (by simp) (fun v hv => hwritten v (by simp [hv]))
            (fun v hv => hback v (by simp [hv])) fuel rest
          obtain ⟨others, hothers⟩ : ∃ others,
              joined style ((next :: fields).map (dumpsField floats style)) ++ '}' :: rest =
                '"' :: others := by
            rw [List.map_cons, dumpsField, quoted]
            exact joined_head style '"' _ _ _
          rw [hothers] at hnext
          rw [List.map_cons, List.map_cons, joined_cons_cons, List.append_assoc, List.append_assoc,
            List.cons_append, ← List.map_cons, hothers, dumpsField_append] at hfuel ⊢
          simp only [List.length_cons, List.length_append] at hfuel hnext
          rw [scanFields_more
            (hkey _ fuel (by simp only [List.length_cons, List.length_append]; omega))
            (skipSpace_cons (by decide))
            (hvalue _ (by simp only [List.length_cons, List.length_append]; omega)
              (numberEnds_of (by decide)))
            (skipSpace_cons (by decide))
            (by rw [skipSpace_gap style (by decide)]; exact hnext (by omega)),
            String.ofList_toList]
          rfl

theorem scanOnce_whole (floats : FloatText) (fuel : ℕ) {text : List Char} (h : IsWhole text)
    (rest : List Char) :
    scanOnce floats (fuel + 1) (text ++ rest) = scanNumber floats (text ++ rest) := by
  have hwords := words_whole h rest
  obtain ⟨c, more, rfl, hc⟩ : ∃ c more, text = c :: more ∧ c ≠ '"' ∧ c ≠ '[' ∧ c ≠ '{' := by
    obtain ⟨sign, body, rfl, rfl | rfl, hbody⟩ := h
    · obtain ⟨c, more, rfl, hdigit⟩ := hbody.head
      refine ⟨c, more, rfl, ?_, ?_, ?_⟩ <;> rintro rfl <;> cases hdigit
    · exact ⟨'-', body, rfl, by decide⟩
  rw [List.cons_append] at hwords ⊢
  rw [scanOnce_other floats fuel hc.1 hc.2.1 hc.2.2, hwords]

theorem scanOnce_quote {floats : FloatText} {fuel : ℕ} {text rest chars : List Char}
    (h : scanChars fuel text = .ok (chars, rest)) :
    scanOnce floats (fuel + 1) ('"' :: text) = .ok (.str (String.ofList chars), rest) := by
  show (scanChars fuel text >>= _) = _
  rw [h]
  rfl

theorem scanOnce_list {floats : FloatText} {fuel : ℕ} {c : Char} {more rest : List Char}
    {items : List Json} (hspace : isJsonSpace c = false) (hne : c ≠ ']')
    (h : scanItems floats fuel (c :: more) = .ok (items, rest)) :
    scanOnce floats (fuel + 1) ('[' :: c :: more) = .ok (.arr items, rest) := by
  rw [scanOnce_bracket, skipSpace_cons hspace]
  split
  · rename_i heq
    exact absurd (List.cons.inj heq).1 hne
  · rw [h]
    rfl

theorem scanOnce_dict {floats : FloatText} {fuel : ℕ} {c : Char} {more rest : List Char}
    {fields : List (String × Json)} (hspace : isJsonSpace c = false) (hne : c ≠ '}')
    (h : scanFields floats fuel (c :: more) = .ok (fields, rest)) :
    scanOnce floats (fuel + 1) ('{' :: c :: more) = .ok (.obj (ofPairs fields), rest) := by
  rw [scanOnce_brace, skipSpace_cons hspace]
  split
  · rename_i heq
    exact absurd (List.cons.inj heq).1 hne
  · rw [h]
    rfl

theorem inOrder_keys {α : Type} (fields : List (String × α)) :
    (inOrder fields).Perm fields := List.perm_insertionSort _ fields

/-- **A written value is read back in any place.** -/
theorem scanOnce_dumps {floats : FloatText} (style : JsonStyle) {value : Json}
    (h : Written floats value) : ReadsBack floats style value := by
  induction h with
  | null =>
      intro fuel rest hfuel _
      obtain ⟨fuel, rfl⟩ : ∃ n, fuel = n + 1 := ⟨fuel - 1, by omega⟩
      exact scanOnce_other floats fuel (c := 'n') (by decide) (by decide) (by decide)
  | bool value =>
      intro fuel rest hfuel _
      obtain ⟨fuel, rfl⟩ : ∃ n, fuel = n + 1 := ⟨fuel - 1, by omega⟩
      cases value with
      | true => exact scanOnce_other floats fuel (c := 't') (by decide) (by decide) (by decide)
      | false => exact scanOnce_other floats fuel (c := 'f') (by decide) (by decide) (by decide)
  | int value =>
      intro fuel rest hfuel hrest
      obtain ⟨fuel, rfl⟩ : ∃ n, fuel = n + 1 := ⟨fuel - 1, by omega⟩
      rw [dumps_int, scanOnce_whole floats fuel (isWhole_intText value), sortKeys]
      exact scanNumber_int floats value hrest
  | float value h =>
      intro fuel rest hfuel hrest
      obtain ⟨fuel, rfl⟩ : ∃ n, fuel = n + 1 := ⟨fuel - 1, by omega⟩
      obtain ⟨⟨w, f, e, htext, hw, -⟩, -⟩ := id h
      rw [dumps_float, sortKeys, ← scanNumber_float h hrest, htext, List.append_assoc,
        List.append_assoc]
      exact scanOnce_whole floats fuel hw _
  | str text =>
      intro fuel rest hfuel _
      obtain ⟨fuel, rfl⟩ : ∃ n, fuel = n + 1 := ⟨fuel - 1, by omega⟩
      rw [dumps_str, quoted, List.append_assoc, List.cons_append, List.singleton_append] at hfuel ⊢
      rw [List.length_cons] at hfuel
      rw [scanOnce_quote (scanChars_escape style.ensureAscii text.toList rest fuel (by omega)),
        String.ofList_toList, sortKeys]
  | arr items h ih =>
      intro fuel rest hfuel _
      obtain ⟨fuel, rfl⟩ : ∃ n, fuel = n + 1 := ⟨fuel - 1, by omega⟩
      rw [dumps_arr, sortKeys_arr, List.append_assoc, List.cons_append, List.singleton_append] at *
      cases items with
      | nil => rfl
      | cons item items =>
          have hback := scanItems_joined (by simp) h ih fuel rest
          obtain ⟨c, more, hhead, hspace, hne, -⟩ := dumps_head style (h item (by simp))
          obtain ⟨others, hothers⟩ := joined_head style c more (items.map (dumps floats style))
            (']' :: rest)
          rw [List.map_cons, hhead, hothers] at hback
          rw [List.map_cons, hhead, hothers] at hfuel ⊢
          simp only [List.length_cons] at hfuel hback
          exact scanOnce_list hspace hne (hback (by omega))
  | obj fields hkeys h ih =>
      intro fuel rest hfuel _
      obtain ⟨fuel, rfl⟩ : ∃ n, fuel = n + 1 := ⟨fuel - 1, by omega⟩
      have hperm := inOrder_keys fields
      have hsorted : (((inOrder fields).map fun f => (f.1, sortKeys f.2)).map Prod.fst).Nodup := by
        rw [List.map_map]
        exact (hperm.map Prod.fst).nodup_iff.mpr hkeys
      rw [dumps_obj, sortKeys_obj, List.append_assoc, List.cons_append, List.singleton_append] at *
      show scanOnce floats (fuel + 1) ('{' :: (joined style ((inOrder fields).map
        (dumpsField floats style)) ++ '}' :: rest)) = _
      change 2 * ('{' :: (joined style ((inOrder fields).map
        (dumpsField floats style)) ++ '}' :: rest)).length < fuel + 1 at hfuel
      have hback := fun hne => @scanFields_joined _ style _ hne
        (fun f hf => h f (hperm.mem_iff.mp hf)) (fun f hf => ih f (hperm.mem_iff.mp hf)) fuel rest
      cases horder : inOrder fields with
      | nil => rfl
      | cons f others =>
          rw [horder] at hfuel hback hsorted
          have hback := hback (by simp)
          obtain ⟨others', hothers⟩ : ∃ others',
              joined style ((f :: others).map (dumpsField floats style)) ++ '}' :: rest =
                '"' :: others' := by
            rw [List.map_cons, dumpsField, quoted]
            exact joined_head style '"' _ _ _
          rw [hothers] at hfuel hback ⊢
          simp only [List.length_cons] at hfuel hback
          rw [scanOnce_dict (by decide) (by decide) (hback (by omega)), ofPairs_eq hsorted]

theorem numberEnds_space {space : List Char} (h : ∀ c ∈ space, isJsonSpace c = true) :
    NumberEnds space := by
  intro c hc
  have hspace := h c (List.mem_of_mem_head? hc)
  simp only [isJsonSpace, List.mem_cons, List.not_mem_nil, or_false, decide_eq_true_eq] at hspace
  rcases hspace with rfl | rfl | rfl | rfl <;> decide

/-- **A written value is read back with its dictionaries in key order.** -/
theorem loads_dumps {floats : FloatText} (style : JsonStyle) {value : Json}
    (h : Written floats value) {space : List Char} (hspace : ∀ c ∈ space, isJsonSpace c = true) :
    loads floats (dumps floats style value ++ space) = .ok (sortKeys value) := by
  obtain ⟨c, more, hhead, hc, -⟩ := dumps_head style h
  have hstart : skipSpace (dumps floats style value ++ space) =
      dumps floats style value ++ space := by
    rw [hhead]
    exact skipSpace_cons hc
  have hend : skipSpace space = [] := List.dropWhile_eq_nil_iff.mpr hspace
  rw [loads, hstart, scanOnce_dumps style h _ space (by omega) (numberEnds_space hspace)]
  show (if skipSpace space = [] then _ else _) = _
  rw [if_pos hend]
  rfl

/-! ### Key order -/

theorem inOrder_inOrder {α : Type} (fields : List (String × α)) :
    inOrder (inOrder fields) = inOrder fields := by
  have : Std.Total fun f g : String × α => f.1 ≤ g.1 := ⟨fun f g => le_total f.1 g.1⟩
  have : IsTrans (String × α) fun f g => f.1 ≤ g.1 := ⟨fun _ _ _ => le_trans⟩
  exact (List.pairwise_insertionSort _ fields).insertionSort_eq

/-- The text of a value says nothing of the order of its keys. -/
theorem dumps_sortKeys {floats : FloatText} (style : JsonStyle) {value : Json}
    (h : Written floats value) :
    dumps floats style (sortKeys value) = dumps floats style value := by
  induction h with
  | null | bool | int | float | str => rfl
  | arr items h ih =>
      have hparts : items.map (dumps floats style ∘ sortKeys) = items.map (dumps floats style) :=
        List.map_congr_left ih
      rw [sortKeys_arr, dumps_arr, dumps_arr, List.map_map, hparts]
  | obj fields hkeys h ih =>
      rw [sortKeys_obj, dumps_obj, dumps_obj, inOrder_map, inOrder_inOrder, List.map_map]
      have hparts : (inOrder fields).map (dumpsField floats style ∘ fun f => (f.1, sortKeys f.2)) =
          (inOrder fields).map (dumpsField floats style) := by
        refine List.map_congr_left fun f hf => ?_
        show _ ++ dumps floats style (sortKeys f.2) = _
        rw [ih f ((inOrder_keys fields).mem_iff.mp hf)]
        rfl
      exact congrArg (fun parts => '{' :: joined style parts ++ ['}']) hparts

theorem written_sortKeys {floats : FloatText} {value : Json} (h : Written floats value) :
    Written floats (sortKeys value) := by
  induction h with
  | null => exact .null
  | bool value => exact .bool value
  | int value => exact .int value
  | float value h => exact .float value h
  | str text => exact .str text
  | arr items h ih =>
      rw [sortKeys_arr]
      refine .arr _ fun item hitem => ?_
      obtain ⟨item, hmem, rfl⟩ := List.mem_map.mp hitem
      exact ih item hmem
  | obj fields hkeys h ih =>
      have hperm := inOrder_keys fields
      rw [sortKeys_obj]
      refine .obj _ ?_ fun f hf => ?_
      · rw [List.map_map]
        exact (hperm.map Prod.fst).nodup_iff.mpr hkeys
      · obtain ⟨f, hmem, rfl⟩ := List.mem_map.mp hf
        exact ih f (hperm.mem_iff.mp hmem)

/-- Where a text begins with a value, the value and what is left are determined. -/
theorem dumps_append_inj {floats : FloatText} (style : JsonStyle) {value other : Json}
    (h : Written floats value) (h' : Written floats other) {rest rest' : List Char}
    (hrest : NumberEnds rest) (hrest' : NumberEnds rest')
    (htext : dumps floats style value ++ rest = dumps floats style other ++ rest') :
    sortKeys value = sortKeys other ∧ rest = rest' := by
  have hread := scanOnce_dumps style h _ rest (Nat.lt_succ_self _) hrest
  rw [htext, scanOnce_dumps style h' _ rest' (Nat.lt_succ_self _) hrest'] at hread
  obtain ⟨hvalue, hrest⟩ := Prod.mk.inj (Except.ok.inj hread)
  exact ⟨hvalue.symm, hrest.symm⟩

/-- **The text of a value determines it up to the order of its keys.** -/
theorem dumps_inj {floats : FloatText} (style : JsonStyle) {value other : Json}
    (h : Written floats value) (h' : Written floats other) :
    dumps floats style value = dumps floats style other ↔ sortKeys value = sortKeys other := by
  constructor
  · intro htext
    have hends : NumberEnds [] := numberEnds_space (by simp)
    exact (dumps_append_inj style h h' hends hends (by rw [htext])).1
  · intro hsorted
    rw [← dumps_sortKeys style h, hsorted, dumps_sortKeys style h']

/-! ### A written value is one line -/

/-- A text without control characters. -/
def Printable (text : List Char) : Prop := ∀ c ∈ text, 0x20 ≤ c.toNat

theorem Printable.append {xs ys : List Char} (hx : Printable xs) (hy : Printable ys) :
    Printable (xs ++ ys) := by
  intro c hc
  rcases List.mem_append.mp hc with hc | hc
  · exact hx c hc
  · exact hy c hc

theorem Printable.cons {c : Char} {xs : List Char} (hc : 0x20 ≤ c.toNat) (hx : Printable xs) :
    Printable (c :: xs) := List.forall_mem_cons.mpr ⟨hc, hx⟩

theorem printable_nil : Printable [] := by simp [Printable]

theorem printable_digits {ds : List Char} (h : ∀ c ∈ ds, c.isDigit = true) : Printable ds := by
  intro c hc
  have hdigit := h c hc
  simp only [Char.isDigit, Bool.and_eq_true, decide_eq_true_eq] at hdigit
  have hlow : '0'.toNat ≤ c.toNat := hdigit.1
  exact le_trans (by decide) hlow

theorem printable_word {word : List Char} (h : word.all Char.isAlpha = true) : Printable word := by
  intro c hc
  have halpha := List.all_eq_true.mp h c hc
  simp only [Char.isAlpha, Char.isUpper, Char.isLower, Bool.or_eq_true, Bool.and_eq_true,
    decide_eq_true_eq] at halpha
  have hlow : 'A'.toNat ≤ c.toNat := by
    rcases halpha with h | h
    · exact h.1
    · exact le_trans (by decide) (show 'a'.toNat ≤ c.toNat from h.1)
  exact le_trans (by decide) hlow

theorem printable_whole {text : List Char} (h : IsWhole text) : Printable text := by
  obtain ⟨sign, body, rfl, hsign, hbody⟩ := h
  refine Printable.append ?_ ?_
  · rcases hsign with rfl | rfl
    · exact printable_nil
    · exact Printable.cons (by decide) printable_nil
  · rcases hbody with rfl | ⟨-, hdigits, -⟩
    · exact Printable.cons (by decide) printable_nil
    · exact printable_digits hdigits

theorem printable_float {text : List Char} (h : IsFloat text) : Printable text := by
  obtain ⟨w, f, e, rfl, hw, hf, he, -⟩ := h
  refine Printable.append (Printable.append (printable_whole hw) ?_) ?_
  · rcases hf with rfl | ⟨ds, -, hds, rfl⟩
    · exact printable_nil
    · exact Printable.cons (by decide) (printable_digits hds)
  · rcases he with rfl | ⟨mark, sign, ds, hmark, hsign, -, hds, rfl⟩
    · exact printable_nil
    · have hmark : 0x20 ≤ mark.toNat := by rcases hmark with rfl | rfl <;> decide
      refine Printable.append (Printable.cons hmark ?_) (printable_digits hds)
      rcases hsign with rfl | rfl | rfl
      · exact printable_nil
      · exact Printable.cons (by decide) printable_nil
      · exact Printable.cons (by decide) printable_nil

theorem printable_hex4 (n : ℕ) : Printable (hex4 n) := by
  intro c hc
  obtain ⟨d, hd, rfl⟩ := List.mem_map.mp hc
  have hlt : d < 16 := by
    simp only [List.mem_cons, List.not_mem_nil, or_false] at hd
    omega
  interval_cases d <;> decide

theorem printable_escape (ensureAscii : Bool) (c : Char) : Printable (escape ensureAscii c) := by
  unfold escape
  split
  · rename_i short hshort
    have hmem := List.mem_of_find?_eq_some hshort
    refine Printable.cons (by decide) (Printable.cons ?_ printable_nil)
    simp only [shortEscapes, List.mem_cons, Prod.mk.injEq, List.not_mem_nil, or_false] at hmem
    rcases hmem with h | h | h | h | h | h | h <;> rw [h.2] <;> decide
  · split
    · unfold unicodeEscape
      split
      · exact Printable.cons (by decide) (Printable.cons (by decide) (printable_hex4 _))
      · refine Printable.append ?_ ?_
        · exact Printable.cons (by decide) (Printable.cons (by decide) (printable_hex4 _))
        · exact Printable.cons (by decide) (Printable.cons (by decide) (printable_hex4 _))
    · rename_i hplain
      simp only [Bool.or_eq_true, decide_eq_true_eq, not_or, not_lt] at hplain
      exact Printable.cons hplain.1 printable_nil

theorem printable_quoted (ensureAscii : Bool) (text : String) :
    Printable (quoted ensureAscii text) := by
  refine Printable.append (Printable.cons (by decide) ?_) (Printable.cons (by decide) printable_nil)
  intro c hc
  obtain ⟨d, -, hd⟩ := List.mem_flatMap.mp hc
  exact printable_escape ensureAscii d c hd

theorem printable_joined {style : JsonStyle} (hgap : Printable style.gap)
    {parts : List (List Char)} (h : ∀ part ∈ parts, Printable part) :
    Printable (joined style parts) := by
  induction parts with
  | nil => exact printable_nil
  | cons part parts ih =>
      cases parts with
      | nil =>
          rw [joined_singleton]
          exact h part (by simp)
      | cons next parts =>
          rw [joined_cons_cons]
          exact ((h part (by simp)).append (hgap.cons (by decide))).append
            (ih fun p hp => h p (by simp [hp]))

/-- **A written value has no control characters, and so no newline.** -/
theorem printable_dumps {floats : FloatText} {style : JsonStyle} (hgap : Printable style.gap)
    {value : Json} (h : Written floats value) : Printable (dumps floats style value) := by
  induction h with
  | null => exact printable_word rfl
  | bool value => cases value <;> exact printable_word rfl
  | int value => exact printable_whole (isWhole_intText value)
  | float value h => exact printable_float h.1
  | str text => exact printable_quoted _ text
  | arr items h ih =>
      rw [dumps_arr]
      refine Printable.append (Printable.cons (by decide) (printable_joined hgap ?_))
        (Printable.cons (by decide) printable_nil)
      intro part hpart
      obtain ⟨item, hitem, rfl⟩ := List.mem_map.mp hpart
      exact ih item hitem
  | obj fields hkeys h ih =>
      rw [dumps_obj]
      refine Printable.append (Printable.cons (by decide) (printable_joined hgap ?_))
        (Printable.cons (by decide) printable_nil)
      intro part hpart
      obtain ⟨f, hf, rfl⟩ := List.mem_map.mp hpart
      exact ((printable_quoted _ f.1).append (hgap.cons (by decide))).append
        (ih f ((inOrder_keys fields).mem_iff.mp hf))

end JsonText

end Py
