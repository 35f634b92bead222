/-
Integers in texts, as `str` writes them and `int` reads them.

`int` takes the decimal digits of any script, with single underscores between digits, a sign
and space around it, and no more digits than Python converts by default.  What is written is
read back (`wholeOfText_intText`), unless it has too many digits (`intOfText_intText`), and
whatever is read has no more than that (`natAbs_lt_of_intOfText`).
-/
import GhostAmm.Lib.Lines
import GhostAmm.Lib.Python

namespace Py

/-- `str(n)`. -/
def intText (n : ℤ) : List Char := if n < 0 then '-' :: zeroPad 1 n.natAbs else zeroPad 1 n.natAbs

/-- The decimal zeros of Unicode 15; the digits from one to nine follow each of them. -/
def digitZeros : List ℕ :=
  [0x30, 0x660, 0x6f0, 0x7c0, 0x966, 0x9e6, 0xa66, 0xae6, 0xb66, 0xbe6, 0xc66, 0xce6, 0xd66,
   0xde6, 0xe50, 0xed0, 0xf20, 0x1040, 0x1090, 0x17e0, 0x1810, 0x1946, 0x19d0, 0x1a80, 0x1a90,
   0x1b50, 0x1bb0, 0x1c40, 0x1c50, 0xa620, 0xa8d0, 0xa900, 0xa9d0, 0xa9f0, 0xaa50, 0xabf0,
   0xff10, 0x104a0, 0x10d30, 0x11066, 0x110f0, 0x11136, 0x111d0, 0x112f0, 0x11450, 0x114d0,
   0x11650, 0x116c0, 0x11730, 0x118e0, 0x11950, 0x11c50, 0x11d50, 0x11da0, 0x11f50, 0x16a60,
   0x16ac0, 0x16b50, 0x1d7ce, 0x1d7d8, 0x1d7e2, 0x1d7ec, 0x1d7f6, 0x1e140, 0x1e2f0, 0x1e4f0,
   0x1e950, 0x1fbf0]

/-- The value of a decimal digit. -/
def decimalDigit (c : Char) : Option ℕ :=
  (digitZeros.find? fun first => decide (first ≤ c.toNat ∧ c.toNat < first + 10)).map fun first =>
    c.toNat - first

/-- The space `int` allows around a number, which the separators U+001C to U+001F are not. -/
def isIntSpace (c : Char) : Bool := isspace c && !(28 ≤ c.toNat && c.toNat ≤ 31)

private def digitsOf (acc : ℕ) : List Char → Option ℕ
  | [] => some acc
  | '_' :: c :: rest => (decimalDigit c).bind fun d => digitsOf (acc * 10 + d) rest
  | c :: rest => (decimalDigit c).bind fun d => digitsOf (acc * 10 + d) rest

private def naturalOf : List Char → Option ℕ
  | c :: rest => (decimalDigit c).bind fun d => digitsOf d rest
  | [] => none

/-- A sign and digits, with single underscores between digits. -/
def wholeOfText : List Char → Option ℤ
  | '-' :: rest => (naturalOf rest).map fun (n : ℕ) => -(n : ℤ)
  | '+' :: rest => (naturalOf rest).map Int.ofNat
  | rest => (naturalOf rest).map Int.ofNat

/-- `sys.get_int_max_str_digits()`, where nobody has set it. -/
def maxStrDigits : ℕ := 4300

/-- `int(text)` in base ten, `none` for a `ValueError`. -/
def intOfText (text : String) : Option ℤ :=
  let stripped := (text.toList.dropWhile isIntSpace).rdropWhile isIntSpace
  if maxStrDigits < stripped.countP fun c => (decimalDigit c).isSome then none
  else wholeOfText stripped

/-! ### A number written out is read back -/

theorem decimalDigit_digitChar {d : ℕ} (h : d < 10) :
    decimalDigit (Nat.digitChar d) = some d := by
  interval_cases d <;> rfl

/-- The characters of a number. -/
def numberChars : List Char := ['-', '0', '1', '2', '3', '4', '5', '6', '7', '8', '9']

theorem mem_numberChars_of_mem_zeroPad {width n : ℕ} {c : Char} (h : c ∈ zeroPad width n) :
    c ∈ numberChars := by
  obtain ⟨d, hd, rfl⟩ := exists_digitChar_of_mem_zeroPad h
  interval_cases d <;> decide

theorem mem_intText {n : ℤ} {c : Char} (h : c ∈ intText n) : c ∈ numberChars := by
  unfold intText at h
  split at h
  · rcases List.mem_cons.mp h with rfl | h
    · decide
    · exact mem_numberChars_of_mem_zeroPad h
  · exact mem_numberChars_of_mem_zeroPad h

theorem intText_ne_nil (n : ℤ) : intText n ≠ [] := by
  unfold intText
  split
  · exact List.cons_ne_nil _ _
  · exact zeroPad_one_ne_nil _

/-- What a text of digits is worth, after the digits before it. -/
private theorem digitsOf_map : ∀ (ds : List ℕ) (acc : ℕ), (∀ d ∈ ds, d < 10) →
    digitsOf acc (ds.map Nat.digitChar)
      = some (acc * 10 ^ ds.length + Nat.ofDigits 10 ds.reverse) := by
  intro ds
  induction ds with
  | nil =>
      intro acc _
      simp [digitsOf]
  | cons d rest ih =>
      intro acc hlt
      have hd := hlt d List.mem_cons_self
      have hunderscore : Nat.digitChar d ≠ '_' := by
        interval_cases d <;> decide
      rw [List.map_cons, digitsOf.eq_3 _ _ _ (fun _ _ h _ => hunderscore h),
        decimalDigit_digitChar hd, Option.bind_some,
        ih _ fun e he => hlt e (List.mem_cons_of_mem _ he), List.reverse_cons,
        Nat.ofDigits_append, List.length_reverse, Nat.ofDigits_singleton, List.length_cons]
      congr 1
      ring

private theorem naturalOf_map {ds : List ℕ} (hne : ds ≠ []) (hlt : ∀ d ∈ ds, d < 10) :
    naturalOf (ds.map Nat.digitChar) = some (Nat.ofDigits 10 ds.reverse) := by
  cases ds with
  | nil => exact absurd rfl hne
  | cons d rest =>
      have hdigits := digitsOf_map (d :: rest) 0 hlt
      have hd := hlt d List.mem_cons_self
      rw [zero_mul, zero_add] at hdigits
      rw [← hdigits, List.map_cons, naturalOf]
      have hunderscore : Nat.digitChar d ≠ '_' := by
        interval_cases d <;> decide
      rw [digitsOf.eq_3 _ _ _ (fun _ _ h _ => hunderscore h), zero_mul]
      refine congrArg _ (funext fun e => ?_)
      rw [zero_add]

private theorem naturalOf_zeroPad (n : ℕ) : naturalOf (zeroPad 1 n) = some n := by
  have hdigits : ∀ d ∈ (Nat.digits 10 n).reverse, d < 10 := fun d hd =>
    Nat.digits_lt_base (by norm_num) (List.mem_reverse.mp hd)
  unfold zeroPad
  cases hn : Nat.digits 10 n with
  | nil =>
      obtain rfl := Nat.digits_eq_nil_iff_eq_zero.mp hn
      rfl
  | cons d rest =>
      rw [hn] at hdigits
      have hnatural := naturalOf_map (by simp) hdigits
      rw [List.reverse_reverse, ← hn, Nat.ofDigits_digits, hn] at hnatural
      rw [List.length_cons, show 1 - (rest.length + 1) = 0 by omega, List.replicate_zero,
        List.nil_append, ← List.map_reverse]
      exact hnatural

/-- **A number written out is read back.** -/
theorem wholeOfText_intText (n : ℤ) : wholeOfText (intText n) = some n := by
  unfold intText
  split
  · have habs : -((n.natAbs : ℕ) : ℤ) = n := by omega
    rw [wholeOfText, naturalOf_zeroPad, Option.map_some, habs]
  · have hdigits : ∀ c ∈ zeroPad 1 n.natAbs, c.isDigit = true := fun c => isDigit_of_mem_zeroPad
    have hvalue := naturalOf_zeroPad n.natAbs
    cases htext : zeroPad 1 n.natAbs with
    | nil => exact absurd htext (zeroPad_one_ne_nil _)
    | cons c rest =>
        rw [htext] at hvalue hdigits
        have hc := hdigits c List.mem_cons_self
        have hminus : c ≠ '-' := by
          rintro rfl
          exact absurd hc (by decide)
        have hplus : c ≠ '+' := by
          rintro rfl
          exact absurd hc (by decide)
        have habs : Int.ofNat n.natAbs = n := by
          show ((n.natAbs : ℕ) : ℤ) = n
          omega
        rw [wholeOfText.eq_3 _ (fun _ h => hminus (List.cons.inj h).1)
          (fun _ h => hplus (List.cons.inj h).1), hvalue, Option.map_some, habs]

/-! ### The number of digits -/

theorem length_zeroPad_one_le_iff {k n : ℕ} (hk : 0 < k) :
    (zeroPad 1 n).length ≤ k ↔ n < 10 ^ k := by
  rw [← Nat.digits_length_le_iff (by norm_num)]
  unfold zeroPad
  rw [List.length_append, List.length_replicate, List.length_reverse, List.length_map]
  omega

private theorem countP_decimalDigit_intText (n : ℤ) :
    ((intText n).countP fun c => (decimalDigit c).isSome) = (zeroPad 1 n.natAbs).length := by
  have hall : ((zeroPad 1 n.natAbs).countP fun c => (decimalDigit c).isSome)
      = (zeroPad 1 n.natAbs).length := by
    rw [List.countP_eq_length]
    intro c hc
    obtain ⟨d, hd, rfl⟩ := exists_digitChar_of_mem_zeroPad hc
    rw [decimalDigit_digitChar hd]
    rfl
  unfold intText
  split
  · rw [List.countP_cons_of_neg (by decide), hall]
  · exact hall

/-- Whatever neither begins nor ends with space is not stripped. -/
private theorem strip_eq_self {text : List Char} (h : ∀ c ∈ text, isIntSpace c = false) :
    (text.dropWhile isIntSpace).rdropWhile isIntSpace = text := by
  have hfront : text.dropWhile isIntSpace = text := by
    cases text with
    | nil => rfl
    | cons c rest => exact List.dropWhile_cons_of_neg (by simp [h c List.mem_cons_self])
  rw [hfront, List.rdropWhile_eq_self_iff]
  intro hne
  simp [h _ (List.getLast_mem hne)]

theorem intOfText_intText {n : ℤ} (h : n.natAbs < 10 ^ maxStrDigits) :
    intOfText (String.ofList (intText n)) = some n := by
  have hnumber : (numberChars.all fun c => !isIntSpace c) = true := rfl
  have hspace : ∀ c ∈ intText n, isIntSpace c = false := by
    intro c hc
    simpa using List.all_eq_true.mp hnumber c (mem_intText hc)
  have hshort := (length_zeroPad_one_le_iff (by decide)).mpr h
  unfold intOfText
  rw [String.toList_ofList, strip_eq_self hspace]
  dsimp only
  rw [countP_decimalDigit_intText, if_neg (not_lt.mpr hshort), wholeOfText_intText]

theorem decimalDigit_lt {c : Char} {d : ℕ} (h : decimalDigit c = some d) : d < 10 := by
  obtain ⟨first, hfirst, rfl⟩ := Option.map_eq_some_iff.mp h
  have hrange := List.find?_some hfirst
  simp only [decide_eq_true_eq] at hrange
  omega

private theorem lt_of_digit {c : Char} {d acc n k : ℕ} (hd : decimalDigit c = some d)
    (h : n < (acc * 10 + d + 1) * 10 ^ k) : n < (acc + 1) * 10 ^ (k + 1) := by
  have hlt := decimalDigit_lt hd
  calc n < (acc * 10 + d + 1) * 10 ^ k := h
    _ ≤ (acc * 10 + 10) * 10 ^ k := Nat.mul_le_mul_right _ (by omega)
    _ = (acc + 1) * 10 ^ (k + 1) := by ring

private theorem lt_of_digitsOf {text : List Char} {acc n : ℕ} (h : digitsOf acc text = some n) :
    n < (acc + 1) * 10 ^ text.countP fun c => (decimalDigit c).isSome := by
  induction acc, text using digitsOf.induct with
  | case1 acc =>
      obtain rfl := Option.some.inj h
      simp
  | case2 acc c rest ih =>
      rw [digitsOf] at h
      obtain ⟨d, hd, hrest⟩ := Option.bind_eq_some_iff.mp h
      rw [List.countP_cons_of_neg (by decide), List.countP_cons_of_pos (by simp [hd])]
      exact lt_of_digit hd (ih d hrest)
  | case3 acc c rest hc ih =>
      rw [digitsOf.eq_3 _ _ _ hc] at h
      obtain ⟨d, hd, hrest⟩ := Option.bind_eq_some_iff.mp h
      rw [List.countP_cons_of_pos (by simp [hd])]
      exact lt_of_digit hd (ih d hrest)

private theorem lt_of_naturalOf {text : List Char} {n : ℕ} (h : naturalOf text = some n) :
    n < 10 ^ text.countP fun c => (decimalDigit c).isSome := by
  cases text with
  | nil => cases h
  | cons c rest =>
      obtain ⟨d, hd, hrest⟩ := Option.bind_eq_some_iff.mp h
      rw [List.countP_cons_of_pos (by simp [hd])]
      have hlt := @lt_of_digit c d 0 n _ hd (by simpa using lt_of_digitsOf hrest)
      rwa [zero_add, one_mul] at hlt

/-- What is read has no more digits than the text. -/
private theorem natAbs_lt_of_wholeOfText {text : List Char} {n : ℤ} (h : wholeOfText text = some n) :
    n.natAbs < 10 ^ text.countP fun c => (decimalDigit c).isSome := by
  unfold wholeOfText at h
  split at h
  · obtain ⟨m, hm, rfl⟩ := Option.map_eq_some_iff.mp h
    rw [List.countP_cons_of_neg (by decide), Int.natAbs_neg]
    exact lt_of_naturalOf hm
  · obtain ⟨m, hm, rfl⟩ := Option.map_eq_some_iff.mp h
    rw [List.countP_cons_of_neg (by decide)]
    exact lt_of_naturalOf hm
  · obtain ⟨m, hm, rfl⟩ := Option.map_eq_some_iff.mp h
    exact lt_of_naturalOf hm

theorem natAbs_lt_of_intOfText {text : String} {n : ℤ} (h : intOfText text = some n) :
    n.natAbs < 10 ^ maxStrDigits := by
  unfold intOfText at h
  dsimp only at h
  split at h
  · cases h
  · rename_i hdigits
    exact (natAbs_lt_of_wholeOfText h).trans_le
      (Nat.pow_le_pow_right (by norm_num) (not_lt.mp hdigits))

end Py
