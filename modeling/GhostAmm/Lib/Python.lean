/-
The parts of Python's numbers, texts and exceptions a model of a Python program needs.

Numbers are exact: a finite float is the rational it denotes and arithmetic on it
is arithmetic on rationals.  `round` is exact round-half-to-even at a number of
decimals, `int` truncates towards zero, and `x or y` on optional numbers takes `y`
for both a missing and a zero `x`.

Texts are compared by code point, as Python does, and `zeroPad` is the `06d` of an
f-string.  `zeroPad_injective` is the one fact about formatting that identities
built from a counter rest on.
-/
import Mathlib

namespace Py

/-- The exceptions the modelled code can raise. -/
inductive Error where
  | valueError (message : String)
  | typeError (message : String)
  | zeroDivisionError
  /-- `statistics.median([])`: "no median for empty data". -/
  | statisticsError
  deriving DecidableEq, Repr

/-! ### Numbers -/

/-- `int(x)`: towards zero. -/
def trunc (x : ℚ) : ℤ := x.num.tdiv x.den

/-- The nearest integer, the even one of two that are equally near. -/
def roundHalfEven (x : ℚ) : ℤ :=
  let n := ⌊x⌋
  if x - n < 1 / 2 then n
  else if 1 / 2 < x - n then n + 1
  else if n % 2 = 0 then n else n + 1

/-- `round(x, decimals)`. -/
def round (x : ℚ) (decimals : ℕ) : ℚ := roundHalfEven (x * 10 ^ decimals) / 10 ^ decimals

/--
`int(round(-math.log10(step)))` for `0 < step`: the integer nearest to `-log₁₀ step`.
It is `⌊½ - log₁₀ step⌋ = ⌊log₁₀ (10 / step²) / 2⌋`, and half-way cases do not occur,
because no rational is an odd power of `√10`.
-/
def negLog10 (step : ℚ) : ℤ := Int.log 10 (10 / step ^ 2) / 2

/-- `x or y` on an optional number: zero counts as missing. -/
def truthy (x : Option ℚ) : Option ℚ := x.filter fun v => decide (v ≠ 0)

/-- `x or y` on texts: the empty text counts as missing. -/
def textOr (x : Option String) (y : String) : String :=
  match x with
  | some s => if s = "" then y else s
  | none => y

/-- `statistics.median`. -/
def median (xs : List ℚ) : Except Error ℚ :=
  let sorted := xs.insertionSort (· ≤ ·)
  let n := sorted.length
  if n = 0 then .error .statisticsError
  else if n % 2 = 1 then .ok (sorted.getD (n / 2) 0)
  else .ok ((sorted.getD (n / 2 - 1) 0 + sorted.getD (n / 2) 0) / 2)

/-- `sum(xs) / len(xs)`. -/
def mean (xs : List ℚ) : Except Error ℚ :=
  if xs.length = 0 then .error .zeroDivisionError else .ok (xs.sum / xs.length)

/-- `xs[:n]`: a negative bound counts from the end. -/
def sliceTo {α : Type} (xs : List α) (n : ℤ) : List α :=
  if 0 ≤ n then xs.take n.toNat else xs.take (xs.length - (-n).toNat)

/-! ### Texts -/

/-- `f"{n:0{width}d}"` for a positive width, as characters. -/
def zeroPad (width n : ℕ) : List Char :=
  List.replicate (width - (Nat.digits 10 n).length) '0' ++
    ((Nat.digits 10 n).map Nat.digitChar).reverse

/-! ### The characters of a padded number -/

theorem exists_digitChar_of_mem_zeroPad {width n : ℕ} {c : Char} (h : c ∈ zeroPad width n) :
    ∃ d < 10, c = Nat.digitChar d := by
  rcases List.mem_append.mp h with h | h
  · exact ⟨0, by norm_num, List.eq_of_mem_replicate h⟩
  · obtain ⟨d, hd, rfl⟩ := List.mem_map.mp (List.mem_reverse.mp h)
    exact ⟨d, Nat.digits_lt_base (by norm_num) hd, rfl⟩

theorem isDigit_of_mem_zeroPad {width n : ℕ} {c : Char} (h : c ∈ zeroPad width n) :
    c.isDigit = true := by
  obtain ⟨d, hd, rfl⟩ := exists_digitChar_of_mem_zeroPad h
  interval_cases d <;> decide

theorem zeroPad_one_ne_nil (n : ℕ) : zeroPad 1 n ≠ [] := by
  unfold zeroPad
  cases hdigits : Nat.digits 10 n with
  | nil => simp
  | cons d rest => simp

theorem dash_not_mem_zeroPad (width n : ℕ) : '-' ∉ zeroPad width n := fun h =>
  absurd (isDigit_of_mem_zeroPad h) (by decide)

/-! ### A padded number is read back in one way -/

/-- The value of a character read as a decimal digit. -/
private def charValue (c : Char) : ℕ := c.toNat - 48

private theorem map_charValue (n : ℕ) :
    ((Nat.digits 10 n).map Nat.digitChar).map charValue = Nat.digits 10 n := by
  rw [List.map_map]
  conv_rhs => rw [← List.map_id (Nat.digits 10 n)]
  refine List.map_congr_left fun d hd => ?_
  have hlt : d < 10 := Nat.digits_lt_base (by norm_num) hd
  show (Nat.digitChar d).toNat - 48 = d
  interval_cases d <;> decide

theorem zeroPad_injective (width : ℕ) {n m : ℕ} (h : zeroPad width n = zeroPad width m) :
    n = m := by
  have value : ∀ k, Nat.ofDigits 10 (((zeroPad width k).reverse).map charValue) = k := by
    intro k
    rw [zeroPad, List.reverse_append, List.reverse_reverse, List.map_append, map_charValue,
      List.reverse_replicate, List.map_replicate]
    show Nat.ofDigits 10 (Nat.digits 10 k ++ List.replicate _ 0) = k
    rw [Nat.ofDigits_append_replicate_zero, Nat.ofDigits_digits]
  rw [← value n, ← value m, h]

/-- A text ending in a dash and a padded number determines the number. -/
theorem suffix_zeroPad_injective {width n m : ℕ} {xs ys : List Char}
    (h : xs ++ '-' :: zeroPad width n = ys ++ '-' :: zeroPad width m) : n = m := by
  have tail : ∀ (zs : List Char) (k : ℕ),
      ((zs ++ '-' :: zeroPad width k).reverse.takeWhile fun c => c ≠ '-')
        = (zeroPad width k).reverse := by
    intro zs k
    rw [List.reverse_append, List.reverse_cons, List.append_assoc, List.takeWhile_append_of_pos]
    · simp
    · intro c hc
      have hmem : c ∈ zeroPad width k := List.mem_reverse.mp hc
      simpa using fun hcd : c = '-' => dash_not_mem_zeroPad width k (hcd ▸ hmem)
  refine zeroPad_injective width (List.reverse_injective ?_)
  rw [← tail xs n, ← tail ys m, h]

end Py
