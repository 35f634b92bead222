/-
The lines of a text, and the space around them, as Python sees both.

A text breaks at more characters than the newline, all of which are space, and a line is what
stands between two of them.  Lines that have none are got back from the text they are written to
(`splitLines_written`), and whatever a text is split into has none (`mem_splitLines`).

A text that neither begins nor ends with space is what is left of any indentation of it
(`strip_indented`).
-/
import Mathlib

namespace Py

/-- `c.isspace()`. -/
def isspace (c : Char) : Bool :=
  let n := c.toNat
  (9 ≤ n && n ≤ 13) || (28 ≤ n && n ≤ 32) || n == 0x85 || n == 0xa0 || n == 0x1680 ||
    (0x2000 ≤ n && n ≤ 0x200a) || n == 0x2028 || n == 0x2029 || n == 0x202f || n == 0x205f ||
    n == 0x3000

/-- The characters `splitlines` breaks at. -/
def isLineBreak (c : Char) : Bool :=
  let n := c.toNat
  (10 ≤ n && n ≤ 13) || (28 ≤ n && n ≤ 30) || n == 0x85 || n == 0x2028 || n == 0x2029

/-- `text.splitlines()`; a return and the newline after it are one break. -/
def splitLines : List Char → List (List Char)
  | [] => []
  | '\r' :: '\n' :: rest => [] :: splitLines rest
  | c :: rest =>
      if isLineBreak c then [] :: splitLines rest
      else
        match splitLines rest with
        | [] => [[c]]
        | line :: lines => (c :: line) :: lines

/-- `text.rstrip()`. -/
def rstrip (text : List Char) : List Char := text.rdropWhile isspace

/-- `text.strip()`. -/
def strip (text : List Char) : List Char := rstrip (text.dropWhile isspace)

/-! ### Lines -/

theorem isspace_of_isLineBreak {c : Char} (h : isLineBreak c = true) : isspace c = true := by
  unfold isLineBreak at h
  unfold isspace
  simp only [Bool.or_eq_true, Bool.and_eq_true, decide_eq_true_eq, beq_iff_eq] at h ⊢
  omega

theorem splitLines_cons {c : Char} (rest : List Char) (h : isLineBreak c = false) :
    splitLines (c :: rest) = (c :: (splitLines rest).headD []) :: (splitLines rest).tail := by
  have hreturn : c ≠ '\r' := by
    rintro rfl
    exact absurd h (by decide)
  rw [splitLines.eq_3 _ _ (fun _ hc _ => hreturn hc), h]
  cases splitLines rest <;> rfl

/-- A line that is written with its newline is split off again. -/
theorem splitLines_line : ∀ (line rest : List Char), (∀ c ∈ line, isLineBreak c = false) →
    splitLines (line ++ '\n' :: rest) = line :: splitLines rest := by
  intro line
  induction line with
  | nil => intro rest _; rfl
  | cons c line ih =>
      intro rest hline
      rw [List.cons_append, splitLines_cons _ (hline c List.mem_cons_self),
        ih rest fun d hd => hline d (List.mem_cons_of_mem _ hd)]
      rfl

/-- **Lines without breaks are got back from the text they are written to.** -/
theorem splitLines_written : ∀ lines : List (List Char),
    (∀ line ∈ lines, ∀ c ∈ line, isLineBreak c = false) →
      splitLines (lines.flatMap fun line => line ++ ['\n']) = lines := by
  intro lines
  induction lines with
  | nil => intro _; rfl
  | cons line rest ih =>
      intro hlines
      rw [List.flatMap_cons, List.append_assoc, List.singleton_append,
        splitLines_line line _ (hlines line List.mem_cons_self),
        ih fun l hl => hlines l (List.mem_cons_of_mem _ hl)]

/-- A character that is no break goes to the first line of the rest. -/
theorem mem_splitLines_cons {c : Char} {rest : List Char} (h : isLineBreak c = false)
    (ih : ∀ line ∈ splitLines rest, ∀ d ∈ line, isLineBreak d = false) :
    ∀ line ∈ splitLines (c :: rest), ∀ d ∈ line, isLineBreak d = false := by
  intro line hline d hd
  rw [splitLines_cons rest h] at hline
  cases hrest : splitLines rest with
  | nil =>
      simp only [hrest, List.headD_nil, List.tail_nil, List.mem_singleton] at hline
      rw [hline, List.mem_singleton] at hd
      exact hd ▸ h
  | cons first more =>
      simp only [hrest, List.headD_cons, List.tail_cons, List.mem_cons] at hline ih
      rcases hline with rfl | hline
      · rcases List.mem_cons.mp hd with rfl | hd
        · exact h
        · exact ih first (Or.inl rfl) d hd
      · exact ih line (Or.inr hline) d hd

/-- **What a text is split into has no breaks.** -/
theorem mem_splitLines (text : List Char) :
    ∀ line ∈ splitLines text, ∀ c ∈ line, isLineBreak c = false := by
  induction text using splitLines.induct with
  | case1 => intro line hline; simp [splitLines] at hline
  | case2 rest ih =>
      intro line hline
      rw [splitLines] at hline
      rcases List.mem_cons.mp hline with rfl | hline
      · simp
      · exact ih line hline
  | case3 c rest hreturn hbreak ih =>
      intro line hline
      rw [splitLines.eq_3 _ _ hreturn, if_pos hbreak] at hline
      rcases List.mem_cons.mp hline with rfl | hline
      · simp
      · exact ih line hline
  | case4 c rest _ hbreak _ ih => exact mem_splitLines_cons (Bool.eq_false_iff.mpr hbreak) ih
  | case5 c rest _ hbreak line lines _ ih =>
      exact mem_splitLines_cons (Bool.eq_false_iff.mpr hbreak) ih

/-! ### Space around a text -/

/-- A text that neither begins nor ends with space. -/
structure Trimmed (text : List Char) : Prop where
  first : ∃ c rest, text = c :: rest ∧ isspace c = false
  last : ∃ front c, text = front ++ [c] ∧ isspace c = false

namespace Trimmed

variable {text : List Char}

/-- A text without any space. -/
theorem of_forall (hne : text ≠ []) (h : ∀ c ∈ text, isspace c = false) : Trimmed text := by
  constructor
  · cases text with
    | nil => exact absurd rfl hne
    | cons c rest => exact ⟨c, rest, rfl, h c List.mem_cons_self⟩
  · refine ⟨text.dropLast, text.getLast hne, (List.dropLast_append_getLast hne).symm, ?_⟩
    exact h _ (List.getLast_mem hne)

/-- Two texts, of which one begins and the other ends a text. -/
theorem append {front back : List Char} (hfront : ∃ c rest, front = c :: rest ∧ isspace c = false)
    (hback : ∃ init c, back = init ++ [c] ∧ isspace c = false) : Trimmed (front ++ back) := by
  obtain ⟨c, rest, rfl, hc⟩ := hfront
  obtain ⟨init, d, rfl, hd⟩ := hback
  exact ⟨⟨c, rest ++ (init ++ [d]), rfl, hc⟩, ⟨c :: rest ++ init, d, by simp, hd⟩⟩

theorem ne_nil (h : Trimmed text) : text ≠ [] := by
  obtain ⟨c, rest, rfl, -⟩ := h.first
  exact List.cons_ne_nil c rest

/-- Nothing is stripped from its end, whatever stands before it. -/
theorem rstrip_append (h : Trimmed text) (before : List Char) :
    rstrip (before ++ text) = before ++ text := by
  obtain ⟨front, c, rfl, hc⟩ := h.last
  unfold rstrip
  rw [← List.append_assoc, List.rdropWhile_concat_neg]
  simp [hc]

/-- Nothing else is stripped than the indentation. -/
theorem strip_indented (h : Trimmed text) (n : ℕ) :
    strip (List.replicate n ' ' ++ text) = text := by
  have hdrop : (List.replicate n ' ' ++ text).dropWhile isspace = text := by
    obtain ⟨c, rest, rfl, hc⟩ := h.first
    rw [List.dropWhile_append_of_pos, List.dropWhile_cons_of_neg]
    · simp [hc]
    · intro d hd
      rw [List.eq_of_mem_replicate hd]
      decide
  unfold strip
  rw [hdrop]
  exact h.rstrip_append []

theorem strip_eq (h : Trimmed text) : strip text = text := h.strip_indented 0

/-- The indentation is what stands before the first character that is no space. -/
theorem dropWhile_indented (h : Trimmed text) (n : ℕ) :
    (List.replicate n ' ' ++ text).dropWhile (fun c => decide (c = ' ')) = text := by
  obtain ⟨c, rest, rfl, hc⟩ := h.first
  rw [List.dropWhile_append_of_pos, List.dropWhile_cons_of_neg]
  · have hspace : c ≠ ' ' := by
      rintro rfl
      exact absurd hc (by decide)
    simpa using hspace
  · intro d hd
    rw [List.eq_of_mem_replicate hd]
    decide

end Trimmed

/-- What is stripped is part of the text. -/
theorem mem_of_mem_strip {text : List Char} {c : Char} (h : c ∈ strip text) : c ∈ text :=
  (List.dropWhile_sublist _).subset ((List.rdropWhile_prefix _ _).subset h)

end Py
