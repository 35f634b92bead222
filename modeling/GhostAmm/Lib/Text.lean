/-
How texts sort.

Texts are lists of characters and sort as Python's do, character by character.  Where two
texts of one length differ, what follows them does not matter (`append_lt_append`), and so
padded numbers sort as the numbers do as long as they fit their width
(`zeroPad_lt_zeroPad`).  A number that does not is longer than the rest and sorts by its
first digits.
-/
import GhostAmm.Lib.Python

namespace Py

/-- Two texts of one length that differ decide the order of whatever begins with them. -/
theorem append_lt_append {α : Type} [LT α] : ∀ {l₁ l₂ : List α} (r₁ r₂ : List α),
    l₁.length = l₂.length → l₁ < l₂ → l₁ ++ r₁ < l₂ ++ r₂ := by
  intro l₁
  induction l₁ with
  | nil =>
      intro l₂ r₁ r₂ hlen hlt
      obtain rfl := List.length_eq_zero_iff.mp hlen.symm
      exact absurd hlt (List.not_lt_nil _)
  | cons a l₁ ih =>
      intro l₂ r₁ r₂ hlen hlt
      cases l₂ with
      | nil => simp at hlen
      | cons b l₂ =>
          rw [List.length_cons, List.length_cons, Nat.add_right_cancel_iff] at hlen
          rw [List.cons_append, List.cons_append, List.cons_lt_cons_iff]
          rw [List.cons_lt_cons_iff] at hlt
          exact hlt.imp_right fun h => ⟨h.1, ih r₁ r₂ hlen h.2⟩

/-- A padded number is its leading digits and its last one. -/
theorem zeroPad_succ (width n : ℕ) :
    zeroPad (width + 1) n = zeroPad width (n / 10) ++ [Nat.digitChar (n % 10)] := by
  unfold zeroPad
  by_cases hn : n = 0
  · subst hn
    simp [List.replicate_succ']
  · rw [Nat.digits_def' (by norm_num) (Nat.pos_of_ne_zero hn), List.length_cons,
      Nat.add_sub_add_right, List.map_cons, List.reverse_cons, List.append_assoc]

theorem length_zeroPad : ∀ {width n : ℕ}, n < 10 ^ width → (zeroPad width n).length = width := by
  intro width
  induction width with
  | zero =>
      intro n hn
      have hzero : n = 0 := by simpa using hn
      subst hzero
      rfl
  | succ width ih =>
      intro n hn
      rw [pow_succ] at hn
      rw [zeroPad_succ, List.length_append, ih (by omega), List.length_singleton]

theorem digitChar_lt {d e : ℕ} (h : d < e) (he : e < 10) : Nat.digitChar d < Nat.digitChar e := by
  interval_cases e <;> interval_cases d <;> decide

/-- **Padded numbers that fit their width sort as the numbers do.** -/
theorem zeroPad_lt_zeroPad : ∀ {width i j : ℕ}, i < j → j < 10 ^ width →
    zeroPad width i < zeroPad width j := by
  intro width
  induction width with
  | zero => intro i j hij hj; omega
  | succ width ih =>
      intro i j hij hj
      rw [pow_succ] at hj
      rw [zeroPad_succ, zeroPad_succ]
      by_cases hlead : i / 10 = j / 10
      · rw [hlead]
        refine List.append_left_lt (List.cons_lt_cons_iff.mpr (Or.inl ?_))
        exact digitChar_lt (by omega) (by omega)
      · refine append_lt_append _ _ ?_ (ih (by omega) (by omega))
        rw [length_zeroPad (by omega), length_zeroPad (by omega)]

/-- A text that begins otherwise is another text. -/
theorem append_ne {start text : String} (rest : String)
    (h : start.toList.isPrefixOf text.toList = false) : start ++ rest ≠ text := by
  rintro rfl
  rw [String.toList_append, List.isPrefixOf_iff_prefix.mpr (List.prefix_append _ _)] at h
  cases h

end Py
