/-
Division as Python has it, and loops over it.

A quotient by zero raises, and so does an average over nothing.  A loop whose body never raises
is the loop without exceptions.
-/
import GhostAmm.Lib.Python

namespace Py

/-- `x / y`. -/
def div (x y : ℚ) : Except Error ℚ :=
  if y = 0 then .error .zeroDivisionError else .ok (x / y)

theorem div_of_ne {x y : ℚ} (h : y ≠ 0) : div x y = .ok (x / y) := if_neg h

theorem div_of_pos {x y : ℚ} (h : 0 < y) : div x y = .ok (x / y) := div_of_ne h.ne'

theorem exists_median {xs : List ℚ} (h : xs ≠ []) : ∃ m, median xs = .ok m := by
  have hlength : (xs.insertionSort (· ≤ ·)).length ≠ 0 := by
    rwa [List.length_insertionSort, Ne, List.length_eq_zero_iff]
  unfold median
  dsimp only
  rw [if_neg hlength]
  split
  · exact ⟨_, rfl⟩
  · exact ⟨_, rfl⟩

theorem exists_mean {xs : List ℚ} (h : xs ≠ []) : ∃ m, mean xs = .ok m := by
  unfold mean
  rw [if_neg (mt List.length_eq_zero_iff.mp h)]
  exact ⟨_, rfl⟩

section Loops

variable {ε α β : Type}

/-- A conditional does not raise where neither of its branches does. -/
theorem ite_ok {c : Prop} [Decidable c] {x y : Except ε α} {a b : α} (hx : c → x = .ok a)
    (hy : ¬ c → y = .ok b) : (if c then x else y) = .ok (if c then a else b) := by
  by_cases hc : c
  · rw [if_pos hc, if_pos hc, hx hc]
  · rw [if_neg hc, if_neg hc, hy hc]

theorem mapM_ok {f : α → Except ε β} {g : α → β} (h : ∀ a, f a = .ok (g a)) (l : List α) :
    l.mapM f = .ok (l.map g) := by
  obtain rfl : f = fun a => pure (g a) := funext h
  exact List.mapM_pure

theorem foldlM_ok {f : β → α → Except ε β} {g : β → α → β} (h : ∀ b a, f b a = .ok (g b a))
    (l : List α) (b : β) : l.foldlM f b = .ok (l.foldl g b) := by
  obtain rfl : f = fun b a => pure (g b a) := funext fun b => funext (h b)
  exact List.foldlM_pure

private theorem filterAuxM_ok {f : α → Except ε Bool} {p : α → Bool} (h : ∀ a, f a = .ok (p a)) :
    ∀ l kept : List α, l.filterAuxM f kept = .ok ((l.filter p).reverse ++ kept) := by
  intro l
  induction l with
  | nil => intro kept; rfl
  | cons a rest ih =>
      intro kept
      rw [List.filterAuxM, h a]
      show List.filterAuxM f rest (cond (p a) (a :: kept) kept) = _
      rw [ih]
      cases hp : p a with
      | true => simp [hp]
      | false => simp [hp]

theorem filterM_ok {f : α → Except ε Bool} {p : α → Bool} (h : ∀ a, f a = .ok (p a))
    (l : List α) : l.filterM f = .ok (l.filter p) := by
  rw [List.filterM, filterAuxM_ok h]
  show Except.ok ((l.filter p).reverse ++ []).reverse = _
  rw [List.append_nil, List.reverse_reverse]

end Loops

end Py
