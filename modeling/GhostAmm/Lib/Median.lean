/-
The median and the mean of a list of numbers.

Both depend on the values alone and not on the order they come in.  The mean stays
between any bounds that hold of every value.  The median asks for less: it stays
between bounds that hold of more than half of the values, whatever the others are
(`median_mem_Icc`).  In a sorted list a value in the middle is below such a bound only
if the whole first half is, and above one only if the whole second half is.
-/
import GhostAmm.Lib.Python

namespace Py

/-! ### The middle of a sorted list -/

section Sorted

variable {α : Type} [LinearOrder α] {l : List α} {lo hi : α}

/-- A sorted list holds at most as many values from `lo` up as stand after a smaller one. -/
theorem countP_ge_le (hl : l.Pairwise (· ≤ ·)) {i : ℕ} (hi : i < l.length) (hlo : l[i] < lo) :
    (l.countP fun v => decide (lo ≤ v)) + (i + 1) ≤ l.length := by
  have hfront : (l.take (i + 1)).countP (fun v => decide (lo ≤ v)) = 0 := by
    rw [List.countP_eq_zero]
    intro v hv
    obtain ⟨j, hj, rfl⟩ := List.mem_iff_getElem.mp hv
    rw [List.length_take] at hj
    rw [List.getElem_take]
    have hle : l[j] ≤ l[i] := by
      rcases Nat.lt_or_ge j i with hji | hji
      · exact List.pairwise_iff_getElem.mp hl j i _ hi hji
      · have hji' : j = i := by omega
        subst hji'
        exact le_refl _
    simpa using lt_of_le_of_lt hle hlo
  have hback := List.countP_le_length (p := fun v => decide (lo ≤ v)) (l := l.drop (i + 1))
  rw [← List.take_append_drop (i + 1) l, List.countP_append, hfront, List.length_append]
  rw [List.length_take]
  omega

/-- A sorted list holds at most as many values up to `hi` as stand before a larger one. -/
theorem countP_le_le (hl : l.Pairwise (· ≤ ·)) {i : ℕ} (hi' : i < l.length) (hhi : hi < l[i]) :
    (l.countP fun v => decide (v ≤ hi)) ≤ i := by
  have hback : (l.drop i).countP (fun v => decide (v ≤ hi)) = 0 := by
    rw [List.countP_eq_zero]
    intro v hv
    obtain ⟨j, hj, rfl⟩ := List.mem_iff_getElem.mp hv
    rw [List.length_drop] at hj
    rw [List.getElem_drop]
    have hle : l[i] ≤ l[i + j] := by
      by_cases hj0 : j = 0
      · subst hj0
        exact le_refl _
      · exact List.pairwise_iff_getElem.mp hl i (i + j) hi' _ (by omega)
    simpa using lt_of_lt_of_le hhi hle
  have hfront := List.countP_le_length (p := fun v => decide (v ≤ hi)) (l := l.take i)
  rw [← List.take_append_drop i l, List.countP_append, hback]
  rw [List.length_take] at hfront
  omega

/-- In a sorted list more values than stand before an entry are at most that entry. -/
theorem lt_countP_le (hl : l.Pairwise (· ≤ ·)) {i : ℕ} (hi : i < l.length) :
    i < l.countP fun v => decide (v ≤ l[i]) := by
  by_contra hfew
  have hall : (l.take (i + 1)).countP (fun v => decide (v ≤ l[i])) = i + 1 := by
    have hlen : (l.take (i + 1)).length = i + 1 := by
      rw [List.length_take]
      omega
    refine (List.countP_eq_length.mpr ?_).trans hlen
    intro v hv
    obtain ⟨j, hj, rfl⟩ := List.mem_iff_getElem.mp hv
    rw [List.getElem_take, decide_eq_true_eq]
    rw [List.length_take] at hj
    rcases Nat.lt_or_ge j i with hji | hji
    · exact List.pairwise_iff_getElem.mp hl j i _ hi hji
    · obtain rfl : j = i := by omega
      exact le_refl _
  have hsub := (List.take_sublist (i + 1) l).countP_le (p := fun v => decide (v ≤ l[i]))
  omega

/-- In a sorted list no more values than stand before an entry are below it. -/
theorem countP_lt_le (hl : l.Pairwise (· ≤ ·)) {i : ℕ} (hi : i < l.length) :
    (l.countP fun v => decide (v < l[i])) ≤ i := by
  have hback : (l.drop i).countP (fun v => decide (v < l[i])) = 0 := by
    rw [List.countP_eq_zero]
    intro v hv
    obtain ⟨j, hj, rfl⟩ := List.mem_iff_getElem.mp hv
    rw [List.length_drop] at hj
    rw [List.getElem_drop, decide_eq_true_eq, not_lt]
    rcases Nat.eq_zero_or_pos j with rfl | hpos
    · exact le_refl _
    · exact List.pairwise_iff_getElem.mp hl i (i + j) hi _ (by omega)
  have hfront := List.countP_le_length (p := fun v => decide (v < l[i])) (l := l.take i)
  have hsplit : (l.take i ++ l.drop i).countP (fun v => decide (v < l[i]))
      = (l.take i).countP (fun v => decide (v < l[i]))
        + (l.drop i).countP fun v => decide (v < l[i]) := List.countP_append
  rw [List.take_append_drop, hback] at hsplit
  rw [List.length_take] at hfront
  omega

/-- **The middle of a sorted list is between the bounds of a majority.** -/
theorem middle_mem_Icc (hl : l.Pairwise (· ≤ ·))
    (hmost : l.length < 2 * l.countP fun v => decide (lo ≤ v ∧ v ≤ hi)) {i : ℕ}
    (hi' : i < l.length) (hlow : l.length ≤ 2 * (i + 1)) (hhigh : 2 * i ≤ l.length) :
    l[i] ∈ Set.Icc lo hi := by
  have hge : (l.countP fun v => decide (lo ≤ v ∧ v ≤ hi)) ≤ l.countP fun v => decide (lo ≤ v) :=
    List.countP_mono_left fun v _ hv => by simpa using (of_decide_eq_true hv).1
  have hle : (l.countP fun v => decide (lo ≤ v ∧ v ≤ hi)) ≤ l.countP fun v => decide (v ≤ hi) :=
    List.countP_mono_left fun v _ hv => by simpa using (of_decide_eq_true hv).2
  constructor
  · by_contra hlt
    have := countP_ge_le hl hi' (not_le.mp hlt)
    omega
  · by_contra hlt
    have := countP_le_le hl hi' (not_le.mp hlt)
    omega

end Sorted

/-! ### The median -/

variable {xs ys : List ℚ} {m lo hi : ℚ}

theorem insertionSort_eq_of_perm (h : xs.Perm ys) :
    xs.insertionSort (· ≤ ·) = ys.insertionSort (· ≤ ·) :=
  List.Perm.eq_of_pairwise' (List.pairwise_insertionSort _ _) (List.pairwise_insertionSort _ _)
    (((List.perm_insertionSort _ xs).trans h).trans (List.perm_insertionSort _ ys).symm)

/-- The median of the values, whatever their order. -/
theorem median_perm (h : xs.Perm ys) : median xs = median ys := by
  unfold median
  rw [insertionSort_eq_of_perm h]

/-- The median is the mean of two middle values, which are one where the length is odd. -/
theorem median_eq_middle (h : median xs = .ok m) :
    ∃ i j, ∃ hi : i < (xs.insertionSort (· ≤ ·)).length,
      ∃ hj : j < (xs.insertionSort (· ≤ ·)).length,
      (xs.length ≤ 2 * (i + 1) ∧ 2 * i ≤ xs.length) ∧
      (xs.length ≤ 2 * (j + 1) ∧ 2 * j ≤ xs.length) ∧
      m = ((xs.insertionSort (· ≤ ·))[i] + (xs.insertionSort (· ≤ ·))[j]) / 2 := by
  have hlen := List.length_insertionSort (· ≤ ·) xs
  unfold median at h
  simp only [hlen] at h
  split at h
  · cases h
  · rename_i hne
    split at h
    · rename_i hodd
      have hhalf : xs.length / 2 < (xs.insertionSort (· ≤ ·)).length := by omega
      refine ⟨xs.length / 2, xs.length / 2, hhalf, hhalf, by omega, by omega, ?_⟩
      rw [← Except.ok.inj h, List.getD_eq_getElem _ _ hhalf]
      ring
    · have hhalf : xs.length / 2 < (xs.insertionSort (· ≤ ·)).length := by omega
      have hbelow : xs.length / 2 - 1 < (xs.insertionSort (· ≤ ·)).length := by omega
      refine ⟨xs.length / 2 - 1, xs.length / 2, hbelow, hhalf, by omega, by omega, ?_⟩
      rw [← Except.ok.inj h, List.getD_eq_getElem _ _ hhalf, List.getD_eq_getElem _ _ hbelow]

/-- **The median is between any bounds that hold of more than half of the values.** -/
theorem median_mem_Icc (h : median xs = .ok m)
    (hmost : xs.length < 2 * xs.countP fun v => decide (lo ≤ v ∧ v ≤ hi)) : m ∈ Set.Icc lo hi := by
  obtain ⟨i, j, hi', hj', hi, hj, rfl⟩ := median_eq_middle h
  have hlen := List.length_insertionSort (· ≤ ·) xs
  have hsorted := List.pairwise_insertionSort (· ≤ ·) xs
  rw [← hlen, ← (List.perm_insertionSort (· ≤ ·) xs).countP_eq] at hmost
  have hmi := middle_mem_Icc hsorted hmost hi' (by omega) (by omega)
  have hmj := middle_mem_Icc hsorted hmost hj' (by omega) (by omega)
  constructor
  · linarith [hmi.1, hmj.1]
  · linarith [hmi.2, hmj.2]

/-- The median of two values is half way between them. -/
theorem median_pair (a b : ℚ) : median [a, b] = .ok ((a + b) / 2) := by
  unfold median
  by_cases hab : a ≤ b
  · simp [hab]
  · simp [hab, add_comm]

/-- The median of values that are all between two bounds. -/
theorem median_mem_Icc_of_forall (h : median xs = .ok m) (hall : ∀ v ∈ xs, v ∈ Set.Icc lo hi) :
    m ∈ Set.Icc lo hi := by
  refine median_mem_Icc h ?_
  have hcount : (xs.countP fun v => decide (lo ≤ v ∧ v ≤ hi)) = xs.length :=
    List.countP_eq_length.mpr fun v hv => by simpa using hall v hv
  have hne : xs ≠ [] := by
    rintro rfl
    cases h
  have := List.length_pos_iff.mpr hne
  omega

/-! ### The mean -/

theorem mean_perm (h : xs.Perm ys) : mean xs = mean ys := by
  unfold mean
  rw [h.length_eq, h.sum_eq]

theorem sum_mem_Icc (hall : ∀ v ∈ xs, v ∈ Set.Icc lo hi) :
    xs.sum ∈ Set.Icc (xs.length * lo) (xs.length * hi) := by
  induction xs with
  | nil => simp
  | cons v rest ih =>
      have hv := hall v List.mem_cons_self
      have hrest := ih fun w hw => hall w (List.mem_cons_of_mem _ hw)
      rw [List.sum_cons, List.length_cons]
      push_cast
      constructor
      · linarith [hv.1, hrest.1]
      · linarith [hv.2, hrest.2]

/-- The mean of values that are all between two bounds. -/
theorem mean_mem_Icc (h : mean xs = .ok m) (hall : ∀ v ∈ xs, v ∈ Set.Icc lo hi) :
    m ∈ Set.Icc lo hi := by
  unfold mean at h
  split at h
  · cases h
  · rename_i hne
    have hpos : (0 : ℚ) < xs.length := by
      have : 0 < xs.length := by omega
      exact_mod_cast this
    have hsum := sum_mem_Icc hall
    rw [← Except.ok.inj h]
    constructor
    · rw [le_div_iff₀ hpos]
      linarith [hsum.1]
    · rw [div_le_iff₀ hpos]
      linarith [hsum.2]

end Py
