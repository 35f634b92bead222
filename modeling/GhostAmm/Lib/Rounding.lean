/-
Rounding to the nearest, to the even one of two that are equally near.

`IsNearest` says which integer that is without computing it, and it is the only one
(`roundHalfEven_eq_iff`).  Rounding keeps the order and mirrors at zero, and to a number of
decimals it leaves alone exactly what has no more of them (`round_eq_self_iff`).
-/
import GhostAmm.Lib.Python

namespace Py

/-! ### To the nearest integer -/

/-- An integer no further than half a unit away, and even if it is as far as that. -/
def IsNearest (x : ℚ) (n : ℤ) : Prop := |x - n| < 1 / 2 ∨ |x - n| = 1 / 2 ∧ Even n

/-- Neighbours cannot both be nearest, for they are not both even. -/
theorem IsNearest.not_succ {x : ℚ} {n : ℤ} (hn : IsNearest x n) : ¬ IsNearest x (n + 1) := by
  intro hm
  have htriangle : 1 ≤ |x - n| + |x - (n + 1 : ℤ)| := by
    push_cast
    linarith [le_abs_self (x - n), neg_abs_le (x - (n + 1))]
  rcases hn with hn | ⟨hn, hneven⟩
  · rcases hm with hm | ⟨hm, -⟩ <;> linarith
  · rcases hm with hm | ⟨hm, hmeven⟩
    · linarith
    · exact Int.even_add_one.mp hmeven hneven

theorem isNearest_roundHalfEven (x : ℚ) : IsNearest x (roundHalfEven x) := by
  have hlo := Int.floor_le x
  have hhi := Int.lt_floor_add_one x
  unfold roundHalfEven IsNearest
  dsimp only
  split
  · left
    rw [abs_of_nonneg (by linarith)]
    assumption
  · split
    · left
      push_cast
      rw [abs_of_neg (by linarith)]
      linarith
    · have hhalf : x - ⌊x⌋ = 1 / 2 := by linarith
      right
      split
      · rename_i heven
        rw [hhalf]
        exact ⟨by norm_num, Int.even_iff.mpr heven⟩
      · rename_i hodd
        push_cast
        rw [← sub_sub, hhalf]
        exact ⟨by norm_num, Int.even_iff.mpr (by omega)⟩

theorem abs_sub_roundHalfEven_le (x : ℚ) : |x - roundHalfEven x| ≤ 1 / 2 := by
  rcases isNearest_roundHalfEven x with h | ⟨h, -⟩
  · exact h.le
  · exact h.le

theorem roundHalfEven_eq_iff {x : ℚ} {n : ℤ} : roundHalfEven x = n ↔ IsNearest x n := by
  constructor
  · rintro rfl
    exact isNearest_roundHalfEven x
  · intro hn
    have hm := isNearest_roundHalfEven x
    generalize roundHalfEven x = m at hm
    have hn' := abs_le.mp (hn.elim le_of_lt fun h => h.1.le)
    have hm' := abs_le.mp (hm.elim le_of_lt fun h => h.1.le)
    have hle : (m : ℚ) ≤ (n + 1 : ℤ) := by
      push_cast
      linarith
    have hge : (n : ℚ) ≤ (m + 1 : ℤ) := by
      push_cast
      linarith
    have hle' : m ≤ n + 1 := by exact_mod_cast hle
    have hge' : n ≤ m + 1 := by exact_mod_cast hge
    by_contra hne
    obtain rfl | rfl : m = n + 1 ∨ n = m + 1 := by omega
    · exact hn.not_succ hm
    · exact hm.not_succ hn

theorem roundHalfEven_intCast (n : ℤ) : roundHalfEven n = n := by
  rw [roundHalfEven_eq_iff]
  exact Or.inl (by norm_num)

theorem roundHalfEven_mono : Monotone roundHalfEven := by
  intro x y h
  by_contra hlt
  have hsucc : (roundHalfEven y : ℚ) + 1 ≤ roundHalfEven x := by
    exact_mod_cast not_le.mp hlt
  have hx := abs_le.mp (abs_sub_roundHalfEven_le x)
  have hy := abs_le.mp (abs_sub_roundHalfEven_le y)
  -- there is no room between the two but for one point
  have hxy : x = y := by linarith
  exact hlt (hxy ▸ le_refl _)

theorem roundHalfEven_neg (x : ℚ) : roundHalfEven (-x) = -roundHalfEven x := by
  rw [roundHalfEven_eq_iff, IsNearest]
  have habs : |-x - (-roundHalfEven x : ℤ)| = |x - roundHalfEven x| := by
    rw [← abs_neg]
    push_cast
    congr 1
    ring
  rw [habs, even_neg]
  exact isNearest_roundHalfEven x

/-! ### Rounding to a number of decimals -/

theorem round_mono (decimals : ℕ) : Monotone fun x => round x decimals := by
  intro x y h
  have hscaled : x * 10 ^ decimals ≤ y * 10 ^ decimals :=
    mul_le_mul_of_nonneg_right h (by positivity)
  have hround : (roundHalfEven (x * 10 ^ decimals) : ℚ) ≤ roundHalfEven (y * 10 ^ decimals) := by
    exact_mod_cast roundHalfEven_mono hscaled
  exact div_le_div_of_nonneg_right hround (by positivity)

theorem round_neg (x : ℚ) (decimals : ℕ) : round (-x) decimals = -round x decimals := by
  unfold round
  rw [neg_mul, roundHalfEven_neg]
  push_cast
  exact neg_div _ _

/-- A number with no more than so many decimals. -/
def HasDecimals (decimals : ℕ) (x : ℚ) : Prop := ∃ n : ℤ, x * 10 ^ decimals = n

theorem HasDecimals.mul_int {decimals : ℕ} {x : ℚ} (h : HasDecimals decimals x) (n : ℤ) :
    HasDecimals decimals (n * x) := by
  obtain ⟨k, hk⟩ := h
  exact ⟨n * k, by rw [mul_assoc, hk]; push_cast; rfl⟩

theorem round_eq_iff {x y : ℚ} {decimals : ℕ} : round x decimals = y ↔
    ∃ n : ℤ, y * 10 ^ decimals = n ∧ IsNearest (x * 10 ^ decimals) n := by
  unfold round
  rw [div_eq_iff (by positivity)]
  constructor
  · intro h
    exact ⟨_, h.symm, isNearest_roundHalfEven _⟩
  · rintro ⟨n, hn, hnear⟩
    rw [roundHalfEven_eq_iff.mpr hnear, hn]

theorem round_eq_self_iff {x : ℚ} {decimals : ℕ} :
    round x decimals = x ↔ HasDecimals decimals x := by
  rw [round_eq_iff]
  refine exists_congr fun n => and_iff_left_of_imp fun hn => ?_
  rw [hn]
  exact Or.inl (by norm_num)

end Py
