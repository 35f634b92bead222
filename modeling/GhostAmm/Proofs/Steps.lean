/-
Which steps are rounded to as they should be.

The tolerant floor finds the right multiple of any step, and the rounding that follows it is
meant to clean up the product.  It is to as many decimals as the power of ten nearest to the
step has, so it leaves a multiple alone only if that many decimals hold it.  All multiples of
a step are held exactly when the step is whole, or one, two or three units of a decimal
(`staysBelow_iff_tame`); those of 0.5, for one, are rounded to integers, half of them up.

Rounding up is the mirror image of rounding down, so everything is shown for the floor.
-/
import GhostAmm.Proofs.Surface

namespace Py

/-! ### The decimals of a step -/

theorem negLog10_eq_iff {step : ℚ} {d : ℤ} (hstep : 0 < step) :
    negLog10 step = d ↔
      (10 : ℚ) ^ (2 * d) ≤ 10 / step ^ 2 ∧ 10 / step ^ 2 < (10 : ℚ) ^ (2 * d + 2) := by
  have hpos : 0 < 10 / step ^ 2 := by positivity
  have hle := Int.zpow_le_iff_le_log (b := 10) (x := 2 * d) (by norm_num) hpos
  have hlt := Int.lt_zpow_iff_log_lt (b := 10) (x := 2 * d + 2) (by norm_num) hpos
  push_cast at hle hlt
  rw [hle, hlt]
  unfold negLog10
  omega

end Py

namespace GhostAmm

open Py (HasDecimals)

/-- A whole number, or one, two or three units of a decimal. -/
def Tame (step : ℚ) : Prop :=
  (∃ n : ℕ, step = n) ∨ ∃ m d : ℕ, 1 ≤ m ∧ m ≤ 3 ∧ step = m / 10 ^ d

variable {step value : ℚ}

theorem tame_of_hasDecimals (hstep : 0 < step) (h : HasDecimals (decimalsOf step) step) : Tame step := by
  obtain ⟨n, hn⟩ := h
  unfold decimalsOf at hn
  split at hn
  · rename_i hsmall
    obtain ⟨hle, hlt⟩ := (Py.negLog10_eq_iff hstep).mp rfl
    generalize Py.negLog10 step = d at hn hle hlt
    have hd : 0 ≤ d := by
      have hlarge : (10 : ℚ) ^ (1 : ℤ) < 10 ^ (2 * d + 2) := by
        refine lt_trans ?_ hlt
        rw [zpow_one, lt_div_iff₀ (by positivity)]
        nlinarith
      have := (zpow_lt_zpow_iff_right₀ (by norm_num : (1 : ℚ) < 10)).mp hlarge
      omega
    obtain ⟨k, rfl⟩ := Int.eq_ofNat_of_zero_le hd
    rw [Int.toNat_natCast] at hn
    -- the step has between one and three units of its last decimal
    have hpos : 0 < n := by
      have : (0 : ℚ) < n := hn ▸ by positivity
      exact_mod_cast this
    have hsquare : (n : ℚ) ^ 2 ≤ 10 := by
      rw [le_div_iff₀ (by positivity), mul_comm, mul_comm (2 : ℤ), zpow_mul, zpow_natCast] at hle
      rw [← hn, mul_pow]
      exact_mod_cast hle
    have hthree : n ≤ 3 := by
      have : n ^ 2 ≤ 10 := by exact_mod_cast hsquare
      nlinarith
    refine Or.inr ⟨n.toNat, k, by omega, by omega, ?_⟩
    rw [eq_div_iff (by positivity), hn]
    exact_mod_cast (Int.toNat_of_nonneg hpos.le).symm
  · rw [pow_zero, mul_one] at hn
    have hnonneg : 0 ≤ n := by exact_mod_cast (hn ▸ hstep.le : (0 : ℚ) ≤ n)
    exact Or.inl ⟨n.toNat, by rw [hn]; exact_mod_cast (Int.toNat_of_nonneg hnonneg).symm⟩

theorem hasDecimals_of_tame (hstep : 0 < step) (h : Tame step) : HasDecimals (decimalsOf step) step := by
  unfold decimalsOf
  rcases h with ⟨n, rfl⟩ | ⟨m, d, hone, hthree, rfl⟩
  · have hwhole : ¬ (n : ℚ) < 1 := by
      have : 0 < n := by exact_mod_cast hstep
      exact not_lt.mpr (by exact_mod_cast this)
    rw [if_neg hwhole]
    exact ⟨n, by simp⟩
  · have hm : (1 : ℚ) ≤ m := by exact_mod_cast hone
    have hm' : (m : ℚ) ≤ 3 := by exact_mod_cast hthree
    have hpow : (0 : ℚ) < 10 ^ d := by positivity
    split
    · have hlog : Py.negLog10 ((m : ℚ) / 10 ^ d) = d := by
        rw [Py.negLog10_eq_iff hstep]
        have hsquare : (10 : ℚ) / ((m : ℚ) / 10 ^ d) ^ 2 = 10 * (10 ^ d) ^ 2 / m ^ 2 := by
          field_simp
        have hzpow : (10 : ℚ) ^ (2 * (d : ℤ)) = (10 ^ d) ^ 2 := by
          rw [mul_comm, zpow_mul, zpow_natCast]
          norm_cast
        rw [zpow_add₀ (by norm_num), hzpow, hsquare, le_div_iff₀ (by positivity),
          div_lt_iff₀ (by positivity)]
        have hpow2 : (0 : ℚ) < (10 ^ d) ^ 2 := by positivity
        have hlo : (1 : ℚ) ≤ m ^ 2 := one_le_pow₀ hm
        have hhi : (m : ℚ) ^ 2 ≤ 3 ^ 2 := pow_le_pow_left₀ (by linarith) hm' 2
        norm_num at hhi ⊢
        generalize ((10 : ℚ) ^ d) ^ 2 = unit at hpow2
        constructor <;> nlinarith
      rw [hlog, Int.toNat_natCast]
      exact ⟨m, by field_simp; norm_num⟩
    · rename_i hlarge
      have hle : (10 : ℚ) ^ d ≤ m := by
        rw [not_lt, le_div_iff₀ hpow, one_mul] at hlarge
        exact hlarge
      -- three units are less than one of the decimal before
      have hd : d = 0 := by
        by_contra hd
        have := pow_le_pow_right₀ (by norm_num : (1 : ℚ) ≤ 10) (Nat.one_le_iff_ne_zero.mpr hd)
        linarith
      subst hd
      exact ⟨m, by simp⟩

/-! ### Rounding to a step -/

theorem quoteFloorToStep_eq_round (hstep : 0 < step) (value : ℚ) :
    quoteFloorToStep value step = Py.round (Grid.down nudge step value) (decimalsOf step) := by
  unfold quoteFloorToStep floorToStep Grid.down
  rw [if_neg (not_le.mpr hstep), add_div, mul_div_cancel_left₀ _ hstep.ne']
  rfl

theorem ceilToStep_eq_neg (hstep : 0 < step) (value : ℚ) :
    ceilToStep value step = -quoteFloorToStep (-value) step := by
  rw [quoteFloorToStep_eq_round hstep, ← Py.round_neg, ← Grid.up_eq_neg]
  unfold ceilToStep Grid.up
  rw [if_neg (not_le.mpr hstep), sub_div, mul_div_cancel_left₀ _ hstep.ne']
  rfl

/-- The decimals of the step hold the multiple for a value, or the rounding takes it to the
multiple below and the value is below it too. -/
def StaysBelow (step value : ℚ) : Prop :=
  HasDecimals (decimalsOf step) (Grid.down nudge step value) ∨
    value < Grid.down nudge step value ∧
      ∃ n : ℤ, (Grid.down nudge step value - step) * 10 ^ decimalsOf step = n ∧
        Py.IsNearest (Grid.down nudge step value * 10 ^ decimalsOf step) n

theorem isDown_quoteFloorToStep_iff (hstep : 0 < step) :
    Grid.IsDown nudge step value (quoteFloorToStep value step) ↔ StaysBelow step value := by
  rw [Grid.isDown_iff hstep (by norm_num) (by norm_num), quoteFloorToStep_eq_round hstep,
    Py.round_eq_self_iff, Py.round_eq_iff]
  rfl

theorem isUp_ceilToStep_iff (hstep : 0 < step) :
    Grid.IsUp nudge step value (ceilToStep value step) ↔ StaysBelow step (-value) := by
  rw [Grid.isUp_iff_neg, ceilToStep_eq_neg hstep, neg_neg, isDown_quoteFloorToStep_iff hstep]

/-- A tame step is safe for every value, and no other step for itself. -/
theorem staysBelow_iff_tame (hstep : 0 < step) : (∀ value, StaysBelow step value) ↔ Tame step := by
  constructor
  · intro h
    have hself : Grid.down nudge step step = step :=
      Grid.down_of_onGrid hstep (by norm_num) (by norm_num) ⟨1, by simp⟩
    rcases h step with hdecimals | ⟨hlt, -⟩
    · rw [hself] at hdecimals
      exact tame_of_hasDecimals hstep hdecimals
    · rw [hself] at hlt
      exact absurd hlt (lt_irrefl step)
  · intro h value
    exact Or.inl ((hasDecimals_of_tame hstep h).mul_int _)

/--
**Rounding to a step is outward for every value exactly when the step is whole or one, two or
three units of a decimal.**  For a single value it is when the decimals of the step hold the
multiple that is looked for, or the value is on the far side of the multiple it slips to.
-/
theorem step_rounding_outward_iff (hstep : 0 < step) :
    (∀ value, (Grid.IsDown nudge step value (quoteFloorToStep value step) ↔
        StaysBelow step value) ∧
      (Grid.IsUp nudge step value (ceilToStep value step) ↔ StaysBelow step (-value))) ∧
    ((∀ value, Grid.IsDown nudge step value (quoteFloorToStep value step) ∧
        Grid.IsUp nudge step value (ceilToStep value step)) ↔ Tame step) := by
  refine ⟨fun value => ⟨isDown_quoteFloorToStep_iff hstep, isUp_ceilToStep_iff hstep⟩, ?_⟩
  rw [← staysBelow_iff_tame hstep]
  constructor
  · intro h value
    exact (isDown_quoteFloorToStep_iff hstep).mp (h value).1
  · intro h value
    exact ⟨(isDown_quoteFloorToStep_iff hstep).mpr (h value),
      (isUp_ceilToStep_iff hstep).mpr (h (-value))⟩

theorem step_rounding_outward_iff_half :
    (∀ value, (Grid.IsDown nudge (1 / 2) value (quoteFloorToStep value (1 / 2)) ↔
        StaysBelow (1 / 2) value) ∧
      (Grid.IsUp nudge (1 / 2) value (ceilToStep value (1 / 2)) ↔ StaysBelow (1 / 2) (-value))) ∧
    ((∀ value, Grid.IsDown nudge (1 / 2) value (quoteFloorToStep value (1 / 2)) ∧
        Grid.IsUp nudge (1 / 2) value (ceilToStep value (1 / 2))) ↔ Tame (1 / 2)) :=
  step_rounding_outward_iff (by norm_num)

/-- With a step of a half, 1.6 is rounded down to 2. -/
theorem step_rounding_passes_value :
    quoteFloorToStep (8 / 5) (1 / 2) = 2 ∧
      ¬ Grid.IsDown nudge (1 / 2) (8 / 5) (quoteFloorToStep (8 / 5) (1 / 2)) := by
  have hdecimals : decimalsOf (1 / 2) = 0 := by
    have hlog : Py.negLog10 (1 / 2) = 0 := (Py.negLog10_eq_iff (by norm_num)).mpr (by norm_num)
    unfold decimalsOf
    rw [hlog, Int.toNat_zero, ite_self]
  have htwo : quoteFloorToStep (8 / 5) (1 / 2) = 2 := by
    rw [quoteFloorToStep_eq_round (by norm_num), hdecimals]
    decide +kernel
  rw [htwo]
  refine ⟨rfl, fun h => ?_⟩
  have hbelow := h.below
  norm_num at hbelow

end GhostAmm
