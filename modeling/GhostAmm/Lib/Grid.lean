/-
Rounding to the multiples of a step, with some slack.

`down` takes a value to the multiple below it and `up` to the one above, except that a value
within `slack` steps of the next multiple is taken to that one.  So either can go a little the
wrong way; as long as the slack is less than half a step the two still do not pass each other
(`down_le_up`), and with less than a whole step the multiples themselves stay where they are
(`down_of_onGrid`).

`IsDown` and `IsUp` say what either is for without computing it; apart from what they compute
there is at most one more multiple that would do (`isDown_iff`).
-/
import Mathlib

namespace Grid

variable {K : Type*} [Field K] [LinearOrder K] [FloorRing K]

/-- The multiple of the step below a value, or the next one when that is `slack` steps away. -/
def down (slack step value : K) : K := ⌊value / step + slack⌋ * step

/-- The multiple of the step above a value, or the last one when that is `slack` steps away. -/
def up (slack step value : K) : K := ⌈value / step - slack⌉ * step

/-- A multiple of the step. -/
def OnGrid (step value : K) : Prop := ∃ steps : ℤ, value = steps * step

variable {slack step value other rounded : K}

theorem onGrid_down : OnGrid step (down slack step value) := ⟨_, rfl⟩

variable [IsStrictOrderedRing K]

/-- **Rounding down does not pass rounding up**, with a slack of less than half a step. -/
theorem down_le_up (hstep : 0 < step) (hslack : 2 * slack < 1) (h : value ≤ other) :
    down slack step value ≤ up slack step other := by
  unfold down up
  have hdiv := div_le_div_of_nonneg_right h hstep.le
  have hfloor := Int.floor_le (value / step + slack)
  have hceil := Int.le_ceil (other / step - slack)
  -- the multiples are less than a step out of order, so they are in order
  have hlt : ((⌊value / step + slack⌋ : ℤ) : K) < (⌈other / step - slack⌉ : ℤ) + 1 := by
    linarith
  have hle : ⌊value / step + slack⌋ ≤ ⌈other / step - slack⌉ := by
    apply Int.lt_add_one_iff.mp
    exact_mod_cast hlt
  exact mul_le_mul_of_nonneg_right (by exact_mod_cast hle) hstep.le

/-- Values more than a step apart are rounded apart. -/
theorem down_lt_up (hstep : 0 < step) (hslack : 2 * slack < 1) (h : step < other - value) :
    down slack step value < up slack step other := by
  unfold down up
  have hgap : 1 < other / step - value / step := by
    rw [← sub_div]
    exact (one_lt_div hstep).mpr h
  have hfloor := Int.floor_le (value / step + slack)
  have hceil := Int.le_ceil (other / step - slack)
  refine mul_lt_mul_of_pos_right ?_ hstep
  linarith

/-! ### Multiples of the step -/

/-- **A multiple of the step is left alone.** -/
theorem down_of_onGrid (hstep : 0 < step) (hslack : 0 ≤ slack) (hslack' : slack < 1)
    (h : OnGrid step value) : down slack step value = value := by
  obtain ⟨steps, rfl⟩ := h
  unfold down
  have hfloor : ⌊(steps : K) * step / step + slack⌋ = steps := by
    rw [mul_div_cancel_right₀ _ hstep.ne', Int.floor_eq_iff]
    refine ⟨?_, ?_⟩
    · linarith
    · linarith
  rw [hfloor]

/-- Rounding down takes a value up only if a multiple is within the slack above it. -/
theorem down_le_self_iff (hstep : 0 < step) : down slack step value ≤ value ↔
    ∀ other, OnGrid step other → value < other → value + slack * step < other := by
  have hscale : (value / step + slack) * step = value + slack * step := by
    rw [add_mul, div_mul_cancel₀ _ hstep.ne']
  constructor
  · rintro hdown _ ⟨steps, rfl⟩ hlt
    by_contra hnear
    have hsteps : steps ≤ ⌊value / step + slack⌋ := by
      rw [Int.le_floor]
      exact le_of_mul_le_mul_right (hscale ▸ not_lt.mp hnear) hstep
    have hle : (steps : K) * step ≤ down slack step value :=
      mul_le_mul_of_nonneg_right (by exact_mod_cast hsteps) hstep.le
    exact absurd (hle.trans hdown) (not_le.mpr hlt)
  · intro h
    by_contra hup
    have hfar := h _ onGrid_down (not_le.mp hup)
    have hfloor := mul_le_mul_of_nonneg_right (Int.floor_le (value / step + slack)) hstep.le
    rw [hscale] at hfloor
    exact absurd hfloor (not_le.mpr hfar)

/-! ### Any multiple that would do -/

/-- A multiple less than a step below the value, or above it by no more than the slack. -/
structure IsDown (slack step value rounded : K) : Prop where
  onGrid : OnGrid step rounded
  above : value - step < rounded
  below : rounded ≤ value + slack * step

/-- A multiple less than a step above the value, or below it by no more than the slack. -/
structure IsUp (slack step value rounded : K) : Prop where
  onGrid : OnGrid step rounded
  below : rounded < value + step
  above : value - slack * step ≤ rounded

omit [LinearOrder K] [FloorRing K] [IsStrictOrderedRing K] in
theorem onGrid_neg_iff : OnGrid step (-value) ↔ OnGrid step value := by
  constructor
  · rintro ⟨steps, h⟩
    exact ⟨-steps, by rw [← neg_neg value, h]; push_cast; ring⟩
  · rintro ⟨steps, rfl⟩
    exact ⟨-steps, by push_cast; ring⟩

omit [FloorRing K] in
/-- The two directions mirror each other. -/
theorem isUp_iff_neg : IsUp slack step value rounded ↔ IsDown slack step (-value) (-rounded) := by
  constructor
  · rintro ⟨hgrid, hbelow, habove⟩
    exact ⟨onGrid_neg_iff.mpr hgrid, by linarith, by linarith⟩
  · rintro ⟨hgrid, habove, hbelow⟩
    exact ⟨onGrid_neg_iff.mp hgrid, by linarith, by linarith⟩

theorem up_eq_neg : up slack step value = -down slack step (-value) := by
  unfold up down
  rw [← neg_mul, ← Int.cast_neg, ← Int.ceil_neg]
  congr 3
  ring

theorem isDown_down (hstep : 0 < step) (hslack : 0 ≤ slack) :
    IsDown slack step value (down slack step value) := by
  have hvalue : value / step * step = value := div_mul_cancel₀ value hstep.ne'
  refine ⟨onGrid_down, ?_, ?_⟩
  · have hlt := mul_lt_mul_of_pos_right (Int.lt_floor_add_one (value / step + slack)) hstep
    have hnonneg := mul_nonneg hslack hstep.le
    unfold down
    linarith
  · have hle := mul_le_mul_of_nonneg_right (Int.floor_le (value / step + slack)) hstep.le
    unfold down
    linarith

/-- **The multiples that would do**: the one computed, and the one below it if the value is
below it too. -/
theorem isDown_iff (hstep : 0 < step) (hslack : 0 ≤ slack) (hslack' : slack < 1) :
    IsDown slack step value rounded ↔ rounded = down slack step value ∨
      value < down slack step value ∧ rounded = down slack step value - step := by
  have hdown : IsDown slack step value (down slack step value) := isDown_down hstep hslack
  constructor
  · rintro ⟨⟨steps, rfl⟩, habove, hbelow⟩
    obtain ⟨n, hn⟩ := hdown.onGrid
    have hslackstep : slack * step < step := by nlinarith
    have hnlow := hdown.above
    have hnhigh := hdown.below
    rw [hn] at hnlow hnhigh ⊢
    -- `n` is the last multiple that would do, and `n - 2` is too low
    have hle : steps ≤ n := by
      have hfloor : steps ≤ ⌊value / step + slack⌋ := by
        rw [Int.le_floor, ← sub_le_iff_le_add, le_div_iff₀ hstep]
        linarith
      have hsame : ((⌊value / step + slack⌋ : ℤ) : K) = n :=
        mul_right_cancel₀ hstep.ne' hn
      have hfloorn : ⌊value / step + slack⌋ = n := by exact_mod_cast hsame
      rwa [hfloorn] at hfloor
    rcases eq_or_lt_of_le hle with rfl | hlt
    · exact Or.inl rfl
    · have hge : n < steps + 2 := by
        have hcast : (n : K) * step < (steps + 2 : ℤ) * step := by
          push_cast
          linarith
        exact_mod_cast lt_of_mul_lt_mul_right hcast hstep.le
      obtain rfl : steps = n - 1 := by omega
      push_cast at habove ⊢
      exact Or.inr ⟨by linarith, by ring⟩
  · rintro (rfl | ⟨hlt, rfl⟩)
    · exact hdown
    · obtain ⟨n, hn⟩ := hdown.onGrid
      have hhigh := hdown.below
      refine ⟨⟨n - 1, ?_⟩, ?_, ?_⟩
      · rw [hn]
        push_cast
        ring
      · linarith
      · linarith

end Grid
