/-
The largest fall of a series, found in one pass.

`pass` keeps the highest value so far and the largest fall from it.  That is the largest
difference of a value and a later one over all pairs (`isLargestDrop_pass`): what a pass stays
below is said by one equivalence, which the loop keeps, and the largest difference stays below
the same.
-/
import Mathlib

namespace Peak

variable {K : Type*} [AddCommGroup K] [LinearOrder K]

/-- The falls from each value to itself and to those after it. -/
def drops : List K → List K
  | [] => []
  | value :: rest => (value :: rest).map (value - ·) ++ drops rest

/-- The largest difference of a value and one that does not come before it. -/
def IsLargestDrop (values : List K) (drop : K) : Prop :=
  IsGreatest {d | ∃ (i j : ℕ) (v w : K), i ≤ j ∧ values[i]? = some v ∧ values[j]? = some w ∧
    d = v - w} drop

/-- The peak so far and the largest fall so far, after one more value. -/
def step (acc : Option K × K) (value : K) : Option K × K :=
  let peak := acc.1.elim value (max · value)
  (some peak, max acc.2 (peak - value))

/-- The pass over a series. -/
def pass (values : List K) : K := (values.foldl step (none, 0)).2

variable {value drop bound : K} {values rest : List K}

/-! ### The falls -/

omit [LinearOrder K] in
theorem mem_drops : ∀ {values : List K}, drop ∈ drops values ↔
    ∃ (i j : ℕ) (v w : K), i ≤ j ∧ values[i]? = some v ∧ values[j]? = some w ∧
      drop = v - w := by
  intro values
  induction values with
  | nil => simp [drops]
  | cons value rest ih =>
      rw [drops, List.mem_append, List.mem_map, ih]
      constructor
      · intro h
        rcases h with ⟨w, hw, rfl⟩ | ⟨i, j, v, w, hij, hv, hw, rfl⟩
        · obtain ⟨j, hj⟩ := List.mem_iff_getElem?.mp hw
          exact ⟨0, j, value, w, Nat.zero_le j, rfl, hj, rfl⟩
        · exact ⟨i + 1, j + 1, v, w, by omega, hv, hw, rfl⟩
      · intro h
        obtain ⟨i, j, v, w, hij, hv, hw, rfl⟩ := h
        cases i with
        | zero =>
            refine Or.inl ⟨w, List.mem_iff_getElem?.mpr ⟨j, hw⟩, ?_⟩
            rw [Option.some.inj hv]
        | succ i =>
            obtain ⟨j, rfl⟩ : ∃ k, j = k + 1 := ⟨j - 1, by omega⟩
            exact Or.inr ⟨i, j, v, w, by omega, hv, hw, rfl⟩

/-- A first value adds the falls from it. -/
theorem drops_le_cons_iff : (∀ d ∈ drops (value :: rest), d ≤ bound) ↔
    0 ≤ bound ∧ (∀ w ∈ rest, value - w ≤ bound) ∧ ∀ d ∈ drops rest, d ≤ bound := by
  rw [drops, List.forall_mem_append, List.map_cons, List.forall_mem_cons, sub_self,
    List.forall_mem_map, and_assoc]

/-! ### The pass -/

variable [IsOrderedAddMonoid K]

/-- What the rest of a pass stays below. -/
theorem foldl_step_le_iff {peak best : K} : (rest.foldl step (some peak, best)).2 ≤ bound ↔
    best ≤ bound ∧ (∀ w ∈ rest, peak - w ≤ bound) ∧ ∀ d ∈ drops rest, d ≤ bound := by
  induction rest generalizing peak best with
  | nil => simp [drops]
  | cons value rest ih =>
      have hpeak : ∀ w, max peak value - w ≤ bound ↔ peak - w ≤ bound ∧ value - w ≤ bound := by
        intro w
        rw [sub_le_iff_le_add, sub_le_iff_le_add, sub_le_iff_le_add, max_le_iff]
      show (rest.foldl step (some (max peak value), max best (max peak value - value))).2 ≤ _ ↔ _
      rw [ih, max_le_iff, hpeak, sub_self, drops_le_cons_iff, List.forall_mem_cons]
      simp only [hpeak, forall₂_and]
      tauto

/-- What a pass stays below. -/
theorem pass_le_iff :
    pass values ≤ bound ↔ 0 ≤ bound ∧ ∀ d ∈ drops values, d ≤ bound := by
  cases values with
  | nil => simp [pass, drops]
  | cons value rest =>
      show (rest.foldl step (some value, max 0 (value - value))).2 ≤ _ ↔ _
      rw [foldl_step_le_iff, sub_self, max_self, drops_le_cons_iff]
      tauto

theorem le_pass (h : drop ∈ drops values) : drop ≤ pass values :=
  (pass_le_iff.mp le_rfl).2 drop h

theorem pass_mem (h : values ≠ []) : pass values ∈ drops values := by
  have hzero : 0 ∈ drops values := by
    cases values with
    | nil => exact absurd rfl h
    | cons value rest => simp [drops]
  obtain ⟨largest, hmem, hle⟩ :=
    (drops values).toFinset.exists_max_image id ⟨0, List.mem_toFinset.mpr hzero⟩
  simp only [List.mem_toFinset, id] at hmem hle
  have hpass : pass values = largest :=
    le_antisymm (pass_le_iff.mpr ⟨hle 0 hzero, hle⟩) (le_pass hmem)
  rw [hpass]
  exact hmem

/-- **The pass finds the largest fall.** -/
theorem isLargestDrop_pass (h : values ≠ []) : IsLargestDrop values (pass values) :=
  ⟨mem_drops.mp (pass_mem h), fun _ hdrop => le_pass (mem_drops.mpr hdrop)⟩

/-- **When the pass may leave out the first value**: each fall from it is no deeper than one
among the values after it. -/
theorem isLargestDrop_pass_tail_iff : IsLargestDrop (value :: rest) (pass rest) ↔
    ∀ w ∈ rest, ∃ d ∈ drops rest, value - w ≤ d := by
  constructor
  · intro h w hw
    refine ⟨pass rest, pass_mem (List.ne_nil_of_mem hw), h.2 (mem_drops.mp ?_)⟩
    rw [drops, List.mem_append]
    exact Or.inl (List.mem_map_of_mem (List.mem_cons_of_mem _ hw))
  · intro h
    have hsame : pass rest = pass (value :: rest) := by
      refine le_antisymm ?_ ?_
      · rw [pass_le_iff]
        obtain ⟨hzero, hall⟩ := pass_le_iff.mp (le_refl (pass (value :: rest)))
        exact ⟨hzero, (drops_le_cons_iff.mp hall).2.2⟩
      · rw [pass_le_iff, drops_le_cons_iff]
        have hzero := (pass_le_iff.mp (le_refl (pass rest))).1
        refine ⟨hzero, hzero, fun w hw => ?_, fun d hd => le_pass hd⟩
        obtain ⟨d, hd, hle⟩ := h w hw
        exact hle.trans (le_pass hd)
    rw [hsame]
    exact isLargestDrop_pass (List.cons_ne_nil value rest)

end Peak
