/-
Cutting an ordered line into cells, and a list into the cells its members fall in.

The cells of a chain of boundaries are half-open, and the last one is closed.  A point
between the first boundary and the last lies in exactly one of them (`existsUnique_cell`),
boundaries that coincide included.  A list whose members each belong to exactly one cell is
the cells one after the other, up to order (`flatMap_filter_perm`); within a cell the order
is the list's own, because a cell is a filter of it.
-/
import Mathlib

namespace Cells

variable {α : Type}

/-- The point `x` lies in cell `k` of the `n` between the boundaries `b`. -/
def InCell [LinearOrder α] (b : ℕ → α) (n k : ℕ) (x : α) : Prop :=
  b k ≤ x ∧ (x < b (k + 1) ∨ k + 1 = n ∧ x ≤ b (k + 1))

/-- A point is in the cell of the last boundary that is not above it, the last cell closed. -/
theorem existsUnique_cell [LinearOrder α] {b : ℕ → α} {n : ℕ} {x : α} (hb : Monotone b)
    (hn : 0 < n) (hlo : b 0 ≤ x) (hhi : x ≤ b n) : ∃! k, k < n ∧ InCell b n k x := by
  -- the boundaries before the last that are not above `x`
  obtain ⟨k, hk, hmax⟩ : ∃ k, (k < n ∧ b k ≤ x) ∧ ∀ j, j < n ∧ b j ≤ x → j ≤ k := by
    let below := (Finset.range n).filter fun j => b j ≤ x
    have hne : below.Nonempty := ⟨0, by simp [below, hn, hlo]⟩
    refine ⟨below.max' hne, ?_, fun j hj => ?_⟩
    · have hmem := below.max'_mem hne
      simpa [below] using hmem
    · refine below.le_max' j ?_
      simpa [below] using hj
  refine ⟨k, ⟨hk.1, hk.2, ?_⟩, ?_⟩
  · by_cases hlast : k + 1 = n
    · refine Or.inr ⟨hlast, ?_⟩
      rw [hlast]
      exact hhi
    · refine Or.inl (not_le.mp fun hle => ?_)
      have := hmax (k + 1) ⟨by omega, hle⟩
      omega
  · intro j hj
    obtain ⟨hjn, hjlo, hjhi⟩ := hj
    have hjk : j ≤ k := hmax j ⟨hjn, hjlo⟩
    by_contra hne
    have hsucc : b (j + 1) ≤ x := le_trans (hb (by omega : j + 1 ≤ k)) hk.2
    rcases hjhi with hlt | ⟨hlast, -⟩
    · exact absurd hlt (not_lt.mpr hsucc)
    · omega

/-- A list cut into cells is the list up to order, each occurrence once. -/
theorem flatMap_filter_perm {ι : Type} (p : ι → α → Bool) : ∀ {keys : List ι} {l : List α},
    keys.Nodup → (∀ a ∈ l, ∃! k, k ∈ keys ∧ p k a = true) →
      (keys.flatMap fun k => l.filter (p k)).Perm l := by
  intro keys
  induction keys with
  | nil =>
      intro l _ h
      have hempty : l = [] := List.eq_nil_iff_forall_not_mem.mpr fun a ha => by
        obtain ⟨k, ⟨hk, -⟩, -⟩ := h a ha
        simp at hk
      rw [hempty]
      exact List.Perm.refl _
  | cons k rest ih =>
      intro l hnodup h
      obtain ⟨hk, hrest⟩ := List.nodup_cons.mp hnodup
      have hremaining : ∀ a ∈ l.filter fun a => !p k a, ∃! j, j ∈ rest ∧ p j a = true := by
        intro a ha
        rw [List.mem_filter, Bool.not_eq_true'] at ha
        obtain ⟨j, ⟨hj, hpj⟩, huniq⟩ := h a ha.1
        refine ⟨j, ⟨?_, hpj⟩, fun i hi => huniq i ⟨List.mem_cons_of_mem _ hi.1, hi.2⟩⟩
        rcases List.mem_cons.mp hj with rfl | hj
        · rw [ha.2] at hpj
          simp at hpj
        · exact hj
      have hcells : (rest.flatMap fun j => l.filter (p j))
          = rest.flatMap fun j => (l.filter fun a => !p k a).filter (p j) := by
        refine List.flatMap_congr fun j hj => ?_
        rw [List.filter_filter]
        refine List.filter_congr fun a ha => ?_
        by_cases hpk : p k a = true
        · by_cases hpj : p j a = true
          · obtain ⟨i, -, huniq⟩ := h a ha
            have hjk : j = k := (huniq j ⟨List.mem_cons_of_mem _ hj, hpj⟩).trans
              (huniq k ⟨List.mem_cons_self, hpk⟩).symm
            exact absurd (hjk ▸ hj) hk
          · simp [hpj]
        · simp [hpk]
      rw [List.flatMap_cons, hcells]
      exact ((ih hrest hremaining).append_left _).trans (List.filter_append_perm _ _)

end Cells
