/-
A flow poured down a row of tanks.

Each tank stands behind a queue.  The flow first covers the queue, then fills the
tank, and what is left goes on to the next one.  `reached` lists the tanks that get
anything, with what they get, in closed form: a tank at the end of `xs` sees the
flow less everything `xs` can take in, whether or not the flow really gets that far.
`leftover` is the flow as a loop carries it on, which never falls below zero, and
`reached_leftover` says that the two ways of counting pour the same.

Queues and tanks of a negative size count as empty.
-/
import Mathlib

namespace Waterfall

variable {α K : Type} [AddCommGroup K] [LinearOrder K]
variable (queue size : α → K)

/-- What a tank and its queue take in before anything flows on. -/
def capacity (x : α) : K := max 0 (queue x) + max 0 (size x)

/-- What a flow fills of a tank behind its queue; not positive when it stays dry. -/
def share (flow : K) (x : α) : K := min (size x) (flow - max 0 (queue x))

/-- The tanks a flow reaches, in order, with what each gets. -/
def reached : K → List α → List (α × K)
  | _, [] => []
  | flow, x :: rest =>
      (if 0 < share queue size flow x then [(x, share queue size flow x)] else []) ++
        reached (flow - capacity queue size x) rest

/-- The flow that goes on behind a tank. -/
def leftover (flow : K) (x : α) : K :=
  flow - min (max 0 (queue x)) flow - max 0 (share queue size flow x)

/-- What a flow covers of a queue and fills of the tank behind it. -/
def poured (flow : K) (x : α) : K :=
  min (max 0 (queue x)) (max 0 flow) + max 0 (share queue size flow x)

variable {queue size}

/-! ### Which tanks are reached -/

theorem reached_nil (flow : K) : reached queue size flow [] = [] := rfl

theorem reached_cons (flow : K) (x : α) (l : List α) :
    reached queue size flow (x :: l) =
      (if 0 < share queue size flow x then [(x, share queue size flow x)] else []) ++
        reached queue size (flow - capacity queue size x) l := rfl

theorem reached_append (xs ys : List α) : ∀ flow : K,
    reached queue size flow (xs ++ ys)
      = reached queue size flow xs ++
        reached queue size (flow - (xs.map (capacity queue size)).sum) ys := by
  induction xs with
  | nil => intro flow; simp [reached_nil]
  | cons x rest ih =>
      intro flow
      rw [List.cons_append, reached_cons, reached_cons, ih, List.append_assoc, List.map_cons,
        List.sum_cons, sub_sub]

/-- A tank is reached with what is left once everything in front of it is full. -/
theorem mem_reached {flow : K} {l : List α} {x : α} {y : K} :
    (x, y) ∈ reached queue size flow l ↔
      ∃ xs ys, l = xs ++ x :: ys ∧
        y = share queue size (flow - (xs.map (capacity queue size)).sum) x ∧ 0 < y := by
  constructor
  · induction l generalizing flow with
    | nil => intro h; simp [reached_nil] at h
    | cons z rest ih =>
        intro h
        rw [reached_cons, List.mem_append] at h
        rcases h with h | h
        · split at h
          · rename_i hpos
            obtain ⟨rfl, rfl⟩ := Prod.mk.inj (List.mem_singleton.mp h)
            exact ⟨[], rest, rfl, by simp, hpos⟩
          · simp at h
        · obtain ⟨xs, ys, rfl, hy, hpos⟩ := ih h
          refine ⟨z :: xs, ys, rfl, ?_, hpos⟩
          rw [hy, List.map_cons, List.sum_cons, sub_sub]
  · rintro ⟨xs, ys, rfl, hy, hpos⟩
    rw [reached_append, List.mem_append, reached_cons]
    refine Or.inr (List.mem_append_left _ ?_)
    rw [← hy, if_pos hpos]
    exact List.mem_singleton_self _

theorem pos_of_mem_reached {flow : K} {l : List α} {x : α} {y : K}
    (h : (x, y) ∈ reached queue size flow l) : 0 < y := by
  obtain ⟨_, _, _, _, hpos⟩ := mem_reached.mp h
  exact hpos

theorem le_size_of_mem_reached {flow : K} {l : List α} {x : α} {y : K}
    (h : (x, y) ∈ reached queue size flow l) : y ≤ size x := by
  obtain ⟨_, _, _, hy, _⟩ := mem_reached.mp h
  rw [hy]
  exact min_le_left _ _

theorem mem_of_mem_reached {flow : K} {l : List α} {x : α} {y : K}
    (h : (x, y) ∈ reached queue size flow l) : x ∈ l := by
  obtain ⟨xs, ys, rfl, _, _⟩ := mem_reached.mp h
  simp

/-- The tanks that are reached, in the order they stand in. -/
theorem reached_sublist (l : List α) : ∀ flow : K,
    ((reached queue size flow l).map Prod.fst).Sublist l := by
  induction l with
  | nil => intro flow; exact List.Sublist.refl _
  | cons x rest ih =>
      intro flow
      rw [reached_cons, List.map_append]
      split
      · exact (ih _).cons_cons x
      · exact (ih _).cons x

/-! ### The flow as a loop carries it -/

variable [IsOrderedAddMonoid K]

theorem capacity_nonneg (x : α) : 0 ≤ capacity queue size x :=
  add_nonneg (le_max_left _ _) (le_max_left _ _)

theorem share_nonpos {flow : K} (h : flow ≤ 0) (x : α) : share queue size flow x ≤ 0 := by
  have hq : 0 ≤ max 0 (queue x) := le_max_left _ _
  calc share queue size flow x ≤ flow - max 0 (queue x) := min_le_right _ _
    _ ≤ flow := sub_le_self _ hq
    _ ≤ 0 := h

/-- Without a flow nothing is reached. -/
theorem reached_of_nonpos {l : List α} : ∀ {flow : K}, flow ≤ 0 →
    reached queue size flow l = [] := by
  induction l with
  | nil => intro _ _; rfl
  | cons x rest ih =>
      intro flow h
      have hrest : flow - capacity queue size x ≤ 0 :=
        (sub_le_self _ (capacity_nonneg x)).trans h
      rw [reached_cons, if_neg (not_lt.mpr (share_nonpos h x)), ih hrest]
      rfl

theorem reached_max_zero (flow : K) (l : List α) :
    reached queue size (max 0 flow) l = reached queue size flow l := by
  by_cases h : flow ≤ 0
  · rw [max_eq_left h, reached_of_nonpos h, reached_of_nonpos le_rfl]
  · rw [max_eq_right (not_le.mp h).le]

/-- The flow behind a tank is what its capacity leaves of the flow before it. -/
theorem leftover_eq (flow : K) (x : α) :
    leftover queue size flow x = max 0 (flow - capacity queue size x) := by
  have hq : 0 ≤ max 0 (queue x) := le_max_left _ _
  unfold leftover share capacity
  generalize max 0 (queue x) = q at hq ⊢
  generalize size x = s
  by_cases hflow : flow ≤ q
  · -- the queue swallows the flow
    have hdry : max 0 (min s (flow - q)) = 0 :=
      max_eq_left ((min_le_right _ _).trans (sub_nonpos.mpr hflow))
    have hcap : flow - (q + max 0 s) ≤ 0 :=
      sub_nonpos.mpr (hflow.trans (le_add_of_nonneg_right (le_max_left _ _)))
    rw [hdry, min_eq_right hflow, max_eq_left hcap, sub_self, sub_zero]
  · have hpos : 0 < flow - q := sub_pos.mpr (not_le.mp hflow)
    have hshare : max 0 (min s (flow - q)) = min (max 0 s) (flow - q) := by
      rw [max_min_distrib_left, max_eq_right hpos.le]
    rw [min_eq_left (not_le.mp hflow).le, hshare, ← sub_sub]
    rcases le_total (max 0 s) (flow - q) with hs | hs
    · rw [min_eq_left hs, max_eq_right (sub_nonneg.mpr hs)]
    · rw [min_eq_right hs, max_eq_left (sub_nonpos.mpr hs), sub_self]

/-- A tank and its queue take in the flow up to their capacity. -/
theorem poured_eq (flow : K) (x : α) :
    poured queue size flow x = min (capacity queue size x) (max 0 flow) := by
  unfold poured
  by_cases h : flow ≤ 0
  · rw [max_eq_left (share_nonpos h x), max_eq_left h, add_zero, min_eq_right (le_max_left _ _),
      min_eq_right (capacity_nonneg x)]
  · have hflow : max 0 flow = flow := max_eq_right (not_le.mp h).le
    have hleft : leftover queue size flow x = max 0 (flow - capacity queue size x) :=
      leftover_eq flow x
    unfold leftover at hleft
    rw [hflow]
    calc min (max 0 (queue x)) flow + max 0 (share queue size flow x)
        = flow - (flow - min (max 0 (queue x)) flow - max 0 (share queue size flow x)) := by abel
      _ = flow - max 0 (flow - capacity queue size x) := by rw [hleft]
      _ = min (capacity queue size x) flow := by
          rcases le_total flow (capacity queue size x) with hle | hle
          · rw [min_eq_right hle, max_eq_left (sub_nonpos.mpr hle), sub_zero]
          · rw [min_eq_left hle, max_eq_right (sub_nonneg.mpr hle), sub_sub_cancel]

/-- What a flow covers of a queue and fills of the tank behind it is no more than the flow. -/
theorem covered_add_share_le (flow : K) (x : α) :
    min (max 0 (queue x)) (max 0 flow) + max 0 (share queue size flow x) ≤ max 0 flow :=
  (poured_eq flow x).le.trans (min_le_right _ _)

theorem capacities_nonneg (l : List α) : 0 ≤ (l.map (capacity queue size)).sum := by
  refine List.sum_nonneg fun c hc => ?_
  obtain ⟨x, -, rfl⟩ := List.mem_map.mp hc
  exact capacity_nonneg x

omit [LinearOrder K] [IsOrderedAddMonoid K] in
/-- What is said of each tank by the flow that comes to it, of the first one and of those below. -/
theorem drained_cons {β : Type} {c : α → K} {f : α → β} {g : K → α → β} {flow : K} {x : α}
    {rest : List α}
    (h : ∀ xs y ys, x :: rest = xs ++ y :: ys → f y = g (flow - (xs.map c).sum) y) :
    f x = g flow x ∧
      ∀ xs y ys, rest = xs ++ y :: ys → f y = g (flow - c x - (xs.map c).sum) y := by
  constructor
  · rw [h [] x rest rfl, List.map_nil, List.sum_nil, sub_zero]
  · intro xs y ys hl
    rw [h (x :: xs) y ys (by rw [hl]; rfl), List.map_cons, List.sum_cons, sub_sub]

/-- **Nothing is lost on the way down**: a row takes in the flow up to its whole capacity. -/
theorem sum_poured {taken : α → K} (l : List α) : ∀ flow : K,
    (∀ xs x ys, l = xs ++ x :: ys →
      taken x = poured queue size (flow - (xs.map (capacity queue size)).sum) x) →
    (l.map taken).sum = min (l.map (capacity queue size)).sum (max 0 flow) := by
  induction l with
  | nil =>
      intro flow _
      exact (min_eq_left (le_max_left _ _)).symm
  | cons x rest ih =>
      intro flow h
      obtain ⟨hhead, hbelow⟩ := drained_cons h
      have hrest := ih (flow - capacity queue size x) hbelow
      have hcap : 0 ≤ capacity queue size x := capacity_nonneg x
      have hcaps : 0 ≤ (rest.map (capacity queue size)).sum := capacities_nonneg rest
      rw [List.map_cons, List.sum_cons, hhead, poured_eq, hrest, List.map_cons, List.sum_cons]
      generalize capacity queue size x = c at hcap ⊢
      generalize (rest.map (capacity queue size)).sum = cs at hcaps ⊢
      rcases le_total flow c with hle | hle
      · -- the first tank takes it all
        have hflow : max 0 flow ≤ c := max_le hcap hle
        rw [min_eq_right hflow, max_eq_left (sub_nonpos.mpr hle), min_eq_right hcaps, add_zero,
          min_eq_right (hflow.trans (le_add_of_nonneg_right hcaps))]
      · rw [max_eq_right (hcap.trans hle), min_eq_left hle, max_eq_right (sub_nonneg.mpr hle),
          ← min_add_add_left, add_sub_cancel]

omit [IsOrderedAddMonoid K] in
/-- What a flow fills altogether, tank by tank. -/
theorem sum_reached {filled : α → K} (l : List α) : ∀ flow : K,
    (∀ xs x ys, l = xs ++ x :: ys →
      filled x = max 0 (share queue size (flow - (xs.map (capacity queue size)).sum) x)) →
    ((reached queue size flow l).map Prod.snd).sum = (l.map filled).sum := by
  induction l with
  | nil =>
      intro flow _
      rfl
  | cons x rest ih =>
      intro flow h
      obtain ⟨hhead, hbelow⟩ := @drained_cons _ _ _ _ _ _
        (fun flow x => max 0 (share queue size flow x)) _ _ _ h
      have hrest := ih (flow - capacity queue size x) hbelow
      rw [reached_cons, List.map_append, List.sum_append, hrest, List.map_cons, List.sum_cons,
        hhead]
      by_cases hpos : 0 < share queue size flow x
      · rw [if_pos hpos, max_eq_right hpos.le]
        simp
      · rw [if_neg hpos, max_eq_left (not_lt.mp hpos)]
        simp

/-- Carrying the leftover on reaches what the closed form says. -/
theorem reached_leftover (flow : K) (x : α) (l : List α) :
    reached queue size (leftover queue size flow x) l
      = reached queue size (flow - capacity queue size x) l := by
  rw [leftover_eq, reached_max_zero]

end Waterfall
