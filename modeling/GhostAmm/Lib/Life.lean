/-
The life of one order.

An order is placed once, and then either canceled or filled.  A fill takes it off
the desk even when it is partial: the part that is left can be filled again, but no
longer canceled.  A part no greater than `dust` counts as nothing.

`run` accepts the sequences of acts that are lives, and `told_by` reads every
accepted sequence off the phase it ends in.  That one theorem carries all the facts
about lives: placed at most once, canceled at most once, never both canceled and
filled, and never filled beyond the size.
-/
import Mathlib

namespace Life

variable {K : Type} [AddCommGroup K] [LinearOrder K]

/-- What can happen to an order. -/
inductive Act (K : Type) where
  | place (size : K)
  | cancel
  | fill (amount : K)

/-- Whether an act is a placement. -/
def Act.isPlace : Act K → Bool
  | .place _ => true
  | _ => false

/-- Whether an act is a cancel. -/
def Act.isCancel : Act K → Bool
  | .cancel => true
  | _ => false

/-- The amount of a fill. -/
def Act.fill? : Act K → Option K
  | .fill amount => some amount
  | _ => none

/-- Where an order stands in its life. -/
inductive Phase (K : Type) where
  | unborn
  | active (size : K)
  /-- Filled in part: `left` of it still rests. -/
  | remainder (left : K)
  | filled
  | canceled

/-- How often an order has been placed. -/
def Phase.placed : Phase K → ℕ
  | .unborn => 0
  | _ => 1

/-- How often an order has been canceled. -/
def Phase.cancels : Phase K → ℕ
  | .canceled => 1
  | _ => 0

/-- Whether an order has been filled, at least in part. -/
def Phase.HasFills : Phase K → Prop
  | .remainder _ | .filled => True
  | _ => False

/-- The phase of an order of which `left` is left after a fill. -/
def settle (dust left : K) : Phase K := if left ≤ dust then .filled else .remainder left

/-- One act, if it may happen. -/
def step (dust : K) : Phase K → Act K → Option (Phase K)
  | .unborn, .place size => some (.active size)
  | .active _, .cancel => some .canceled
  | .active left, .fill amount | .remainder left, .fill amount =>
      if 0 < amount ∧ amount ≤ left then some (settle dust (left - amount)) else none
  | _, _ => none

/-- A sequence of acts, if all of it may happen. -/
def run (dust : K) : Phase K → List (Act K) → Option (Phase K)
  | p, [] => some p
  | p, a :: rest => (step dust p a).bind fun q => run dust q rest

theorem run_append {dust : K} : ∀ {xs ys : List (Act K)} {p : Phase K},
    run dust p (xs ++ ys) = (run dust p xs).bind fun q => run dust q ys := by
  intro xs
  induction xs with
  | nil => intro ys p; rfl
  | cons a rest ih =>
      intro ys p
      show ((step dust p a).bind fun q => run dust q (rest ++ ys)) = _
      rw [run]
      cases step dust p a with
      | none => rfl
      | some q => exact ih

theorem run_snoc {dust : K} {xs : List (Act K)} {a : Act K} {p q r : Phase K}
    (h : run dust p xs = some q) (hs : step dust q a = some r) :
    run dust p (xs ++ [a]) = some r := by
  rw [run_append, h]
  show (step dust q a).bind _ = _
  rw [hs]
  rfl

/-- Without a fill nothing becomes a remainder, and a remainder stays what it is. -/
theorem run_without_fill {dust left : K} : ∀ {w : List (Act K)} {p q : Phase K},
    (∀ a ∈ w, a.fill? = none) → run dust p w = some q →
    (q = .remainder left ↔ p = .remainder left) := by
  intro w
  induction w with
  | nil =>
      intro p q _ h
      rw [Option.some.inj h]
  | cons a rest ih =>
      intro p q hw h
      obtain ⟨r, hstep, hrest⟩ := Option.bind_eq_some_iff.mp h
      rw [ih (fun b hb => hw b (List.mem_cons_of_mem _ hb)) hrest]
      have ha := hw a List.mem_cons_self
      cases a with
      | fill amount => simp [Act.fill?] at ha
      | place size =>
          cases p with
          | unborn => rw [← Option.some.inj hstep]; simp
          | _ => simp [step] at hstep
      | cancel =>
          cases p with
          | active size => rw [← Option.some.inj hstep]; simp
          | _ => simp [step] at hstep

/-- The sequences of acts that end in a phase. -/
def Tells : Phase K → List (Act K) → Prop
  | .unborn, w => w = []
  | .active size, w => w = [.place size]
  | .canceled, w => ∃ size, w = [.place size, .cancel]
  | .remainder left, w => ∃ size xs, w = .place size :: xs.map .fill ∧ xs ≠ [] ∧
      left = size - xs.sum ∧ 0 ≤ left
  | .filled, w => ∃ size xs, w = .place size :: xs.map .fill ∧ xs ≠ [] ∧ xs.sum ≤ size

private theorem tells_settle [IsOrderedAddMonoid K] (dust : K) {size amount : K} {xs : List K}
    (hle : amount ≤ size - xs.sum) :
    Tells (settle dust (size - xs.sum - amount)) (.place size :: (xs ++ [amount]).map .fill) := by
  have hne : xs ++ [amount] ≠ [] := by simp
  have hsum : (xs ++ [amount]).sum = xs.sum + amount := by simp
  unfold settle
  split
  · refine ⟨size, xs ++ [amount], rfl, hne, ?_⟩
    rw [hsum]
    exact le_sub_iff_add_le'.mp hle
  · refine ⟨size, xs ++ [amount], rfl, hne, ?_, sub_nonneg.mpr hle⟩
    rw [hsum, sub_sub]

/-- One more act keeps the phase in step with the sequence. -/
theorem tells_step [IsOrderedAddMonoid K] {dust : K} {w : List (Act K)} {a : Act K} {p q : Phase K}
    (h : Tells p w) (hs : step dust p a = some q) : Tells q (w ++ [a]) := by
  cases p with
  | unborn =>
      cases a with
      | place size =>
          rw [show w = [] from h, ← Option.some.inj hs]
          rfl
      | cancel => simp [step] at hs
      | fill amount => simp [step] at hs
  | active size =>
      rw [show w = [.place size] from h]
      cases a with
      | place size => simp [step] at hs
      | cancel =>
          rw [← Option.some.inj hs]
          exact ⟨size, rfl⟩
      | fill amount =>
          simp only [step, Option.ite_none_right_eq_some, Option.some.injEq] at hs
          have hle : amount ≤ size - ([] : List K).sum := by simpa using hs.1.2
          have := tells_settle dust hle
          rw [← hs.2]
          simpa using this
  | remainder left =>
      obtain ⟨size, xs, rfl, _, rfl, _⟩ := h
      cases a with
      | place size => simp [step] at hs
      | cancel => simp [step] at hs
      | fill amount =>
          simp only [step, Option.ite_none_right_eq_some, Option.some.injEq] at hs
          have := tells_settle dust hs.1.2
          rw [← hs.2]
          simpa using this
  | filled => cases a <;> simp [step] at hs
  | canceled => cases a <;> simp [step] at hs

/-- **Every accepted sequence is the one its last phase tells.** -/
theorem told_by [IsOrderedAddMonoid K] {dust : K} {w : List (Act K)} {p : Phase K}
    (h : run dust .unborn w = some p) : Tells p w := by
  induction w using List.reverseRecOn generalizing p with
  | nil =>
      rw [← Option.some.inj h]
      rfl
  | append_singleton w a ih =>
      rw [run_append] at h
      obtain ⟨q, hq, hs⟩ := Option.bind_eq_some_iff.mp h
      have hstep : step dust q a = some p := by
        obtain ⟨r, hr, hnil⟩ := Option.bind_eq_some_iff.mp hs
        rw [hr, Option.some.inj hnil]
      exact tells_step (ih hq) hstep

/-! ### What an accepted sequence is like -/

section Reading

variable {w : List (Act K)} {p : Phase K}

omit [AddCommGroup K] [LinearOrder K] in
private theorem filterMap_fill (xs : List K) : (xs.map Act.fill).filterMap Act.fill? = xs := by
  induction xs with
  | nil => rfl
  | cons x rest ih =>
      rw [List.map_cons, List.filterMap_cons]
      show x :: _ = _
      rw [ih]

omit [AddCommGroup K] [LinearOrder K] in
private theorem countP_fill {q : Act K → Bool} (hq : ∀ x, q (.fill x) = false) (xs : List K) :
    (xs.map Act.fill).countP q = 0 := by
  refine List.countP_eq_zero.mpr fun a ha => ?_
  obtain ⟨x, _, rfl⟩ := List.mem_map.mp ha
  simp [hq]

/-- An order that is not unborn was placed exactly once. -/
theorem Tells.count_place (h : Tells p w) :
    w.countP Act.isPlace = p.placed := by
  cases p with
  | unborn =>
      rw [show w = [] from h]
      rfl
  | active size =>
      rw [show w = [.place size] from h]
      rfl
  | canceled =>
      obtain ⟨size, rfl⟩ := h
      rfl
  | remainder left =>
      obtain ⟨size, xs, rfl, _⟩ := h
      rw [List.countP_cons_of_pos rfl, countP_fill fun _ => rfl]
      rfl
  | filled =>
      obtain ⟨size, xs, rfl, _⟩ := h
      rw [List.countP_cons_of_pos rfl, countP_fill fun _ => rfl]
      rfl

/-- An order was canceled once if that is where it ended, and otherwise never. -/
theorem Tells.count_cancel (h : Tells p w) :
    w.countP Act.isCancel = p.cancels := by
  cases p with
  | unborn =>
      rw [show w = [] from h]
      rfl
  | active size =>
      rw [show w = [.place size] from h]
      rfl
  | canceled =>
      obtain ⟨size, rfl⟩ := h
      rfl
  | remainder left =>
      obtain ⟨size, xs, rfl, _⟩ := h
      rw [List.countP_cons_of_neg (by simp [Act.isCancel]), countP_fill fun _ => rfl]
      rfl
  | filled =>
      obtain ⟨size, xs, rfl, _⟩ := h
      rw [List.countP_cons_of_neg (by simp [Act.isCancel]), countP_fill fun _ => rfl]
      rfl

/-- An order has fills exactly when it is filled, or filled in part. -/
theorem Tells.fills_ne_nil (h : Tells p w) :
    w.filterMap Act.fill? ≠ [] ↔ p.HasFills := by
  cases p with
  | unborn =>
      rw [show w = [] from h]
      simp [Phase.HasFills]
  | active size =>
      rw [show w = [.place size] from h]
      simp [Act.fill?, Phase.HasFills]
  | canceled =>
      obtain ⟨size, rfl⟩ := h
      simp [Act.fill?, Phase.HasFills]
  | remainder left =>
      obtain ⟨size, xs, rfl, hne, _⟩ := h
      rw [List.filterMap_cons_none rfl, filterMap_fill]
      simpa [Phase.HasFills] using hne
  | filled =>
      obtain ⟨size, xs, rfl, hne, _⟩ := h
      rw [List.filterMap_cons_none rfl, filterMap_fill]
      simpa [Phase.HasFills] using hne

/-- The fills of an order add up to no more than its size. -/
theorem Tells.sum_fills_le [IsOrderedAddMonoid K] {size : K} (h : Tells p w)
    (hsize : .place size ∈ w) (hne : w.filterMap Act.fill? ≠ []) :
    (w.filterMap Act.fill?).sum ≤ size := by
  have hfirst : ∀ {size' : K} {xs : List K}, .place size ∈ Act.place size' :: xs.map Act.fill →
      size = size' := by
    intro size' xs hmem
    rcases List.mem_cons.mp hmem with heq | hmem
    · exact Act.place.inj heq
    · obtain ⟨x, _, hx⟩ := List.mem_map.mp hmem
      cases hx
  have hphase := h.fills_ne_nil.mp hne
  cases p with
  | remainder left =>
      obtain ⟨size', xs, rfl, _, rfl, hleft⟩ := h
      rw [List.filterMap_cons_none rfl, filterMap_fill, hfirst hsize]
      exact sub_nonneg.mp hleft
  | filled =>
      obtain ⟨size', xs, rfl, _, hsum⟩ := h
      rw [List.filterMap_cons_none rfl, filterMap_fill, hfirst hsize]
      exact hsum
  | unborn => exact hphase.elim
  | active size => exact hphase.elim
  | canceled => exact hphase.elim

/-- Before a fill there is no cancel. -/
theorem Tells.not_cancel_before_fill {u v : List (Act K)} {amount : K}
    (h : Tells p (u ++ .fill amount :: v)) : Act.cancel ∉ u := by
  have hfill : (u ++ Act.fill amount :: v).filterMap Act.fill? ≠ [] := by
    rw [List.filterMap_append, List.filterMap_cons]
    simp [Act.fill?]
  have hphase := h.fills_ne_nil.mp hfill
  have hcount := h.count_cancel
  intro hmem
  have hpos : 0 < (u ++ Act.fill amount :: v).countP Act.isCancel :=
    List.countP_pos_iff.mpr ⟨.cancel, List.mem_append_left _ hmem, rfl⟩
  cases p with
  | canceled => exact hphase
  | _ => exact absurd hcount (Nat.pos_iff_ne_zero.mp hpos)

end Reading

end Life
