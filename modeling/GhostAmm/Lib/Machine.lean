/-
Runs of a machine whose steps can raise.

A step takes a state and an input and leaves a state together with either an
output or an exception: an operation that raises half way still leaves whatever
it had written.  A `Run` is a sequence of steps none of which raised, and it
remembers for each of them the state before, the input, the output and the state
after, so that a law about a whole run is a statement about the members of one
list.

A few rules carry the developments above.  What every step preserves holds at the
end of every run (`Run.invariant`).  A law that each step obeys exactly under a
condition is obeyed throughout a run exactly when the condition holds throughout
(`Run.forall_iff`).  And a machine that follows another step by step follows its runs
(`Run.follow`), so that two machines fed the same inputs can be compared step by step
(`Run.lockstep`).
-/
import Mathlib

namespace Machine

/-- One step of a run. -/
structure Step (σ ι ω : Type) where
  before : σ
  input : ι
  output : ω
  after : σ

variable {σ ι ω ε : Type} {step : σ → ι → σ × Except ε ω} {init : σ}

/-- A sequence of steps from `init`, none of which raised. -/
inductive Run (step : σ → ι → σ × Except ε ω) (init : σ) : List (Step σ ι ω) → σ → Prop
  | nil : Run step init [] init
  | snoc {steps : List (Step σ ι ω)} {s s' : σ} {i : ι} {o : ω} :
      Run step init steps s → step s i = (s', .ok o) →
      Run step init (steps ++ [⟨s, i, o, s'⟩]) s'

/-- Feed the inputs one after the other, stopping at the first exception. -/
def exec (step : σ → ι → σ × Except ε ω) : σ → List ι → σ × Except ε (List (Step σ ι ω))
  | s, [] => (s, .ok [])
  | s, i :: rest =>
      match step s i with
      | (s', .error e) => (s', .error e)
      | (s', .ok o) =>
          match exec step s' rest with
          | (s'', .error e) => (s'', .error e)
          | (s'', .ok steps) => (s'', .ok (⟨s, i, o, s'⟩ :: steps))

/-- What holds at the start and is preserved by every step holds at the end. -/
theorem Run.invariant {P : σ → Prop} (h0 : P init)
    (hstep : ∀ s i o s', P s → step s i = (s', .ok o) → P s')
    {steps : List (Step σ ι ω)} {s : σ} (h : Run step init steps s) : P s := by
  induction h with
  | nil => exact h0
  | snoc _ hs ih => exact hstep _ _ _ _ ih hs

/-- A run can be cut at any of its steps: into a run to the step, the step, and a run from where
the step left off. -/
theorem Run.cut {xs ys : List (Step σ ι ω)} {r : Step σ ι ω} {s : σ}
    (h : Run step init (xs ++ r :: ys) s) :
    Run step init xs r.before ∧ step r.before r.input = (r.after, .ok r.output) ∧
      Run step r.after ys s := by
  generalize hall : xs ++ r :: ys = all at h
  induction h generalizing ys with
  | nil => simp at hall
  | @snoc steps s s' i o hrun hs ih =>
      rcases List.eq_nil_or_concat ys with rfl | ⟨ys', y, rfl⟩
      · obtain ⟨rfl, hr⟩ := List.append_inj' hall rfl
        obtain rfl := List.singleton_inj.mp hr
        exact ⟨hrun, hs, Run.nil⟩
      · have hassoc : xs ++ r :: (ys'.concat y) = (xs ++ r :: ys') ++ [y] := by simp
        rw [hassoc] at hall
        obtain ⟨hbefore, hlast⟩ := List.append_inj' hall rfl
        obtain rfl := List.singleton_inj.mp hlast
        obtain ⟨hfront, hstep, hback⟩ := ih hbefore
        rw [List.concat_eq_append]
        exact ⟨hfront, hstep, hback.snoc hs⟩

/-- A run can be cut before any of its steps. -/
theorem Run.split {xs ys : List (Step σ ι ω)} {r : Step σ ι ω} {s : σ}
    (h : Run step init (xs ++ r :: ys) s) :
    Run step init xs r.before ∧ step r.before r.input = (r.after, .ok r.output) :=
  ⟨h.cut.1, h.cut.2.1⟩

/-- What follows a step of a run is a run from where the step left off. -/
theorem Run.rest {xs ys : List (Step σ ι ω)} {r : Step σ ι ω} {s : σ}
    (h : Run step init (xs ++ r :: ys) s) : Run step r.after ys s := h.cut.2.2

/-- The first steps of a run are a run. -/
theorem Run.take {steps : List (Step σ ι ω)} {s : σ} (h : Run step init steps s) (n : ℕ) :
    ∃ t, Run step init (steps.take n) t := by
  by_cases hn : n < steps.length
  · have hcut : steps.take n ++ steps[n] :: steps.drop (n + 1) = steps := by
      rw [← List.drop_eq_getElem_cons hn, List.take_append_drop]
    rw [← hcut] at h
    exact ⟨_, h.split.1⟩
  · rw [List.take_of_length_le (by omega)]
    exact ⟨s, h⟩

theorem Run.step_of_mem {steps : List (Step σ ι ω)} {s : σ} (h : Run step init steps s)
    {r : Step σ ι ω} (hr : r ∈ steps) : step r.before r.input = (r.after, .ok r.output) := by
  obtain ⟨xs, ys, rfl⟩ := List.append_of_mem hr
  exact h.split.2

/-- What the steps that obey a law preserve holds at the end of a run that obeys it. -/
theorem Run.kept {P : σ → Prop} {R : Step σ ι ω → Prop} (h0 : P init)
    (hP : ∀ s i o s', step s i = (s', .ok o) → P s → R ⟨s, i, o, s'⟩ → P s')
    {steps : List (Step σ ι ω)} {s : σ} (h : Run step init steps s) (hall : ∀ r ∈ steps, R r) :
    P s := by
  induction h with
  | nil => exact h0
  | snoc _ hs ih =>
      rw [List.forall_mem_append, List.forall_mem_singleton] at hall
      exact hP _ _ _ _ hs (ih hall.1) hall.2

/--
A law `R` that each step obeys exactly under a condition `Q` on what it starts from, as
long as the steps before it left things in order (`P`): the run obeys the law throughout
exactly when the condition holds throughout.
-/
theorem Run.forall_iff {P : σ → Prop} {Q : σ → ι → Prop} {R : Step σ ι ω → Prop} (h0 : P init)
    (hR : ∀ steps s i o s', Run step init steps s → step s i = (s', .ok o) → P s →
      (R ⟨s, i, o, s'⟩ ↔ Q s i))
    (hP : ∀ s i o s', step s i = (s', .ok o) → P s → R ⟨s, i, o, s'⟩ → P s')
    {steps : List (Step σ ι ω)} {s : σ} (h : Run step init steps s) :
    (∀ r ∈ steps, R r) ↔ ∀ r ∈ steps, Q r.before r.input := by
  induction h with
  | nil => simp
  | @snoc steps s s' i o hrun hs ih =>
      have hkept : (∀ r ∈ steps, R r) → P s := hrun.kept h0 hP
      rw [List.forall_mem_append, List.forall_mem_append, List.forall_mem_singleton,
        List.forall_mem_singleton]
      constructor
      · rintro ⟨hbefore, hnew⟩
        exact ⟨ih.mp hbefore, (hR _ _ _ _ _ hrun hs (hkept hbefore)).mp hnew⟩
      · rintro ⟨hbefore, hnew⟩
        have hlaw := ih.mpr hbefore
        exact ⟨hlaw, (hR _ _ _ _ _ hrun hs (hkept hlaw)).mpr hnew⟩

/-- A run may also be extended at the front. -/
theorem Run.cons {s₁ s : σ} {i : ι} {o : ω} {steps : List (Step σ ι ω)}
    (hs : step init i = (s₁, .ok o)) (h : Run step s₁ steps s) :
    Run step init (⟨init, i, o, s₁⟩ :: steps) s := by
  induction h with
  | nil => exact Run.snoc Run.nil hs
  | snoc _ hs' ih => exact Run.snoc ih hs'

/-- Feeding a list of inputs without an exception is a run over exactly them. -/
theorem exec_run : ∀ {inputs : List ι} {s s' : σ} {steps : List (Step σ ι ω)},
    exec step s inputs = (s', .ok steps) →
      Run step s steps s' ∧ steps.map Step.input = inputs := by
  intro inputs
  induction inputs with
  | nil =>
      intro s s' steps h
      simp only [exec, Prod.mk.injEq, Except.ok.injEq] at h
      obtain ⟨rfl, rfl⟩ := h
      exact ⟨Run.nil, rfl⟩
  | cons i rest ih =>
      intro s s' steps h
      rw [exec] at h
      split at h
      · simp at h
      · rename_i s₁ o hstep
        split at h
        · simp at h
        · rename_i s₂ more hrest
          simp only [Prod.mk.injEq, Except.ok.injEq] at h
          obtain ⟨rfl, rfl⟩ := h
          obtain ⟨hrun, hin⟩ := ih hrest
          exact ⟨hrun.cons hstep, by simp [hin]⟩

private theorem exec_snoc : ∀ {inputs : List ι} {s s' s'' : σ} {steps : List (Step σ ι ω)} {i : ι}
    {o : ω}, exec step s inputs = (s', .ok steps) → step s' i = (s'', .ok o) →
      exec step s (inputs ++ [i]) = (s'', .ok (steps ++ [⟨s', i, o, s''⟩])) := by
  intro inputs
  induction inputs with
  | nil =>
      intro s s' s'' steps i o h hs
      obtain ⟨rfl, hsteps⟩ := Prod.mk.inj h
      obtain rfl := Except.ok.inj hsteps
      simp [exec, hs]
  | cons i' rest ih =>
      intro s s' s'' steps i o h hs
      rw [exec] at h
      rw [List.cons_append, exec]
      split at h
      · simp at h
      · split at h
        · simp at h
        · rename_i s₂ more hrest
          obtain ⟨rfl, hsteps⟩ := Prod.mk.inj h
          obtain rfl := Except.ok.inj hsteps
          simp only [ih hrest hs, List.cons_append]

/-- A run is what feeding its inputs gives. -/
theorem Run.exec_eq {steps : List (Step σ ι ω)} {s : σ} (h : Run step init steps s) :
    exec step init (steps.map Step.input) = (s, .ok steps) := by
  induction h with
  | nil => rfl
  | snoc _ hs ih =>
      rw [List.map_append]
      exact exec_snoc ih hs

/-- What an execution raises, one of its steps raises. -/
theorem exec_error : ∀ {inputs : List ι} {s s' : σ} {e : ε},
    exec step s inputs = (s', .error e) → ∃ s i, (step s i).2 = .error e := by
  intro inputs
  induction inputs with
  | nil => intro s s' e h; simp [exec] at h
  | cons i rest ih =>
      intro s s' e h
      rw [exec] at h
      split at h
      · rename_i s₁ e' hstep
        obtain ⟨-, he⟩ := Prod.mk.inj h
        refine ⟨s, i, ?_⟩
        rw [hstep, Except.error.inj he]
      · split at h
        · rename_i s₂ e' hrest
          obtain ⟨-, he⟩ := Prod.mk.inj h
          rw [Except.error.inj he] at hrest
          exact ih hrest
        · simp at h

/-- The steps of an execution, when it did not raise. -/
def stepsOf (result : σ × Except ε (List (Step σ ι ω))) : List (Step σ ι ω) :=
  match result.2 with
  | .ok steps => steps
  | .error _ => []

/-- An execution that does not raise is a run. -/
theorem run_exec {s : σ} {inputs : List ι} (h : (exec step s inputs).2.isOk = true) :
    Run step s (stepsOf (exec step s inputs)) (exec step s inputs).1 := by
  generalize hresult : exec step s inputs = result at h ⊢
  obtain ⟨s', outcome⟩ := result
  cases outcome with
  | error e => simp [Except.isOk, Except.toBool] at h
  | ok steps => exact (exec_run hresult).1

/-! ### Simulation -/

/--
One machine follows another: from related states, each step of the first has a step of
the second on any input that carries the first one's, and the states stay related.  A run
of the first is then followed by a run of the second on whatever carries its inputs.
-/
theorem Run.follow {σ' ι' ω' ε' : Type} {step' : σ' → ι' → σ' × Except ε' ω'} {init' : σ'}
    {R : σ → σ' → Prop} {carries : σ → ι → ι' → Prop} (h0 : R init init')
    (hstep : ∀ s i o t s' i', step s i = (t, .ok o) → R s s' → carries s i i' →
      ∃ t' o', step' s' i' = (t', .ok o') ∧ R t t')
    {steps : List (Step σ ι ω)} {s : σ} (h : Run step init steps s) :
    ∀ {inputs : List ι'}, List.Forall₂ (fun r i' => carries r.before r.input i') steps inputs →
      ∃ steps' s', Run step' init' steps' s' ∧ steps'.map Step.input = inputs ∧ R s s' ∧
        List.Forall₂ (fun r r' => R r.after r'.after) steps steps' := by
  induction h with
  | nil =>
      intro inputs hcarries
      obtain rfl := List.forall₂_nil_left_iff.mp hcarries
      exact ⟨[], init', Run.nil, rfl, h0, List.Forall₂.nil⟩
  | @snoc steps s t i o _ hs ih =>
      intro inputs hcarries
      have hbefore := List.forall₂_take steps.length hcarries
      have hlast := List.forall₂_drop steps.length hcarries
      rw [List.take_left] at hbefore
      rw [List.drop_left] at hlast
      obtain ⟨i', rest, hi', hrest, hdrop⟩ := List.forall₂_cons_left_iff.mp hlast
      rw [List.forall₂_nil_left_iff.mp hrest] at hdrop
      have hsplit : List.take steps.length inputs ++ [i'] = inputs := by
        rw [← hdrop, List.take_append_drop]
      obtain ⟨steps', s', hrun, hinputs, hrel, hall⟩ := ih hbefore
      obtain ⟨t', o', hs', hrel'⟩ := hstep s i o t s' i' hs hrel hi'
      refine ⟨steps' ++ [⟨s', i', o', t'⟩], t', hrun.snoc hs', ?_, hrel', ?_⟩
      · rw [List.map_append, hinputs]
        exact hsplit
      · exact List.rel_append hall (List.Forall₂.cons hrel' List.Forall₂.nil)

/-- Two runs on the same inputs stay related if every pair of steps keeps them so. -/
theorem Run.lockstep {σ' ω' ε' : Type} {step' : σ' → ι → σ' × Except ε' ω'} {init' : σ'}
    {P : List (Step σ ι ω) → List (Step σ' ι ω') → σ → σ' → Prop} (h0 : P [] [] init init')
    (hstep : ∀ xs ys s s' i o o' t t', Run step init xs s → Run step' init' ys s' →
      xs.map Step.input = ys.map Step.input → P xs ys s s' →
      step s i = (t, .ok o) → step' s' i = (t', .ok o') →
      P (xs ++ [⟨s, i, o, t⟩]) (ys ++ [⟨s', i, o', t'⟩]) t t')
    {xs : List (Step σ ι ω)} {s : σ} (h : Run step init xs s) :
    ∀ {ys : List (Step σ' ι ω')} {s' : σ'}, Run step' init' ys s' →
      xs.map Step.input = ys.map Step.input → P xs ys s s' := by
  induction h with
  | nil =>
      intro ys s' h' hinputs
      induction h' with
      | nil => exact h0
      | snoc => simp at hinputs
  | @snoc xs s t i o hrun hs ih =>
      intro ys t' h' hinputs
      induction h' with
      | nil => simp at hinputs
      | @snoc ys s' t' i' o' hrun' hs' _ =>
          rw [List.map_append, List.map_append] at hinputs
          obtain ⟨hbefore, hlast⟩ := List.append_inj' hinputs rfl
          obtain rfl : i = i' := List.singleton_inj.mp hlast
          exact hstep xs ys s s' i o o' t t' hrun hrun' hbefore (ih hrun' hbefore) hs hs'

/-- Two related runs obey laws that relate step by step together. -/
theorem forall_congr_of_forall₂ {σ' ι' ω' : Type} {R : Step σ ι ω → Step σ' ι' ω' → Prop}
    {P : Step σ ι ω → Prop} {P' : Step σ' ι' ω' → Prop} (hP : ∀ r r', R r r' → (P r ↔ P' r'))
    {steps : List (Step σ ι ω)} {steps' : List (Step σ' ι' ω')}
    (h : List.Forall₂ R steps steps') : (∀ r ∈ steps, P r) ↔ ∀ r' ∈ steps', P' r' := by
  induction h with
  | nil => simp
  | cons hr _ ih => rw [List.forall_mem_cons, List.forall_mem_cons, hP _ _ hr, ih]

end Machine
