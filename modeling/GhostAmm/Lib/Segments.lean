/-
Logs kept in segments.

A segmented log appends to its last segment, rolls over to begin the next one, and can
restart the segment it is on, which forgets what that segment held.  Nothing else forgets,
so what the segments hold together is always a part of what was appended
(`contents_sublist`), and it is all of it exactly when every restart found its segment
empty (`contents_eq_iff`).

A log that rolls over where its segment is full cuts what is appended (`segments_fills`).
-/
import Mathlib

namespace Segments

/-- What is done to a segmented log. -/
inductive Act (α : Type) where
  | restart
  | append (a : α)
  | roll

/-- The segments that are sealed, and the one that is not. -/
structure Log (α : Type) where
  sealed : List (List α) := []
  current : List α := []

variable {α : Type}

namespace Log

/-- Everything the segments hold, in order. -/
def contents (log : Log α) : List α := log.sealed.flatten ++ log.current

def act (log : Log α) : Act α → Log α
  | .restart => { log with current := [] }
  | .append a => { log with current := log.current ++ [a] }
  | .roll => { sealed := log.sealed ++ [log.current], current := [] }

/-- A log after a list of acts. -/
def acts (log : Log α) (l : List (Act α)) : Log α := l.foldl act log

@[simp] theorem acts_append (log : Log α) (xs ys : List (Act α)) :
    log.acts (xs ++ ys) = (log.acts xs).acts ys := List.foldl_append

@[simp] theorem acts_nil (log : Log α) : log.acts [] = log := rfl

@[simp] theorem acts_cons (log : Log α) (x : Act α) (xs : List (Act α)) :
    log.acts (x :: xs) = (log.act x).acts xs := rfl

end Log

/-- What the acts append, in order. -/
def appended (l : List (Act α)) : List α :=
  l.filterMap fun
    | .append a => some a
    | _ => none

@[simp] theorem appended_append (xs ys : List (Act α)) :
    appended (xs ++ ys) = appended xs ++ appended ys := List.filterMap_append

/-- The log that a list of acts leaves. -/
def ofActs (l : List (Act α)) : Log α := ({} : Log α).acts l

theorem ofActs_append (xs ys : List (Act α)) : ofActs (xs ++ ys) = (ofActs xs).acts ys :=
  Log.acts_append _ _ _

theorem contents_snoc_append (l : List (Act α)) (a : α) :
    (ofActs (l ++ [.append a])).contents = (ofActs l).contents ++ [a] := by
  rw [ofActs_append]
  simp [Log.contents, Log.act]

theorem contents_snoc_roll (l : List (Act α)) :
    (ofActs (l ++ [.roll])).contents = (ofActs l).contents := by
  rw [ofActs_append]
  simp [Log.contents, Log.act]

/-- What a restart loses is what its segment held. -/
theorem contents_snoc_restart (l : List (Act α)) :
    (ofActs l).contents = (ofActs (l ++ [.restart])).contents ++ (ofActs l).current := by
  rw [ofActs_append]
  simp [Log.contents, Log.act]

/-- A log holds part of what was appended, in the same order. -/
theorem contents_sublist (l : List (Act α)) :
    List.Sublist (ofActs l).contents (appended l) := by
  induction l using List.reverseRecOn with
  | nil => exact List.Sublist.refl _
  | append_singleton l x ih =>
      rw [appended_append]
      cases x with
      | restart =>
          rw [contents_snoc_restart] at ih
          simpa [appended] using (List.sublist_append_left _ _).trans ih
      | append a =>
          rw [contents_snoc_append]
          exact ih.append (List.Sublist.refl _)
      | roll =>
          rw [contents_snoc_roll]
          simpa [appended] using ih

/-- No restart finds anything in its segment. -/
def Kept (l : List (Act α)) : Prop :=
  ∀ xs ys, l = xs ++ .restart :: ys → (ofActs xs).current = []

theorem kept_snoc {l : List (Act α)} {x : Act α} :
    Kept (l ++ [x]) ↔ Kept l ∧ (x = .restart → (ofActs l).current = []) := by
  constructor
  · intro h
    refine ⟨fun xs ys hl => h xs (ys ++ [x]) (by simp [hl]), fun hx => h l [] (by rw [hx])⟩
  · rintro ⟨h, hx⟩ xs ys hl
    rcases List.eq_nil_or_concat ys with rfl | ⟨ys', y, rfl⟩
    · obtain ⟨rfl, hlast⟩ := List.append_inj' hl rfl
      exact hx (List.head_eq_of_cons_eq hlast)
    · have hassoc : xs ++ .restart :: (ys'.concat y) = (xs ++ .restart :: ys') ++ [y] := by simp
      rw [hassoc] at hl
      exact h xs ys' (List.append_inj' hl rfl).1

/-- **A log holds everything appended exactly when every restart found an empty segment.** -/
theorem contents_eq_iff (l : List (Act α)) : (ofActs l).contents = appended l ↔ Kept l := by
  induction l using List.reverseRecOn with
  | nil =>
      refine ⟨fun _ xs ys h => ?_, fun _ => rfl⟩
      simp at h
  | append_singleton l x ih =>
      rw [kept_snoc, ← ih, appended_append]
      cases x with
      | restart =>
          have hlen := (contents_sublist l).length_le
          have hcut := congrArg List.length (contents_snoc_restart l)
          rw [List.length_append] at hcut
          constructor
          · intro h
            have hsame := congrArg List.length h
            have hnone : appended ([.restart] : List (Act α)) = [] := rfl
            rw [hnone, List.append_nil] at hsame
            refine ⟨(contents_sublist l).eq_of_length (by omega), fun _ => ?_⟩
            exact List.length_eq_zero_iff.mp (by omega)
          · rintro ⟨hall, hempty⟩
            have := contents_snoc_restart l
            rw [hempty rfl, List.append_nil] at this
            rw [← this, hall]
            simp [appended]
      | append a =>
          rw [contents_snoc_append]
          simp [appended]
      | roll =>
          rw [contents_snoc_roll]
          simp [appended]

/-! ### Filling segments -/

/-- The segments, the unsealed one last. -/
def Log.segments (log : Log α) : List (List α) := log.sealed ++ [log.current]

/-- Append an entry, to a new segment where it finds the current one full. -/
def Log.fill (full : List α → α → Bool) (log : Log α) (a : α) : Log α :=
  log.acts ((if full log.current a then [.roll] else []) ++ [.append a])

/-- A list cut where an entry finds the piece before it full. -/
def cut (full : List α → α → Bool) (current : List α) : List α → List (List α)
  | [] => [current]
  | a :: rest =>
      if full current a then current :: cut full [a] rest else cut full (current ++ [a]) rest

variable {full : List α → α → Bool}

/-- **Filling a log cuts what is appended.** -/
theorem segments_fills : ∀ (entries : List α) (log : Log α),
    (entries.foldl (Log.fill full) log).segments = log.sealed ++ cut full log.current entries := by
  intro entries
  induction entries with
  | nil => intro log; rfl
  | cons a rest ih =>
      intro log
      rw [List.foldl_cons, ih, cut]
      by_cases hfull : full log.current a = true
      · simp [Log.fill, Log.act, hfull]
      · simp [Log.fill, Log.act, hfull]

theorem flatten_cut : ∀ (entries current : List α),
    (cut full current entries).flatten = current ++ entries := by
  intro entries
  induction entries with
  | nil => intro current; simp [cut]
  | cons a rest ih =>
      intro current
      rw [cut]
      split
      · rw [List.flatten_cons, ih, List.singleton_append]
      · rw [ih, List.append_assoc, List.singleton_append]

/-- What holds of one entry, and still holds after adding to a piece that is not full, holds
of every piece. -/
theorem forall_mem_cut {P : List α → Prop} (hone : ∀ a, P [a])
    (hadd : ∀ piece a, P piece → full piece a = false → P (piece ++ [a])) :
    ∀ (entries current : List α), P current → ∀ piece ∈ cut full current entries, P piece := by
  intro entries
  induction entries with
  | nil =>
      intro current hcurrent piece hpiece
      rw [List.mem_singleton.mp hpiece]
      exact hcurrent
  | cons a rest ih =>
      intro current hcurrent piece hpiece
      rw [cut] at hpiece
      by_cases hfull : full current a = true
      · rw [if_pos hfull] at hpiece
        rcases List.mem_cons.mp hpiece with rfl | hpiece
        · exact hcurrent
        · exact ih [a] (hone a) piece hpiece
      · rw [if_neg hfull] at hpiece
        exact ih _ (hadd current a hcurrent (by simpa using hfull)) piece hpiece

end Segments
