/-
Histories that forget.

A history in the order of its times is kept short by dropping from the front what is
older than some width, each time something is added.  As long as the times do not step
back this forgets the same entries as a single trim at the end (`Window.push_all`), so
that a lookup in it finds what a lookup in the whole history finds, unless that has been
forgotten (`Window.latest_kept`).

Where the times do step back a trim stops at the first entry that is not due, and what is due
behind it waits (`Window.dropWhile_perm`).
-/
import Mathlib

namespace Window

section Scan

variable {α τ : Type} [LinearOrder τ]

/-- The times do not step back. -/
def InOrder (time : α → τ) (l : List α) : Prop := l.Pairwise fun a b => time a ≤ time b

/-- The last entry at or before a time, as a scan from the front finds it. -/
def latest (time : α → τ) (target : τ) (l : List α) : Option α :=
  (l.takeWhile fun a => decide (time a ≤ target)).getLast?

/-! ### Sorted lists are cut by a filter -/

private theorem takeWhile_eq_filter {p : α → Bool} : ∀ {l : List α},
    l.Pairwise (fun a b => p b = true → p a = true) → l.takeWhile p = l.filter p := by
  intro l
  induction l with
  | nil => intro _; rfl
  | cons a rest ih =>
      intro h
      obtain ⟨hhead, htail⟩ := List.pairwise_cons.mp h
      by_cases ha : p a = true
      · rw [List.takeWhile_cons_of_pos ha, List.filter_cons_of_pos ha, ih htail]
      · rw [List.takeWhile_cons_of_neg ha, List.filter_cons_of_neg ha]
        have hnone : rest.filter p = [] :=
          List.filter_eq_nil_iff.mpr fun b hb hp => ha (hhead b hb hp)
        exact hnone.symm

private theorem dropWhile_eq_filter {p : α → Bool} : ∀ {l : List α},
    l.Pairwise (fun a b => p b = true → p a = true) →
      l.dropWhile p = l.filter fun a => !p a := by
  intro l
  induction l with
  | nil => intro _; rfl
  | cons a rest ih =>
      intro h
      obtain ⟨hhead, htail⟩ := List.pairwise_cons.mp h
      by_cases ha : p a = true
      · rw [List.dropWhile_cons_of_pos ha, List.filter_cons_of_neg (by simp [ha]), ih htail]
      · rw [List.dropWhile_cons_of_neg ha]
        have hall : (a :: rest).filter (fun b => !p b) = a :: rest := by
          refine List.filter_eq_self.mpr fun b hb => ?_
          rcases List.mem_cons.mp hb with rfl | hb
          · simpa using ha
          · simpa using fun hp => ha (hhead b hb hp)
        exact hall.symm

/-- The last entry of a list, when a filter only lets through a tail of it. -/
private theorem getLast?_filter_tail {p q : α → Bool} : ∀ {l : List α},
    l.Pairwise (fun a b => q a = true → q b = true) →
      ((l.filter q).filter p).getLast? = ((l.filter p).getLast?).filter q := by
  intro l
  induction l using List.reverseRecOn with
  | nil => intro _; rfl
  | append_singleton l a ih =>
      intro h
      rw [List.pairwise_append] at h
      have hrest := ih h.1
      by_cases hp : p a = true
      · have hlast : (l ++ [a]).filter p = l.filter p ++ [a] := by simp [hp]
        by_cases hq : q a = true
        · have hboth : ((l ++ [a]).filter q).filter p = (l.filter q).filter p ++ [a] := by
            simp [hp, hq]
          rw [hboth, hlast, List.getLast?_concat, List.getLast?_concat, Option.filter_some_pos hq]
        · -- nothing before an entry that is cut off is let through
          have hnone : l.filter q = [] := List.filter_eq_nil_iff.mpr fun b hb hb' =>
            hq (h.2.2 b hb a (List.mem_singleton_self a) hb')
          have hcut : (l ++ [a]).filter q = [] := by simp [hnone, hq]
          rw [hcut, hlast, List.getLast?_concat, Option.filter_some_neg (by simpa using hq)]
          rfl
      · have hskip : ((l ++ [a]).filter q).filter p = (l.filter q).filter p := by
          rw [List.filter_append, List.filter_append]
          by_cases hq : q a = true <;> simp [hp, hq]
        have hlast : (l ++ [a]).filter p = l.filter p := by simp [hp]
        rw [hskip, hlast, hrest]

/-! ### Entries that wait -/

/-- The entries that are due and stand behind one that is not. -/
def waiting (due : α → Bool) : List α → List α
  | [] => []
  | a :: rest => if due a then waiting due rest else rest.filter due

/-- What a trim leaves is what is not due and what waits. -/
theorem dropWhile_perm (due : α → Bool) : ∀ l : List α,
    (l.dropWhile due).Perm ((l.filter fun a => !due a) ++ waiting due l) := by
  intro l
  induction l with
  | nil => exact List.Perm.refl []
  | cons a rest ih =>
      unfold waiting
      by_cases ha : due a = true
      · rw [List.dropWhile_cons_of_pos ha, List.filter_cons_of_neg (by simp [ha]), if_pos ha]
        exact ih
      · rw [List.dropWhile_cons_of_neg ha, List.filter_cons_of_pos (by simp [ha]), if_neg ha,
          List.cons_append]
        refine List.Perm.cons a ?_
        exact (List.filter_append_perm due rest).symm.trans List.perm_append_comm

/-- Nothing waits where whatever stands before a due entry is due. -/
theorem waiting_eq_nil {due : α → Bool} : ∀ {l : List α},
    l.Pairwise (fun a b => due b = true → due a = true) → waiting due l = [] := by
  intro l
  induction l with
  | nil => intro _; rfl
  | cons a rest ih =>
      intro h
      obtain ⟨hhead, htail⟩ := List.pairwise_cons.mp h
      unfold waiting
      by_cases ha : due a = true
      · rw [if_pos ha]
        exact ih htail
      · rw [if_neg ha]
        exact List.filter_eq_nil_iff.mpr fun b hb hdue => ha (hhead b hb hdue)

theorem latest_eq {time : α → τ} {target : τ} {l : List α} (h : InOrder time l) :
    latest time target l = (l.filter fun a => decide (time a ≤ target)).getLast? := by
  unfold latest
  rw [takeWhile_eq_filter]
  refine h.imp fun hab hb => ?_
  rw [decide_eq_true_eq] at hb ⊢
  exact hab.trans hb

end Scan

section Trim

variable {α τ : Type} [AddCommGroup τ] [LinearOrder τ]

/-- Append an entry and drop what is too old by then. -/
def push (time : α → τ) (width : τ) (l : List α) (a : α) : List α :=
  (l ++ [a]).dropWhile fun b => decide (width < time a - time b)

/-- The entries within `width` of the last one. -/
def kept (time : α → τ) (width : τ) (l : List α) : List α :=
  match l.getLast? with
  | none => []
  | some last => l.filter fun b => decide (time last - time b ≤ width)

variable [IsOrderedAddMonoid τ] {time : α → τ} {width target : τ} {l : List α}

theorem push_eq {a : α} (h : InOrder time (l ++ [a])) :
    push time width l a = (l ++ [a]).filter fun b => decide (time a - time b ≤ width) := by
  unfold push
  rw [dropWhile_eq_filter]
  · refine List.filter_congr fun b _ => ?_
    by_cases hb : time a - time b ≤ width
    · simp [hb]
    · simp [hb, not_le.mp hb]
  · refine h.imp fun hab hb => ?_
    rw [decide_eq_true_eq] at hb ⊢
    exact lt_of_lt_of_le hb (sub_le_sub_left hab _)

/-- **Dropping the old entries as one goes forgets what one trim at the end forgets.** -/
theorem push_all : ∀ {l : List α}, InOrder time l →
    l.foldl (push time width) [] = kept time width l := by
  intro l
  induction l using List.reverseRecOn with
  | nil => intro _; rfl
  | append_singleton l a ih =>
      intro h
      have hl : InOrder time l := (List.pairwise_append.mp h).1
      have hsub : (kept time width l).Sublist l := by
        unfold kept
        split
        · exact List.nil_sublist l
        · exact List.filter_sublist
      rw [List.foldl_append, List.foldl_cons, List.foldl_nil, ih hl,
        push_eq (List.Pairwise.sublist (hsub.append (List.Sublist.refl [a])) h)]
      unfold kept
      rw [List.getLast?_concat]
      show _ = List.filter _ (l ++ [a])
      rw [List.filter_append, List.filter_append]
      congr 1
      cases hlast : l.getLast? with
      | none =>
          rw [List.getLast?_eq_none_iff.mp hlast]
      | some last =>
          -- what is near enough to the new entry was near enough to the last one
          have hle : time last ≤ time a :=
            (List.pairwise_append.mp h).2.2 last (List.mem_of_getLast? hlast) a
              (List.mem_singleton_self a)
          show (l.filter _).filter _ = l.filter _
          rw [List.filter_filter]
          refine List.filter_congr fun b _ => ?_
          by_cases hb : time a - time b ≤ width
          · have hb' : time last - time b ≤ width := (sub_le_sub_right hle _).trans hb
            simp [hb, hb']
          · simp [hb]

/-- **A lookup finds what it would have found, unless that has been forgotten.** -/
theorem latest_kept (h : InOrder time l) :
    latest time target (kept time width l) = (latest time target l).filter fun b =>
      l.getLast?.any fun last => decide (time last - time b ≤ width) := by
  unfold kept
  cases hlast : l.getLast? with
  | none =>
      rw [List.getLast?_eq_none_iff.mp hlast]
      rfl
  | some last =>
      show latest time target (l.filter _) = _
      rw [latest_eq (h.sublist List.filter_sublist), latest_eq h, getLast?_filter_tail]
      · rfl
      · refine h.imp fun hab ha => ?_
        rw [decide_eq_true_eq] at ha ⊢
        exact (sub_le_sub_left hab _).trans ha

end Trim

end Window
