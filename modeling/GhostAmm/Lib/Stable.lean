/-
What a stable sort does to a law between the entries of a list.

A sort by keys moves an entry past an earlier one only if the earlier one may not stay in
front.  So a law holds of every two entries of the sorted list, in the order they have
there, exactly when it holds of every two entries of the list itself: in their order where
they may keep it, and the other way round where they may not
(`pairwise_insertionSort_iff`).
-/
import Mathlib

namespace Stable

variable {α : Type} (r : α → α → Prop) [DecidableRel r] {S : α → α → Prop}

/-- The law as a sort leaves it: turned round for two entries that must change places. -/
def Kept (S : α → α → Prop) (a b : α) : Prop := (r a b → S a b) ∧ (¬ r a b → S b a)

variable {r}

/-- An entry is put behind just those it may not stay in front of. -/
theorem orderedInsert_split [IsTrans α r] (a : α) : ∀ {l : List α}, l.Pairwise r →
    ∃ front back, l = front ++ back ∧ l.orderedInsert r a = front ++ a :: back ∧
      (∀ b ∈ front, ¬ r a b) ∧ ∀ b ∈ back, r a b := by
  intro l
  induction l with
  | nil => intro _; exact ⟨[], [], rfl, rfl, by simp, by simp⟩
  | cons b rest ih =>
      intro hsorted
      obtain ⟨hhead, htail⟩ := List.pairwise_cons.mp hsorted
      by_cases hab : r a b
      · refine ⟨[], b :: rest, rfl, List.orderedInsert_cons_of_le _ _ hab, by simp, ?_⟩
        intro c hc
        rcases List.mem_cons.mp hc with rfl | hc
        · exact hab
        · exact IsTrans.trans a b c hab (hhead c hc)
      · obtain ⟨front, back, hl, hinsert, hfront, hback⟩ := ih htail
        refine ⟨b :: front, back, by rw [hl, List.cons_append], ?_, ?_, hback⟩
        · rw [List.orderedInsert_of_not_le _ _ hab, hinsert, List.cons_append]
        · intro c hc
          rcases List.mem_cons.mp hc with rfl | hc
          · exact hab
          · exact hfront c hc

theorem pairwise_orderedInsert_iff [IsTrans α r] (a : α) {l : List α} (hl : l.Pairwise r) :
    (l.orderedInsert r a).Pairwise S ↔ (∀ b ∈ l, Kept r S a b) ∧ l.Pairwise S := by
  obtain ⟨front, back, rfl, hinsert, hfront, hback⟩ := orderedInsert_split a hl
  have hkept : (∀ b ∈ front ++ back, Kept r S a b) ↔ (∀ b ∈ front, S b a) ∧ ∀ b ∈ back, S a b := by
    rw [List.forall_mem_append]
    refine and_congr (forall₂_congr fun b hb => ?_) (forall₂_congr fun b hb => ?_)
    · exact ⟨fun h => h.2 (hfront b hb), fun h => ⟨fun hr => absurd hr (hfront b hb), fun _ => h⟩⟩
    · exact ⟨fun h => h.1 (hback b hb), fun h => ⟨fun _ => h, fun hr => absurd (hback b hb) hr⟩⟩
  rw [hinsert, hkept, List.pairwise_append, List.pairwise_append, List.pairwise_cons]
  constructor
  · rintro ⟨hf, ⟨hab, hb⟩, hcross⟩
    refine ⟨⟨fun b hbf => hcross b hbf a List.mem_cons_self, hab⟩, hf, hb, ?_⟩
    exact fun b hbf c hc => hcross b hbf c (List.mem_cons_of_mem _ hc)
  · rintro ⟨⟨hba, hab⟩, hf, hb, hcross⟩
    refine ⟨hf, ⟨hab, hb⟩, fun b hbf c hc => ?_⟩
    rcases List.mem_cons.mp hc with rfl | hc
    · exact hba b hbf
    · exact hcross b hbf c hc

/-- **A law holds of a sorted list exactly when the list keeps it through the sort.** -/
theorem pairwise_insertionSort_iff [IsTrans α r] [Std.Total r] {l : List α} :
    (l.insertionSort r).Pairwise S ↔ l.Pairwise (Kept r S) := by
  induction l with
  | nil => exact iff_of_true List.Pairwise.nil List.Pairwise.nil
  | cons a rest ih =>
      rw [List.insertionSort_cons,
        pairwise_orderedInsert_iff a (List.pairwise_insertionSort r rest), ih, List.pairwise_cons]
      simp only [List.mem_insertionSort]

end Stable
