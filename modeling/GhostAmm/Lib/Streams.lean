/-
Entries of a log and what stands before them.

Many laws about a log say of each entry how it fits what came before it.  `Past.Each`
is this form, with the rules to read it off the pieces of a log or off one more entry;
`Ahead.Each` is the form for what comes after.

A numbered stream is the first use.  The entries of a log fall into streams by a key,
some of them carry a number, and a stream steps back where a number is below the one
before it in the same stream.  A log that steps back nowhere is one whose streams each
count upwards (`Streams.forward_iff`).
-/
import Mathlib

namespace Past

variable {α : Type} {P : List α → α → Prop}

/-- What is said of each entry of a log and what stands before it. -/
def Each (P : List α → α → Prop) (l : List α) : Prop :=
  ∀ before e after, l = before ++ e :: after → P before e

theorem each_nil : Each P [] := by
  intro before e after h
  simp at h

theorem each_cons {a : α} {l : List α} :
    Each P (a :: l) ↔ P [] a ∧ Each (fun before => P (a :: before)) l := by
  constructor
  · intro h
    refine ⟨h [] a l rfl, fun before e after hl => ?_⟩
    exact h (a :: before) e after (by rw [hl, List.cons_append])
  · rintro ⟨hhead, htail⟩ before e after hl
    cases before with
    | nil =>
        obtain ⟨rfl, -⟩ := List.cons.inj hl
        exact hhead
    | cons b before =>
        obtain ⟨rfl, hrest⟩ := List.cons.inj hl
        exact htail before e after hrest

theorem each_append {xs ys : List α} :
    Each P (xs ++ ys) ↔ Each P xs ∧ Each (fun before => P (xs ++ before)) ys := by
  induction xs generalizing P with
  | nil => exact (and_iff_right each_nil).symm
  | cons a xs ih =>
      rw [List.cons_append, each_cons, each_cons, ih, and_assoc]
      rfl

theorem each_concat {l : List α} {a : α} : Each P (l ++ [a]) ↔ Each P l ∧ P l a := by
  rw [each_append, each_cons, List.append_nil]
  exact and_congr_right fun _ => and_iff_left each_nil

instance decidableEach : ∀ (P : List α → α → Prop) [∀ before e, Decidable (P before e)]
    (l : List α), Decidable (Each P l)
  | _, _, [] => .isTrue each_nil
  | P, _, a :: l =>
      have := decidableEach (fun before => P (a :: before)) l
      decidable_of_iff _ each_cons.symm

theorem Each.imp {Q : List α → α → Prop} {l : List α} (h : Each P l)
    (hPQ : ∀ before e, P before e → Q before e) : Each Q l :=
  fun before e after hl => hPQ before e (h before e after hl)

end Past

namespace Ahead

variable {α β : Type} {P Q : α → List α → Prop}

/-- What is said of each entry of a log and what stands after it. -/
def Each (P : α → List α → Prop) (l : List α) : Prop :=
  ∀ before e after, l = before ++ e :: after → P e after

theorem each_nil : Each P [] := by
  intro before e after h
  simp at h

theorem each_cons {a : α} {l : List α} : Each P (a :: l) ↔ P a l ∧ Each P l := by
  constructor
  · intro h
    refine ⟨h [] a l rfl, fun before e after hl => ?_⟩
    exact h (a :: before) e after (by rw [hl, List.cons_append])
  · intro h before e after hl
    cases before with
    | nil =>
        obtain ⟨rfl, rfl⟩ := List.cons.inj hl
        exact h.1
    | cons b before => exact h.2 before e after (List.cons.inj hl).2

theorem each_map {f : β → α} {l : List β} :
    Each P (l.map f) ↔ Each (fun e after => P (f e) (after.map f)) l := by
  induction l with
  | nil => exact iff_of_true each_nil each_nil
  | cons a l ih => rw [List.map_cons, each_cons, each_cons, ih]

/-- Two laws that agree on every entry of a log agree on the log. -/
theorem each_congr {l : List α}
    (h : ∀ before e after, l = before ++ e :: after → (P e after ↔ Q e after)) :
    Each P l ↔ Each Q l :=
  forall₄_congr h

instance decidableEach (P : α → List α → Prop) [∀ e after, Decidable (P e after)] :
    ∀ l : List α, Decidable (Each P l)
  | [] => .isTrue each_nil
  | _ :: l =>
      have := decidableEach P l
      decidable_of_iff _ each_cons.symm

end Ahead

namespace Streams

variable {ε κ : Type} [DecidableEq κ] (key : ε → κ) (number : ε → Option ℤ)

/-- The numbers of one stream, in order. -/
def numbers (k : κ) (log : List ε) : List ℤ :=
  (log.filter fun e => decide (key e = k)).filterMap number

/-- The last number of a stream. -/
def lastNumber (k : κ) (log : List ε) : Option ℤ := (numbers key number k log).getLast?

/-- An entry whose number is below the last one of its stream. -/
def StepsBack (before : List ε) (e : ε) : Prop :=
  ∃ n ∈ number e, ∃ p ∈ lastNumber key number (key e) before, n < p

/-- No stream of the log steps back. -/
def Forward (log : List ε) : Prop := Past.Each (fun before e => ¬ StepsBack key number before e) log

variable {key number}

theorem numbers_concat (k : κ) (log : List ε) (e : ε) : numbers key number k (log ++ [e])
    = if key e = k then numbers key number k log ++ (number e).toList
      else numbers key number k log := by
  unfold numbers
  rw [List.filter_append, List.filterMap_append]
  by_cases hk : key e = k
  · rw [if_pos hk]
    cases hn : number e <;> simp [hk, hn]
  · rw [if_neg hk]
    simp [hk]

/-- One more entry changes the last number of its own stream, if it has a number. -/
theorem lastNumber_concat (k : κ) (log : List ε) (e : ε) : lastNumber key number k (log ++ [e])
    = if key e = k then (number e).or (lastNumber key number k log)
      else lastNumber key number k log := by
  unfold lastNumber
  rw [numbers_concat]
  split
  · cases number e <;> simp
  · rfl

theorem forward_concat {log : List ε} {e : ε} : Forward key number (log ++ [e]) ↔
    Forward key number log ∧ ¬ StepsBack key number log e :=
  Past.each_concat

/-- **A log steps back nowhere exactly when each of its streams counts upwards.** -/
theorem forward_iff {log : List ε} :
    Forward key number log ↔ ∀ k, (numbers key number k log).Pairwise (· ≤ ·) := by
  induction log using List.reverseRecOn with
  | nil => exact ⟨fun _ k => List.Pairwise.nil, fun _ => Past.each_nil⟩
  | append_singleton log e ih =>
      rw [forward_concat, ih]
      constructor
      · rintro ⟨hlog, hstep⟩ k
        rw [numbers_concat]
        split
        · rename_i hk
          cases hn : number e with
          | none => simpa using hlog k
          | some n =>
              -- in a stream that counts upwards the last number is the largest
              rw [Option.toList_some, List.pairwise_append]
              refine ⟨hlog k, List.pairwise_singleton _ _, fun p hp q hq => ?_⟩
              rw [List.mem_singleton.mp hq]
              obtain ⟨front, last, hfront⟩ :=
                (List.eq_nil_or_concat _).resolve_left (List.ne_nil_of_mem hp)
              have hlast : lastNumber key number (key e) log = some last := by
                unfold lastNumber
                rw [hk, hfront, List.concat_eq_append, List.getLast?_concat]
              have hle : p ≤ last := by
                have hall := hlog k
                rw [hfront, List.concat_eq_append] at hall hp
                rcases List.mem_append.mp hp with hp | hp
                · exact (List.pairwise_append.mp hall).2.2 p hp last (List.mem_singleton_self _)
                · exact (List.mem_singleton.mp hp).le
              have hn' : ¬ n < last := fun hlt => hstep ⟨n, hn, last, hlast, hlt⟩
              omega
        · exact hlog k
      · intro h
        refine ⟨fun k => ?_, ?_⟩
        · have hk := h k
          rw [numbers_concat] at hk
          split at hk
          · exact (List.pairwise_append.mp hk).1
          · exact hk
        · rintro ⟨n, hn, p, hp, hlt⟩
          have hk := h (key e)
          rw [numbers_concat, if_pos rfl, show number e = some n from hn, Option.toList_some,
            List.pairwise_append] at hk
          have hle := hk.2.2 p (List.mem_of_getLast? hp) n (List.mem_singleton_self n)
          omega

/-- Two entries of one stream are in step: the later number is not below the earlier. -/
def InStep (key : ε → κ) (number : ε → Option ℤ) (a b : ε) : Prop :=
  key a = key b → ∀ n ∈ number a, ∀ m ∈ number b, n ≤ m

/-- **A log steps back nowhere exactly when every two of its entries are in step.** -/
theorem forward_iff_pairwise {log : List ε} :
    Forward key number log ↔ log.Pairwise (InStep key number) := by
  rw [forward_iff]
  simp only [numbers, List.pairwise_filterMap, List.pairwise_filter]
  simp only [List.pairwise_iff_getElem]
  constructor
  · intro h i j hi hj hij hkey n hn m hm
    exact h (key log[j]) i j hi hj hij (decide_eq_true hkey) (decide_eq_true rfl) n hn m hm
  · intro h k i j hi hj hij hki hkj n hn m hm
    have hkey : key log[i] = key log[j] :=
      (of_decide_eq_true hki).trans (of_decide_eq_true hkj).symm
    exact h i j hi hj hij hkey n hn m hm

/-- Only the streams and the numbers of the entries matter. -/
theorem forward_congr {log log' : List ε}
    (h : log.map (fun e => (key e, number e)) = log'.map fun e => (key e, number e)) :
    Forward key number log ↔ Forward key number log' := by
  have hmap : ∀ l : List ε, Forward key number l ↔
      (l.map fun e => (key e, number e)).Pairwise (InStep Prod.fst Prod.snd) := by
    intro l
    rw [forward_iff_pairwise, List.pairwise_map]
    rfl
  rw [hmap, hmap, h]

end Streams
