/-
Dictionaries that remember insertion order.

A `Table key` is a list of rows no two of which have the same key.  The key is
read off the row, so a row can never be filed under a key that is not its own,
and the distinctness of the keys is a field: it is proved once for each operation
here and never again by a caller.

Writing replaces the row that has the key where it stands, or appends; removing
keeps the order of the rest.  Every lookup lemma below follows from one
description of membership for each operation (`mem_put`, `mem_erase`).
-/
import Mathlib

namespace Py

/-- Rows in insertion order, no two of them under the same key. -/
structure Table {κ ν : Type} (key : ν → κ) where
  rows : List ν
  nodup : (rows.map key).Nodup

variable {κ ν : Type} [DecidableEq κ] {key : ν → κ}

/-- Write a row into a list: over the row with its key, or at the end. -/
def upsert (key : ν → κ) (v : ν) : List ν → List ν
  | [] => [v]
  | w :: rest => if key w = key v then v :: rest else w :: upsert key v rest

theorem map_upsert (v : ν) : ∀ rows : List ν,
    (upsert key v rows).map key
      = if key v ∈ rows.map key then rows.map key else rows.map key ++ [key v] := by
  intro rows
  induction rows with
  | nil => simp [upsert]
  | cons w rest ih =>
      by_cases hw : key w = key v
      · simp [upsert, hw]
      · have hne : key v ≠ key w := fun h => hw h.symm
        simp only [upsert, if_neg hw, List.map_cons, ih, List.mem_cons, hne, false_or]
        split <;> rfl

theorem mem_upsert {v w : ν} : ∀ {rows : List ν}, (rows.map key).Nodup →
    (w ∈ upsert key v rows ↔ w = v ∨ (w ∈ rows ∧ key w ≠ key v)) := by
  intro rows
  induction rows with
  | nil => intro _; simp [upsert]
  | cons u rest ih =>
      intro hnd
      simp only [List.map_cons, List.nodup_cons] at hnd
      by_cases hu : key u = key v
      · have hout : ∀ x ∈ rest, key x ≠ key v := by
          intro x hx hxv
          exact hnd.1 (List.mem_map.mpr ⟨x, hx, hxv.trans hu.symm⟩)
        simp only [upsert, if_pos hu, List.mem_cons]
        constructor
        · rintro (rfl | hw)
          · exact Or.inl rfl
          · exact Or.inr ⟨Or.inr hw, hout w hw⟩
        · rintro (rfl | ⟨rfl | hw, hne⟩)
          · exact Or.inl rfl
          · exact absurd hu hne
          · exact Or.inr hw
      · simp only [upsert, if_neg hu, List.mem_cons, ih hnd.2]
        constructor
        · rintro (rfl | rfl | ⟨hw, hne⟩)
          · exact Or.inr ⟨Or.inl rfl, hu⟩
          · exact Or.inl rfl
          · exact Or.inr ⟨Or.inr hw, hne⟩
        · rintro (rfl | ⟨rfl | hw, hne⟩)
          · exact Or.inr (Or.inl rfl)
          · exact Or.inl rfl
          · exact Or.inr (Or.inr ⟨hw, hne⟩)

namespace Table

instance [DecidableEq ν] : DecidableEq (Table key) := fun s t =>
  decidable_of_iff (s.rows = t.rows) ⟨fun h => by cases s; cases t; cases h; rfl, fun h => h ▸ rfl⟩

/-- `{}`. -/
def empty : Table key := ⟨[], by simp⟩

/-- `d.get(k)`. -/
def get? (t : Table key) (k : κ) : Option ν := t.rows.find? fun v => decide (key v = k)

/-- `d[k] = v`, where `k` is the key of `v`. -/
def put (t : Table key) (v : ν) : Table key where
  rows := upsert key v t.rows
  nodup := by
    rw [map_upsert]
    split
    · exact t.nodup
    · rename_i h
      refine List.nodup_append.mpr ⟨t.nodup, List.nodup_singleton _, ?_⟩
      intro a ha b hb hab
      rw [List.mem_singleton.mp hb] at hab
      exact h (hab ▸ ha)

/-- `d.pop(k, None)`. -/
def erase (t : Table key) (k : κ) : Table key where
  rows := t.rows.filter fun v => decide (key v ≠ k)
  nodup := List.Nodup.sublist (List.Sublist.map _ List.filter_sublist) t.nodup

/-- The dictionary a comprehension builds: later rows overwrite earlier ones. -/
def ofList (l : List ν) : Table key := l.foldl put empty

/-- `d.setdefault(k, v)[...]`, where `k` is the key of `v`: an existing row stays. -/
def setDefault (t : Table key) (v : ν) : Table key :=
  if (t.get? (key v)).isSome then t else t.put v

omit [DecidableEq κ] in
/-- A table is its rows. -/
theorem ext_rows {s t : Table key} (h : s.rows = t.rows) : s = t := by
  cases s
  cases t
  cases h
  rfl

omit [DecidableEq κ] in
@[simp] theorem rows_empty : (empty : Table key).rows = [] := rfl

@[simp] theorem rows_erase (t : Table key) (k : κ) :
    (t.erase k).rows = t.rows.filter fun v => decide (key v ≠ k) := rfl

theorem mem_put {t : Table key} {v w : ν} :
    w ∈ (t.put v).rows ↔ w = v ∨ (w ∈ t.rows ∧ key w ≠ key v) := mem_upsert t.nodup

theorem mem_erase {t : Table key} {k : κ} {w : ν} :
    w ∈ (t.erase k).rows ↔ w ∈ t.rows ∧ key w ≠ k := by
  simp [List.mem_filter]

omit [DecidableEq κ] in
/-- Two rows with one key are one row. -/
theorem eq_of_key_eq {t : Table key} {v w : ν} (hv : v ∈ t.rows) (hw : w ∈ t.rows)
    (h : key v = key w) : v = w :=
  List.inj_on_of_nodup_map t.nodup hv hw h

theorem get?_eq_some {t : Table key} {k : κ} {v : ν} :
    t.get? k = some v ↔ v ∈ t.rows ∧ key v = k := by
  constructor
  · intro h
    exact ⟨List.mem_of_find?_eq_some h, by simpa using List.find?_some h⟩
  · rintro ⟨hv, rfl⟩
    cases hf : t.get? (key v) with
    | none =>
        have := List.find?_eq_none.mp hf v hv
        simp at this
    | some w =>
        have hw := List.mem_of_find?_eq_some hf
        have hk : key w = key v := by simpa using List.find?_some hf
        rw [eq_of_key_eq hw hv hk]

/-- Tables that answer every lookup alike hold the same rows, up to their order. -/
theorem rows_perm_of_get? {s t : Table key} (h : ∀ k, s.get? k = t.get? k) :
    s.rows.Perm t.rows := by
  have hmem : ∀ v, v ∈ s.rows ↔ v ∈ t.rows := by
    intro v
    have hs := get?_eq_some (t := s) (k := key v) (v := v)
    have ht := get?_eq_some (t := t) (k := key v) (v := v)
    rw [h (key v), ht] at hs
    simpa using hs.symm
  exact (List.perm_ext_iff_of_nodup s.nodup.of_map t.nodup.of_map).mpr hmem

theorem get?_eq_none {t : Table key} {k : κ} :
    t.get? k = none ↔ ∀ v ∈ t.rows, key v ≠ k := by
  simp [get?, List.find?_eq_none]

@[simp] theorem get?_empty (k : κ) : (empty : Table key).get? k = none := rfl

@[simp] theorem get?_put_self (t : Table key) (v : ν) : (t.put v).get? (key v) = some v :=
  get?_eq_some.mpr ⟨mem_put.mpr (Or.inl rfl), rfl⟩

theorem get?_put_ne (t : Table key) {v : ν} {k : κ} (h : k ≠ key v) :
    (t.put v).get? k = t.get? k := by
  refine Option.ext fun w => ?_
  rw [get?_eq_some, get?_eq_some, mem_put]
  constructor
  · rintro ⟨rfl | ⟨hw, -⟩, rfl⟩
    · exact absurd rfl h
    · exact ⟨hw, rfl⟩
  · rintro ⟨hw, rfl⟩
    exact ⟨Or.inr ⟨hw, h⟩, rfl⟩

@[simp] theorem get?_erase_self (t : Table key) (k : κ) : (t.erase k).get? k = none := by
  rw [get?_eq_none]
  intro v hv
  exact (mem_erase.mp hv).2

theorem get?_erase_ne (t : Table key) {k k' : κ} (h : k' ≠ k) :
    (t.erase k).get? k' = t.get? k' := by
  refine Option.ext fun w => ?_
  rw [get?_eq_some, get?_eq_some, mem_erase]
  constructor
  · rintro ⟨⟨hw, -⟩, rfl⟩
    exact ⟨hw, rfl⟩
  · rintro ⟨hw, rfl⟩
    exact ⟨⟨hw, h⟩, rfl⟩

/-- A comprehension that gives each key one row keeps all its rows. -/
theorem mem_ofList {l : List ν} (h : ∀ v ∈ l, ∀ w ∈ l, key v = key w → v = w) {v : ν} :
    v ∈ (ofList l : Table key).rows ↔ v ∈ l := by
  have hloop : ∀ (rest seen : List ν) (t : Table key), (∀ w, w ∈ t.rows ↔ w ∈ seen) →
      (∀ v ∈ seen ++ rest, ∀ w ∈ seen ++ rest, key v = key w → v = w) →
      (v ∈ (rest.foldl put t).rows ↔ v ∈ seen ++ rest) := by
    intro rest
    induction rest with
    | nil => intro seen t ht _; rw [List.append_nil]; exact ht v
    | cons w rest ih =>
        intro seen t ht hkeys
        rw [List.append_cons] at hkeys ⊢
        refine ih (seen ++ [w]) (t.put w) (fun u => ?_) hkeys
        rw [mem_put, ht u, List.mem_append, List.mem_singleton]
        constructor
        · rintro (rfl | ⟨hu, -⟩)
          · exact Or.inr rfl
          · exact Or.inl hu
        · rintro (hu | rfl)
          · by_cases hk : key u = key w
            · exact Or.inl (hkeys u (by simp [hu]) w (by simp) hk)
            · exact Or.inr ⟨hu, hk⟩
          · exact Or.inl rfl
  exact hloop l [] empty (fun w => by simp) (by simpa using h)

/-- Writing rows one after the other leaves at each key the last row written there. -/
theorem get?_foldl_put (t : Table key) (k : κ) (l : List ν) :
    (l.foldl put t).get? k = (l.filter fun v => decide (key v = k)).getLast?.or (t.get? k) := by
  induction l using List.reverseRecOn with
  | nil => rfl
  | append_singleton l v ih =>
      rw [List.foldl_append, List.foldl_cons, List.foldl_nil, List.filter_append]
      by_cases hk : key v = k
      · rw [← hk, get?_put_self]
        simp
      · rw [get?_put_ne _ fun h => hk h.symm, ih]
        simp [hk]

/-- A default does not overwrite. -/
theorem get?_setDefaults {k : κ} {w : ν} : ∀ (l : List ν) {t : Table key}, t.get? k = some w →
    (l.foldl setDefault t).get? k = some w := by
  intro l
  induction l with
  | nil => intro t h; exact h
  | cons v rest ih =>
      intro t h
      refine ih ?_
      unfold setDefault
      split
      · exact h
      · rename_i hnone
        by_cases hk : k = key v
        · rw [← hk, h] at hnone
          simp at hnone
        · exact (get?_put_ne t hk).trans h

/-- What defaults add are themselves. -/
theorem mem_setDefaults {w : ν} : ∀ (l : List ν) {t : Table key},
    w ∈ (l.foldl setDefault t).rows → w ∈ t.rows ∨ w ∈ l := by
  intro l
  induction l with
  | nil => intro t h; exact Or.inl h
  | cons v rest ih =>
      intro t h
      rcases ih h with hmem | hmem
      · unfold setDefault at hmem
        split at hmem
        · exact Or.inl hmem
        · rcases mem_put.mp hmem with rfl | ⟨hold, -⟩
          · exact Or.inr List.mem_cons_self
          · exact Or.inl hold
      · exact Or.inr (List.mem_cons_of_mem _ hmem)

/-- `k in d`. -/
def Has (t : Table key) (k : κ) : Prop := ∃ v ∈ t.rows, key v = k

theorem isSome_get?_iff {t : Table key} {k : κ} : (t.get? k).isSome = true ↔ t.Has k := by
  unfold Has
  cases hget : t.get? k with
  | none => simpa using get?_eq_none.mp hget
  | some v => simpa using ⟨v, get?_eq_some.mp hget⟩

theorem has_put {t : Table key} {v : ν} {k : κ} : (t.put v).Has k ↔ key v = k ∨ t.Has k := by
  unfold Has
  constructor
  · intro h
    obtain ⟨w, hw, hk⟩ := h
    rcases mem_put.mp hw with rfl | ⟨hold, -⟩
    · exact Or.inl hk
    · exact Or.inr ⟨w, hold, hk⟩
  · intro h
    by_cases hkey : key v = k
    · exact ⟨v, mem_put.mpr (Or.inl rfl), hkey⟩
    · obtain ⟨w, hw, hk⟩ := h.resolve_left hkey
      exact ⟨w, mem_put.mpr (Or.inr ⟨hw, fun hsame => hkey (hsame.symm.trans hk)⟩), hk⟩

theorem has_setDefault {t : Table key} {v : ν} {k : κ} :
    (t.setDefault v).Has k ↔ key v = k ∨ t.Has k := by
  unfold setDefault
  split
  · rename_i hhas
    refine (or_iff_right_of_imp fun hk => ?_).symm
    exact hk ▸ isSome_get?_iff.mp hhas
  · exact has_put

omit [DecidableEq κ] in
/-- A loop that writes its rows leaves their keys. -/
theorem has_foldl {f : Table key → ν → Table key} {k : κ}
    (hf : ∀ t v, (f t v).Has k ↔ key v = k ∨ t.Has k) (l : List ν) (t : Table key) :
    (l.foldl f t).Has k ↔ (∃ v ∈ l, key v = k) ∨ t.Has k := by
  induction l generalizing t with
  | nil => simp
  | cons v rest ih =>
      rw [List.foldl_cons, ih, hf, List.exists_mem_cons_iff]
      exact (or_assoc.symm.trans (or_congr_left or_comm))

theorem has_ofList {l : List ν} {k : κ} :
    (ofList l : Table key).Has k ↔ ∃ v ∈ l, key v = k := by
  unfold ofList
  rw [has_foldl fun _ _ => has_put]
  refine or_iff_left ?_
  intro h
  obtain ⟨v, hv, -⟩ := h
  simp at hv

omit [DecidableEq κ] in
/-- A list whose rows have partners under their keys in another one sums to no more. -/
theorem sum_le_sum {K : Type} [AddCommGroup K] [LinearOrder K] [IsOrderedAddMonoid K]
    {f : ν → K} {l : List ν} (hl : (l.map key).Nodup) : ∀ {l' : List ν}, (∀ w ∈ l', 0 ≤ f w) →
    (∀ v ∈ l, ∃ w ∈ l', key w = key v ∧ f v ≤ f w) → (l.map f).sum ≤ (l'.map f).sum := by
  induction l with
  | nil =>
      intro l' hnonneg _
      refine List.sum_nonneg fun x hx => ?_
      obtain ⟨w, hw, rfl⟩ := List.mem_map.mp hx
      exact hnonneg w hw
  | cons v rest ih =>
      intro l' hnonneg h
      obtain ⟨hv, hrest⟩ := List.nodup_cons.mp hl
      obtain ⟨w, hw, hkey, hle⟩ := h v List.mem_cons_self
      obtain ⟨xs, ys, rfl⟩ := List.append_of_mem hw
      -- the partners of the other rows are elsewhere
      have hpartners : ∀ u ∈ rest, ∃ w' ∈ xs ++ ys, key w' = key u ∧ f u ≤ f w' := by
        intro u hu
        obtain ⟨w', hw', hkey', hle'⟩ := h u (List.mem_cons_of_mem _ hu)
        refine ⟨w', ?_, hkey', hle'⟩
        have hne : w' ≠ w := by
          rintro rfl
          exact hv (hkey.symm.trans hkey' ▸ List.mem_map_of_mem hu)
        rcases List.mem_append.mp hw' with hfront | hback
        · exact List.mem_append_left _ hfront
        · exact List.mem_append_right _ ((List.mem_cons.mp hback).resolve_left hne)
      have hothers := ih hrest (fun u hu => hnonneg u (by
        rcases List.mem_append.mp hu with hu | hu <;> simp [hu])) hpartners
      rw [List.map_append, List.sum_append] at hothers
      rw [List.map_cons, List.sum_cons, List.map_append, List.sum_append, List.map_cons,
        List.sum_cons, add_left_comm]
      exact add_le_add hle hothers

/-- Removing the first row leaves the rest. -/
theorem rows_erase_head {t : Table key} {v : ν} {rest : List ν} (h : t.rows = v :: rest) :
    (t.erase (key v)).rows = rest := by
  have hnodup := t.nodup
  rw [h, List.map_cons, List.nodup_cons] at hnodup
  rw [rows_erase, h, List.filter_cons_of_neg (by simp), List.filter_eq_self]
  intro w hw
  have hne : key w ≠ key v := fun heq => hnodup.1 (heq ▸ List.mem_map_of_mem hw)
  simpa using hne

end Table

end Py
