/-
Nested dictionaries.

A decoded value is a tree whose branches are dictionaries.  A path of keys leads to a value in it
as long as everything on the way is a dictionary (`at?`), and writing under a key is `upsert`.  As
a list of fields a dictionary has each key once; what has to hold of every dictionary in a tree is
asked with `all`, which computes.
-/
import GhostAmm.Lib.Json
import GhostAmm.Lib.Table

namespace Py

namespace Json

/-- `fields.get(key)`, with a missing key apart from a null. -/
def lookup (fields : List (String × Json)) (key : String) : Option Json :=
  (fields.find? fun f => decide (f.1 = key)).map Prod.snd

/-- The value a path of keys leads to. -/
def at? : Json → List String → Option Json
  | value, [] => some value
  | .obj fields, key :: rest => (lookup fields key).bind fun value => value.at? rest
  | _, _ :: _ => none

mutual

/-- Whether every value that is reached through dictionaries passes a test. -/
def all (p : Json → Bool) : Json → Bool
  | .obj fields => p (.obj fields) && allFields p fields
  | value => p value

def allFields (p : Json → Bool) : List (String × Json) → Bool
  | [] => true
  | (_, value) :: rest => value.all p && allFields p rest

end

/-- A dictionary has each key once. -/
def distinctKeys : Json → Bool
  | .obj fields => decide (fields.map Prod.fst).Nodup
  | _ => true

/-- `isinstance(value, dict)`. -/
def isDict : Json → Bool
  | .obj _ => true
  | _ => false

theorem isDict_iff {value : Json} : value.isDict = true ↔ ∃ fields, value = .obj fields := by
  cases value <;> simp [isDict]

/-! ### Looking up -/

theorem lookup_cons (f : String × Json) (fields : List (String × Json)) (key : String) :
    lookup (f :: fields) key = if f.1 = key then some f.2 else lookup fields key := by
  unfold lookup
  rw [List.find?_cons]
  by_cases h : f.1 = key
  · simp [h]
  · simp [h]

theorem lookup_upsert (key : String) (value : Json) : ∀ (fields : List (String × Json))
    (other : String), lookup (upsert Prod.fst (key, value) fields) other
      = if other = key then some value else lookup fields other := by
  intro fields
  induction fields with
  | nil =>
      intro other
      rw [upsert, lookup_cons]
      simp only [eq_comm]
  | cons f rest ih =>
      intro other
      rw [upsert]
      by_cases hf : f.1 = key
      · rw [if_pos hf, lookup_cons, lookup_cons, hf]
        by_cases hother : other = key
        · simp [hother]
        · simp [hother, Ne.symm hother]
      · rw [if_neg hf, lookup_cons, lookup_cons, ih]
        by_cases hother : other = key
        · simp [hother, hf]
        · simp [hother]

theorem lookup_eq_none_iff {fields : List (String × Json)} {key : String} :
    lookup fields key = none ↔ key ∉ fields.map Prod.fst := by
  unfold lookup
  rw [Option.map_eq_none_iff, List.find?_eq_none, List.mem_map]
  simp only [decide_eq_true_eq]
  exact ⟨fun h ⟨f, hf, hkey⟩ => h f hf hkey, fun h f hf hkey => h ⟨f, hf, hkey⟩⟩

theorem lookup_of_mem {fields : List (String × Json)} (hkeys : (fields.map Prod.fst).Nodup)
    {f : String × Json} (hf : f ∈ fields) : lookup fields f.1 = some f.2 := by
  induction fields with
  | nil => simp at hf
  | cons g rest ih =>
      rw [List.map_cons, List.nodup_cons] at hkeys
      rw [lookup_cons]
      rcases List.mem_cons.mp hf with rfl | hf
      · rw [if_pos rfl]
      · have hne : g.1 ≠ f.1 := fun h => hkeys.1 (h ▸ List.mem_map_of_mem hf)
        rw [if_neg hne]
        exact ih hkeys.2 hf

theorem mem_of_lookup {fields : List (String × Json)} {key : String} {value : Json}
    (h : lookup fields key = some value) : (key, value) ∈ fields := by
  unfold lookup at h
  obtain ⟨f, hf, rfl⟩ := Option.map_eq_some_iff.mp h
  have hkey : f.1 = key := by simpa using List.find?_some hf
  rw [← hkey]
  exact List.mem_of_find?_eq_some hf

@[simp] theorem at?_nil (value : Json) : value.at? [] = some value := by
  unfold at?
  rfl

@[simp] theorem at?_obj_cons (fields : List (String × Json)) (key : String)
    (rest : List String) : (Json.obj fields).at? (key :: rest)
      = (lookup fields key).bind fun value => value.at? rest := rfl

theorem at?_cons_of_not_isDict {value : Json} (h : value.isDict = false) (key : String)
    (rest : List String) : value.at? (key :: rest) = none := by
  cases value <;> simp [isDict] at h <;> rfl

/-! ### Everywhere -/

theorem all_obj_iff {p : Json → Bool} {fields : List (String × Json)} :
    (Json.obj fields).all p = true ↔
      p (.obj fields) = true ∧ ∀ f ∈ fields, f.2.all p = true := by
  have hfields : ∀ fields : List (String × Json),
      allFields p fields = true ↔ ∀ f ∈ fields, f.2.all p = true := by
    intro fields
    induction fields with
    | nil => simp [allFields]
    | cons f rest ih => simp [allFields, ih]
  rw [all, Bool.and_eq_true, hfields]

theorem all_root {p : Json → Bool} {value : Json} (h : value.all p = true) : p value = true := by
  cases value with
  | obj fields => exact (all_obj_iff.mp h).1
  | _ => simpa [all] using h

/-- What holds everywhere holds wherever a path leads. -/
theorem all_at {p : Json → Bool} : ∀ {path : List String} {value found : Json},
    value.all p = true → value.at? path = some found → found.all p = true := by
  intro path
  induction path with
  | nil =>
      intro value found hall hfound
      rw [at?_nil] at hfound
      exact Option.some.inj hfound ▸ hall
  | cons key rest ih =>
      intro value found hall hfound
      cases value with
      | obj fields =>
          rw [at?_obj_cons] at hfound
          obtain ⟨next, hnext, hfound⟩ := Option.bind_eq_some_iff.mp hfound
          exact ih ((all_obj_iff.mp hall).2 _ (mem_of_lookup hnext)) hfound
      | _ => simp [at?] at hfound

end Json

/-! ### Writing -/

section Upsert

variable {κ α : Type} [DecidableEq κ] {key : α → κ}

theorem upsert_of_notMem (v : α) : ∀ {rows : List α}, key v ∉ rows.map key →
    upsert key v rows = rows ++ [v] := by
  intro rows
  induction rows with
  | nil => intro _; rfl
  | cons w rest ih =>
      intro h
      rw [List.map_cons, List.mem_cons, not_or] at h
      rw [upsert, if_neg (fun heq => h.1 heq.symm), ih h.2]
      rfl

theorem mem_of_mem_upsert {v w : α} : ∀ {rows : List α}, w ∈ upsert key v rows →
    w = v ∨ w ∈ rows := by
  intro rows
  induction rows with
  | nil => intro h; exact Or.inl (List.mem_singleton.mp h)
  | cons u rest ih =>
      intro h
      rw [upsert] at h
      by_cases hu : key u = key v
      · rw [if_pos hu, List.mem_cons] at h
        exact h.imp_right (List.mem_cons_of_mem u)
      · rw [if_neg hu, List.mem_cons] at h
        rcases h with rfl | h
        · exact Or.inr List.mem_cons_self
        · exact (ih h).imp_right (List.mem_cons_of_mem u)

/-- The last row is replaced by one with its key. -/
theorem upsert_concat {v w : α} (hkey : key w = key v) : ∀ {rows : List α},
    key v ∉ rows.map key → upsert key v (rows ++ [w]) = rows ++ [v] := by
  intro rows
  induction rows with
  | nil => intro _; exact if_pos hkey
  | cons u rest ih =>
      intro h
      rw [List.map_cons, List.mem_cons, not_or] at h
      rw [List.cons_append, upsert, if_neg (fun heq => h.1 heq.symm), ih h.2]
      rfl

/-- Where the key is there, its row is replaced. -/
theorem upsert_of_mem (v : α) : ∀ {rows : List α}, (rows.map key).Nodup → key v ∈ rows.map key →
    upsert key v rows = rows.map fun w => if key w = key v then v else w := by
  intro rows
  induction rows with
  | nil => intro _ h; simp at h
  | cons w rest ih =>
      intro hnodup h
      rw [List.map_cons, List.nodup_cons] at hnodup
      rw [upsert, List.map_cons]
      by_cases hw : key w = key v
      · rw [if_pos hw, if_pos hw]
        congr 1
        refine (List.map_id rest).symm.trans (List.map_congr_left fun u hu => ?_)
        have hne : key u ≠ key v := fun heq => hnodup.1 (hw ▸ heq ▸ List.mem_map_of_mem hu)
        rw [if_neg hne]
        rfl
      · rw [List.map_cons, List.mem_cons] at h
        rw [if_neg hw, if_neg hw, ih hnodup.2 (h.resolve_left fun heq => hw heq.symm)]

end Upsert

end Py
