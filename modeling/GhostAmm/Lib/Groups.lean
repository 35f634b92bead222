/-
Grouping a list by a key.

A loop that keeps a dictionary entry for each key it meets, a counter, a running total, a list of
what was seen, leaves one row for each key, in the order the keys were first met, and in it what
the loop makes of the members of that key alone (`rows_gather`).  The other facts follow from this
one: a sum over the rows is a sum over the list, and the most common key leads what a counter
is sorted into.
-/
import GhostAmm.Lib.Table

namespace Groups

open Py (Table)

variable {α κ β M : Type} [DecidableEq κ] {key : α → Option κ} {xs : List α} {k : κ}

/-- The keys of a list, each where it is first met. -/
def firsts (keys : List κ) : List κ := keys.reverse.dedup.reverse

theorem mem_firsts {keys : List κ} : k ∈ firsts keys ↔ k ∈ keys := by simp [firsts]

theorem nodup_firsts (keys : List κ) : (firsts keys).Nodup := by
  unfold firsts
  rw [List.nodup_reverse]
  exact List.nodup_dedup _

theorem firsts_concat (keys : List κ) (k : κ) :
    firsts (keys ++ [k]) = if k ∈ keys then firsts keys else firsts keys ++ [k] := by
  unfold firsts
  rw [List.reverse_concat, List.dedup_cons]
  by_cases hk : k ∈ keys <;> simp [hk]

/-- The entries of a list under a key. -/
def members (key : α → Option κ) (k : κ) (xs : List α) : List α :=
  xs.filter fun x => decide (key x = some k)

@[simp] theorem mem_members {x : α} : x ∈ members key k xs ↔ x ∈ xs ∧ key x = some k := by
  simp [members]

theorem members_concat (x : α) :
    members key k (xs ++ [x]) = members key k xs ++ if key x = some k then [x] else [] := by
  unfold members
  rw [List.filter_append, List.filter_singleton]
  simp [Bool.cond_eq_ite]

theorem members_eq_nil (h : k ∉ xs.filterMap key) : members key k xs = [] := by
  refine List.filter_eq_nil_iff.mpr fun x hx hkey => h ?_
  exact List.mem_filterMap.mpr ⟨x, hx, of_decide_eq_true hkey⟩

/-! ### The loop -/

/-- `d[key] = add(d.get(key, zero), x)`; an entry without a key is skipped. -/
def addTo (key : α → Option κ) (zero : β) (add : β → α → β)
    (t : Table (Prod.fst : κ × β → κ)) (x : α) : Table (Prod.fst : κ × β → κ) :=
  match key x with
  | none => t
  | some k => t.put (k, add (((t.get? k).map Prod.snd).getD zero) x)

def gather (key : α → Option κ) (zero : β) (add : β → α → β) (xs : List α) :
    Table (Prod.fst : κ × β → κ) :=
  xs.foldl (addTo key zero add) Table.empty

variable {zero : β} {add : β → α → β}

/-- Writing a row into a dictionary that has a row for each of some keys. -/
private theorem upsert_map (f : κ → β) (v : β) : ∀ keys : List κ, keys.Nodup →
    Py.upsert Prod.fst (k, v) (keys.map fun j => (j, f j))
      = if k ∈ keys then keys.map fun j => (j, if j = k then v else f j)
        else keys.map (fun j => (j, f j)) ++ [(k, v)] := by
  intro keys
  induction keys with
  | nil => intro _; rfl
  | cons j rest ih =>
      intro hnodup
      rw [List.nodup_cons] at hnodup
      rw [List.map_cons, Py.upsert]
      by_cases hj : j = k
      · subst hj
        have hrest : rest.map (fun i => (i, if i = j then v else f i))
            = rest.map fun i => (i, f i) := by
          refine List.map_congr_left fun i hi => ?_
          rw [if_neg fun h : i = j => hnodup.1 (h ▸ hi)]
        simp [hrest]
      · rw [if_neg hj, ih hnodup.2]
        by_cases hk : k ∈ rest
        · simp [hk, hj]
        · simp [hk, Ne.symm hj]

/-- The rows for some keys, looked up. -/
private theorem find?_map (f : κ → β) {keys : List κ} (h : k ∈ keys) :
    (keys.map fun j => (j, f j)).find? (fun row => decide (row.1 = k)) = some (k, f k) := by
  rw [List.find?_map]
  have hfind : keys.find? ((fun row : κ × β => decide (row.1 = k)) ∘ fun j => (j, f j))
      = some k := by
    obtain ⟨j, hj⟩ := Option.isSome_iff_exists.mp
      (List.find?_isSome.mpr ⟨k, h, by simp⟩ :
        (keys.find? ((fun row : κ × β => decide (row.1 = k)) ∘ fun j => (j, f j))).isSome = true)
    have heq : j = k := by simpa using List.find?_some hj
    rw [hj, heq]
  rw [hfind]
  rfl

/-- **What the loop leaves: a row for each key in the order the keys were met, with what the loop
makes of the members of that key.** -/
theorem rows_gather (xs : List α) :
    (gather key zero add xs).rows
      = (firsts (xs.filterMap key)).map fun k => (k, (members key k xs).foldl add zero) := by
  induction xs using List.reverseRecOn with
  | nil => rfl
  | append_singleton xs x ih =>
      have hstep : gather key zero add (xs ++ [x])
          = addTo key zero add (gather key zero add xs) x := by
        unfold gather
        rw [List.foldl_append, List.foldl_cons, List.foldl_nil]
      rw [hstep, List.filterMap_append]
      unfold addTo
      cases hx : key x with
      | none =>
          simp [hx, ih, members_concat]
      | some k =>
          show Py.upsert Prod.fst (k, _) (gather key zero add xs).rows = _
          have hkeys : List.filterMap key [x] = [k] := by simp [hx]
          have hget : (((gather key zero add xs).get? k).map Prod.snd).getD zero
              = (members key k xs).foldl add zero := by
            unfold Table.get?
            rw [ih]
            by_cases hk : k ∈ xs.filterMap key
            · rw [find?_map (fun j => (members key j xs).foldl add zero) (mem_firsts.mpr hk)]
              rfl
            · have hnone : ((firsts (xs.filterMap key)).map fun j =>
                  (j, (members key j xs).foldl add zero)).find? (fun row => decide (row.1 = k))
                    = none := by
                refine List.find?_eq_none.mpr fun row hrow => ?_
                obtain ⟨j, hj, rfl⟩ := List.mem_map.mp hrow
                simp only [decide_eq_true_eq]
                rintro rfl
                exact hk (mem_firsts.mp hj)
              rw [hnone, members_eq_nil hk]
              rfl
          rw [hget, ih, upsert_map _ _ _ (nodup_firsts _), hkeys, firsts_concat]
          by_cases hk : k ∈ xs.filterMap key
          · rw [if_pos (mem_firsts.mpr hk), if_pos hk]
            refine List.map_congr_left fun j _ => ?_
            rw [members_concat, hx]
            by_cases hj : j = k
            · simp [hj]
            · simp [hj, Ne.symm hj]
          · rw [if_neg fun h => hk (mem_firsts.mp h), if_neg hk, List.map_append, List.map_cons,
              List.map_nil]
            congr 1
            · refine List.map_congr_left fun j hj => ?_
              have hne : ¬ k = j := fun h => hk (h ▸ mem_firsts.mp hj)
              rw [members_concat, hx]
              simp [hne]
            · rw [members_concat, hx]
              simp

/-- A loop with a state of its own that keeps one field this way. -/
theorem gather_of_step {σ : Type} {step : σ → α → σ} {field : σ → Table (Prod.fst : κ × β → κ)}
    (hstep : ∀ s x, field (step s x) = addTo key zero add (field s) x) (xs : List α) : ∀ {s : σ},
    field s = Table.empty → field (xs.foldl step s) = gather key zero add xs := by
  intro s hs
  unfold gather
  rw [← hs]
  exact (List.foldl_hom field fun s x => (hstep s x).symm).symm

/-- What the first of the rows with a key has is what `setdefault` leaves there. -/
theorem get?_setDefaults {ν : Type} {rowKey : ν → κ} {row : α → ν}
    (hrow : ∀ x k, key x = some k → rowKey (row x) = k) (xs : List α) :
    ((xs.foldl (fun t x => if (key x).isSome then t.setDefault (row x) else t)
        (Table.empty : Table rowKey)).get? k)
      = (members key k xs).head?.map row := by
  induction xs using List.reverseRecOn with
  | nil => rfl
  | append_singleton xs x ih =>
      rw [List.foldl_append, List.foldl_cons, List.foldl_nil, members_concat]
      cases hx : key x with
      | none => simp [ih]
      | some j =>
          rw [Option.isSome_some, if_pos rfl]
          generalize List.foldl _ _ xs = t at ih ⊢
          unfold Table.setDefault
          rw [hrow x j hx]
          by_cases hk : j = k
          · subst hk
            rw [ih, if_pos rfl, List.head?_append]
            cases hhead : (members key j xs).head? with
            | some first => simp [ih, hhead]
            | none => simp [← hrow x j hx]
          · have hne : k ≠ rowKey (row x) := fun h => hk (by rw [h, hrow x j hx])
            have hput : (if (t.get? j).isSome = true then t else t.put (row x)).get? k
                = t.get? k := by
              split
              · rfl
              · exact Table.get?_put_ne _ hne
            rw [hput, ih]
            simp [hk]

/-! ### Sums over the rows -/

theorem foldl_add [AddCommMonoid M] (f : α → M) (xs : List α) : ∀ total : M,
    xs.foldl (fun total x => total + f x) total = total + (xs.map f).sum := by
  induction xs with
  | nil => intro total; simp
  | cons x rest ih => intro total; rw [List.foldl_cons, ih, List.map_cons, List.sum_cons, add_assoc]

/-- A running total for each key. -/
theorem rows_totals [AddCommMonoid M] (f : α → M) (xs : List α) :
    (gather key 0 (fun total x => total + f x) xs).rows
      = (firsts (xs.filterMap key)).map fun k => (k, ((members key k xs).map f).sum) := by
  rw [rows_gather]
  refine List.map_congr_left fun k _ => ?_
  rw [foldl_add, zero_add]

/-- **Summing each group and then the groups is summing the list.** -/
theorem sum_members [AddCommMonoid M] (f : α → M) (xs : List α) :
    ((firsts (xs.filterMap key)).map fun k => ((members key k xs).map f).sum).sum
      = ((xs.filter fun x => (key x).isSome).map f).sum := by
  -- over any list that has every key once
  have hall : ∀ (ys : List α) (keys : List κ), keys.Nodup →
      (∀ x ∈ ys, ∀ k, key x = some k → k ∈ keys) →
      (keys.map fun k => ((members key k ys).map f).sum).sum
        = ((ys.filter fun x => (key x).isSome).map f).sum := by
    intro ys
    induction ys with
    | nil => intro keys _ _; simp [members]
    | cons x rest ih =>
        intro keys hnodup hkeys
        rw [List.forall_mem_cons] at hkeys
        have hsplit : ∀ k, ((members key k (x :: rest)).map f).sum
            = (if key x = some k then f x else 0) + ((members key k rest).map f).sum := by
          intro k
          unfold members
          by_cases hx : key x = some k <;> simp [hx]
        rw [List.map_congr_left fun k _ => hsplit k, List.sum_map_add, ih keys hnodup hkeys.2]
        cases hx : key x with
        | none => simp [hx]
        | some j =>
            have hone : (keys.map fun k => if some j = some k then f x else 0).sum = f x := by
              have hj : keys.filter (fun k => decide (some j = some k)) = [j] := by
                simp only [Option.some.injEq, eq_comm (a := j)]
                rw [List.filter_eq, List.count_eq_one_of_mem hnodup (hkeys.1 j hx)]
                rfl
              rw [List.sum_map_ite, hj]
              simp
            rw [hone]
            simp [hx]
  refine hall xs _ (nodup_firsts _) fun x hx k hkey => mem_firsts.mpr ?_
  exact List.mem_filterMap.mpr ⟨x, hx, hkey⟩

/-! ### Counters -/

/-- `Counter`. -/
def counter (keys : List κ) : Table (Prod.fst : κ × ℕ → κ) :=
  gather some 0 (fun n _ => n + 1) keys

theorem sum_ones (xs : List α) : (xs.map fun _ => 1).sum = xs.length := by
  rw [List.map_const', List.sum_replicate, smul_eq_mul, mul_one]

theorem length_members_some (keys : List κ) (k : κ) :
    (members some k keys).length = keys.count k := by
  rw [List.count_eq_length_filter]
  unfold members
  congr 2
  funext j
  simp [beq_eq_decide]

/-- A counter has how often each key occurs. -/
theorem rows_counter (keys : List κ) :
    (counter keys).rows = (firsts keys).map fun k => (k, keys.count k) := by
  unfold counter
  rw [rows_totals fun _ => 1, List.filterMap_some]
  refine List.map_congr_left fun k _ => ?_
  rw [sum_ones, length_members_some]

theorem sum_counter (keys : List κ) : ((counter keys).rows.map Prod.snd).sum = keys.length := by
  unfold counter
  rw [rows_totals fun _ => 1, List.map_map]
  show ((firsts (keys.filterMap some)).map fun k => ((members some k keys).map fun _ => 1).sum).sum
    = _
  rw [sum_members, sum_ones]
  simp

/-- Counting the keys of a list where they are met. -/
theorem counter_filterMap (xs : List α) :
    gather key 0 (fun n _ => n + 1) xs = counter (xs.filterMap key) := by
  refine Table.ext_rows ?_
  rw [rows_counter, rows_totals fun _ => 1]
  refine List.map_congr_left fun k _ => ?_
  rw [sum_ones, List.count_filterMap, List.countP_eq_length_filter]
  unfold members
  congr 3
  funext x
  rw [Bool.eq_iff_iff, decide_eq_true_eq, beq_iff_eq]

/-- `most_common()`: by count, and where counts are equal as they were. -/
def mostCommon (t : Table (Prod.fst : κ × ℕ → κ)) : List (κ × ℕ) :=
  t.rows.insertionSort fun a b => b.2 ≤ a.2

omit [DecidableEq κ] in
theorem perm_mostCommon (t : Table (Prod.fst : κ × ℕ → κ)) : (mostCommon t).Perm t.rows :=
  List.perm_insertionSort _ _

omit [DecidableEq κ] in
theorem pairwise_mostCommon (t : Table (Prod.fst : κ × ℕ → κ)) :
    (mostCommon t).Pairwise fun a b => b.2 ≤ a.2 := by
  have : Std.Total fun a b : κ × ℕ => b.2 ≤ a.2 := ⟨fun a b => le_total b.2 a.2⟩
  have : IsTrans (κ × ℕ) fun a b => b.2 ≤ a.2 := ⟨fun _ _ _ hab hbc => le_trans hbc hab⟩
  exact List.pairwise_insertionSort _ _

omit [DecidableEq κ] in
/-- Rows with one count stay in the order they were in. -/
theorem sublist_mostCommon {t : Table (Prod.fst : κ × ℕ → κ)} {a b : κ × ℕ} (hcount : b.2 ≤ a.2)
    (h : [a, b].Sublist t.rows) : [a, b].Sublist (mostCommon t) := by
  have : Std.Total fun a b : κ × ℕ => b.2 ≤ a.2 := ⟨fun a b => le_total b.2 a.2⟩
  have : IsTrans (κ × ℕ) fun a b => b.2 ≤ a.2 := ⟨fun _ _ _ hab hbc => le_trans hbc hab⟩
  exact List.pair_sublist_insertionSort hcount h

end Groups
