/-
Which defaults stay in force.

A key of the user's that the defaults do not have is added, one that they do have is merged, and
the others keep their default (`lookup_deepMerge`).  Along the path to a default leaf this goes on
for as long as the user's tree has dictionaries there.  Where it ends the default stays, and where
it has something else the whole section is gone, leaf and all.

Merging twice is merging once.  The merged tree has the keys of the defaults, each with its merged
value, and then the user's own, which is the same list however often it is done
(`deepMerge_eq`).
-/
import GhostAmm.Model.ConfigData

namespace GhostAmm

open Py (Json)

/-! ### One level -/

theorem mergeValue_none (value : Json) : mergeValue none value = value := by
  cases value <;> simp [mergeValue]

theorem mergeValue_of_not_isDict (old : Option Json) {value : Json} (h : value.isDict = false) :
    mergeValue old value = value := by
  cases value <;> simp [Json.isDict] at h <;> simp [mergeValue]

theorem mergeValue_obj_obj (base override : List (String × Json)) :
    mergeValue (some (.obj base)) (.obj override) = .obj (deepMerge base override) := by
  simp [mergeValue]

theorem mergeValue_some_of_not_isDict {old : Json} (h : old.isDict = false) (value : Json) :
    mergeValue (some old) value = value := by
  cases old <;> simp [Json.isDict] at h <;> cases value <;> simp [mergeValue]

theorem lookup_deepMerge (key : String) : ∀ (override base : List (String × Json)),
    (override.map Prod.fst).Nodup →
      Json.lookup (deepMerge base override) key
        = ((Json.lookup override key).map (mergeValue (Json.lookup base key))).or
            (Json.lookup base key) := by
  intro override
  induction override with
  | nil => intro base _; simp [deepMerge, Json.lookup]
  | cons f rest ih =>
      intro base hkeys
      obtain ⟨k, value⟩ := f
      rw [List.map_cons, List.nodup_cons] at hkeys
      rw [deepMerge, ih _ hkeys.2, Json.lookup_cons, Json.lookup_upsert]
      by_cases hk : key = k
      · subst hk
        have hrest : Json.lookup rest key = none := Json.lookup_eq_none_iff.mpr hkeys.1
        simp [hrest]
      · simp [hk, Ne.symm hk]

/-! ### Along a path -/

/-- Where the user's tree has something on the way along a path, it has a dictionary. -/
def SectionsMerge (user : Json) (path : List String) : Prop :=
  ∀ front back value, path = front ++ back → back ≠ [] → user.at? front = some value →
    value.isDict = true

theorem sectionsMerge_nil (user : Json) : SectionsMerge user [] := by
  intro front back value hpath hback
  exact absurd (List.append_eq_nil_iff.mp hpath.symm).2 hback

theorem sectionsMerge_cons (fields : List (String × Json)) (key : String) (rest : List String) :
    SectionsMerge (.obj fields) (key :: rest) ↔
      ∀ value, Json.lookup fields key = some value → SectionsMerge value rest := by
  constructor
  · intro h value hvalue front back found hpath hback hfound
    refine h (key :: front) back found (by rw [hpath]; rfl) hback ?_
    rw [Json.at?_obj_cons, hvalue]
    exact hfound
  · intro h front back found hpath hback hfound
    cases front with
    | nil =>
        rw [Json.at?_nil] at hfound
        exact Option.some.inj hfound ▸ rfl
    | cons k front =>
        obtain ⟨rfl, rfl⟩ := List.cons.inj hpath
        rw [Json.at?_obj_cons] at hfound
        obtain ⟨value, hvalue, hfound⟩ := Option.bind_eq_some_iff.mp hfound
        exact h value hvalue front back found rfl hback hfound

/-- Something other than a dictionary ends every path. -/
theorem sectionsMerge_of_not_isDict {value : Json} (h : value.isDict = false) (path : List String) :
    SectionsMerge value path ↔ path = [] := by
  constructor
  · intro hsections
    by_contra hpath
    have hdict := hsections [] path value rfl hpath (Json.at?_nil value)
    rw [h] at hdict
    exact absurd hdict (by decide)
  · rintro rfl
    exact sectionsMerge_nil value

/-- **Along the path to a leaf of the base**, the merged tree has the override's value or else the
leaf as long as sections are merged, and nothing otherwise. -/
theorem at?_deepMerge {leaf : Json} (hleaf : leaf.isDict = false) : ∀ (path : List String)
    (base override : List (String × Json)), (Json.obj override).all Json.distinctKeys = true →
    path ≠ [] → (Json.obj base).at? path = some leaf →
      (SectionsMerge (.obj override) path → (Json.obj (deepMerge base override)).at? path
        = some (((Json.obj override).at? path).getD leaf)) ∧
      (¬ SectionsMerge (.obj override) path →
        (Json.obj (deepMerge base override)).at? path = none ∧
          (Json.obj override).at? path = none) := by
  intro path
  induction path with
  | nil => intro base override _ hpath; exact absurd rfl hpath
  | cons key rest ih =>
      intro base override hdistinct _ hbase
      obtain ⟨hkeys, hfields⟩ := Json.all_obj_iff.mp hdistinct
      have hkeys : (override.map Prod.fst).Nodup := of_decide_eq_true hkeys
      rw [Json.at?_obj_cons] at hbase
      obtain ⟨old, hold, hrest⟩ := Option.bind_eq_some_iff.mp hbase
      rw [sectionsMerge_cons, Json.at?_obj_cons, Json.at?_obj_cons, lookup_deepMerge key _ _ hkeys,
        hold]
      cases hvalue : Json.lookup override key with
      | none =>
          -- the override says nothing from here on
          simp [hrest]
      | some value =>
          simp only [Option.map_some, Option.some_or, Option.bind_some, Option.some.injEq,
            forall_eq']
          cases hvalueDict : value.isDict with
          | false =>
              -- it ends here, with a leaf or in place of a section
              rw [mergeValue_of_not_isDict _ hvalueDict, sectionsMerge_of_not_isDict hvalueDict]
              cases rest with
              | nil => simp
              | cons k rest => simp [Json.at?_cons_of_not_isDict hvalueDict]
          | true =>
              cases holdDict : old.isDict with
              | false =>
                  cases rest with
                  | nil => simp [mergeValue_some_of_not_isDict holdDict, sectionsMerge_nil]
                  | cons k rest => simp [Json.at?_cons_of_not_isDict holdDict] at hrest
              | true =>
                  obtain ⟨below, rfl⟩ := Json.isDict_iff.mp holdDict
                  obtain ⟨above, rfl⟩ := Json.isDict_iff.mp hvalueDict
                  have hne : rest ≠ [] := by
                    rintro rfl
                    rw [Json.at?_nil] at hrest
                    obtain rfl := Option.some.inj hrest
                    simp [Json.isDict] at hleaf
                  rw [mergeValue_obj_obj]
                  exact ih below above (hfields _ (Json.mem_of_lookup hvalue)) hne hrest

/-! ### Merging twice -/

/-- What the merged tree has for a field of the base. -/
def mergedField (override : List (String × Json)) (f : String × Json) : String × Json :=
  (f.1, ((Json.lookup override f.1).map (mergeValue (some f.2))).getD f.2)

theorem map_fst_mergedField (override base : List (String × Json)) :
    (base.map (mergedField override)).map Prod.fst = base.map Prod.fst := by
  rw [List.map_map]
  rfl

section Step

variable {key : String} {value : Json} {rest base : List (String × Json)}

/-- A field the base has is replaced where it stands, and not touched again. -/
theorem map_mergedField_of_mem (hrest : key ∉ rest.map Prod.fst) (hbase : (base.map Prod.fst).Nodup)
    (hkey : key ∈ base.map Prod.fst) :
    (Py.upsert Prod.fst (key, mergeValue (Json.lookup base key) value) base).map (mergedField rest)
      = base.map (mergedField ((key, value) :: rest)) := by
  have hnone : Json.lookup rest key = none := Json.lookup_eq_none_iff.mpr hrest
  rw [Py.upsert_of_mem _ hbase hkey, List.map_map]
  refine List.map_congr_left fun g hg => ?_
  by_cases hgkey : g.1 = key
  · have hlookup := Json.lookup_of_mem hbase hg
    rw [hgkey] at hlookup
    simp [mergedField, hgkey, hnone, hlookup, Json.lookup_cons]
  · simp [mergedField, hgkey, Json.lookup_cons, Ne.symm hgkey]

/-- A new field is put at the end as it is. -/
theorem map_mergedField_of_notMem (hrest : key ∉ rest.map Prod.fst)
    (hkey : key ∉ base.map Prod.fst) :
    (base ++ [(key, value)]).map (mergedField rest)
      = base.map (mergedField ((key, value) :: rest)) ++ [(key, value)] := by
  have hnone : Json.lookup rest key = none := Json.lookup_eq_none_iff.mpr hrest
  rw [List.map_append]
  congr 1
  · refine List.map_congr_left fun g hg => ?_
    have hne : ¬ key = g.1 := fun h => hkey (h ▸ List.mem_map_of_mem hg)
    simp [mergedField, Json.lookup_cons, hne]
  · simp [mergedField, hnone]

end Step

/-- The merged tree has the fields of the base, and then those that are new. -/
theorem deepMerge_eq : ∀ (override base : List (String × Json)), (override.map Prod.fst).Nodup →
    (base.map Prod.fst).Nodup → deepMerge base override = base.map (mergedField override) ++
      override.filter fun f => decide (f.1 ∉ base.map Prod.fst) := by
  intro override
  induction override with
  | nil =>
      intro base _ _
      have hsame : base.map (mergedField []) = base :=
        (List.map_congr_left fun f _ => rfl).trans (List.map_id base)
      rw [hsame, List.filter_nil, List.append_nil, deepMerge]
  | cons f rest ih =>
      intro base hoverride hbase
      obtain ⟨key, value⟩ := f
      rw [List.map_cons, List.nodup_cons] at hoverride
      rw [deepMerge]
      by_cases hkey : key ∈ base.map Prod.fst
      · have hkeys := @Py.map_upsert _ _ _ Prod.fst
          ((key, mergeValue (Json.lookup base key) value) : String × Json) base
        rw [if_pos hkey] at hkeys
        rw [ih _ hoverride.2 (hkeys ▸ hbase), hkeys, List.filter_cons_of_neg (by simpa using hkey),
          map_mergedField_of_mem hoverride.1 hbase hkey]
      · have hnone : Json.lookup base key = none := Json.lookup_eq_none_iff.mpr hkey
        have hkeys : ((base ++ [(key, value)]).map Prod.fst).Nodup := by
          rw [List.map_append]
          exact List.Nodup.append hbase (List.nodup_singleton key)
            (List.disjoint_singleton.mpr hkey)
        have hfilter : (rest.filter fun g => decide (g.1 ∉ (base ++ [(key, value)]).map Prod.fst))
            = rest.filter fun g => decide (g.1 ∉ base.map Prod.fst) := by
          refine List.filter_congr fun g hg => ?_
          have hmem : g.1 ∈ rest.map Prod.fst := List.mem_map_of_mem hg
          have hne : g.1 ≠ key := fun h => hoverride.1 (h ▸ hmem)
          simp [hne]
        rw [Py.upsert_of_notMem _ hkey, hnone, mergeValue_none, ih _ hoverride.2 hkeys, hfilter,
          map_mergedField_of_notMem hoverride.1 hkey, List.append_assoc,
          List.filter_cons_of_pos (by simpa using hkey)]
        rfl

/-- The merged tree has each key once. -/
theorem nodup_deepMerge {override base : List (String × Json)}
    (hoverride : (override.map Prod.fst).Nodup) (hbase : (base.map Prod.fst).Nodup) :
    ((deepMerge base override).map Prod.fst).Nodup := by
  rw [deepMerge_eq override base hoverride hbase, List.map_append, map_fst_mergedField]
  refine List.Nodup.append hbase (hoverride.sublist (List.filter_sublist.map _)) ?_
  intro key hold hnew
  obtain ⟨f, hf, rfl⟩ := List.mem_map.mp hnew
  exact of_decide_eq_true (List.mem_filter.mp hf).2 hold

/-- A dictionary is merged twice as it is once if the values under its keys are. -/
theorem deepMerge_deepMerge {override base : List (String × Json)}
    (hoverride : (override.map Prod.fst).Nodup) (hbase : (base.map Prod.fst).Nodup)
    (hvalues : ∀ f ∈ base, mergeValue (some f.2) (mergedField override f).2
      = (mergedField override f).2) :
    deepMerge base (deepMerge base override) = deepMerge base override := by
  have hmap : base.map (mergedField (deepMerge base override))
      = base.map (mergedField override) := by
    refine List.map_congr_left fun f hf => ?_
    have hlookup : Json.lookup (deepMerge base override) f.1 = some (mergedField override f).2 := by
      rw [lookup_deepMerge _ _ _ hoverride, Json.lookup_of_mem hbase hf]
      unfold mergedField
      cases Json.lookup override f.1 <;> rfl
    have hvalue := hvalues f hf
    rw [mergedField, hlookup]
    exact Prod.ext rfl hvalue
  have hfilter : ((deepMerge base override).filter fun f => decide (f.1 ∉ base.map Prod.fst))
      = override.filter fun f => decide (f.1 ∉ base.map Prod.fst) := by
    have hnone : ((base.map (mergedField override)).filter
        fun f => decide (f.1 ∉ base.map Prod.fst)) = [] := by
      refine List.filter_eq_nil_iff.mpr fun f hf => ?_
      have hmem : f.1 ∈ base.map Prod.fst := by
        rw [← map_fst_mergedField override base]
        exact List.mem_map_of_mem hf
      simpa using hmem
    rw [deepMerge_eq override base hoverride hbase, List.filter_append, hnone, List.nil_append,
      List.filter_filter]
    simp
  rw [deepMerge_eq _ base (nodup_deepMerge hoverride hbase) hbase, hmap, hfilter,
    ← deepMerge_eq override base hoverride hbase]

/-- A dictionary merged into itself is itself if the values under its keys are. -/
theorem deepMerge_self {base : List (String × Json)} (hbase : (base.map Prod.fst).Nodup)
    (hvalues : ∀ f ∈ base, mergeValue (some f.2) f.2 = f.2) : deepMerge base base = base := by
  have hmap : base.map (mergedField base) = base := by
    refine (List.map_congr_left fun f hf => ?_).trans (List.map_id base)
    unfold mergedField
    rw [Json.lookup_of_mem hbase hf]
    exact Prod.ext rfl (hvalues f hf)
  have hfilter : (base.filter fun f => decide (f.1 ∉ base.map Prod.fst)) = [] := by
    refine List.filter_eq_nil_iff.mpr fun f hf => ?_
    have hmem : f.1 ∈ base.map Prod.fst := List.mem_map_of_mem hf
    simpa using hmem
  rw [deepMerge_eq base base hbase hbase, hmap, hfilter, List.append_nil]

/-- Merging with itself changes nothing, and merging twice is merging once. -/
theorem mergeValue_twice (old : Json) (hold : old.all Json.distinctKeys = true) :
    mergeValue (some old) old = old ∧ ∀ value : Json, value.all Json.distinctKeys = true →
      mergeValue (some old) (mergeValue (some old) value) = mergeValue (some old) value := by
  cases hdict : old.isDict with
  | false =>
      exact ⟨mergeValue_some_of_not_isDict hdict old, fun value _ => by
        rw [mergeValue_some_of_not_isDict hdict, mergeValue_some_of_not_isDict hdict]⟩
  | true =>
      obtain ⟨base, heq⟩ := Json.isDict_iff.mp hdict
      obtain ⟨hkeys, hfields⟩ := Json.all_obj_iff.mp (heq ▸ hold)
      have hbase : (base.map Prod.fst).Nodup := of_decide_eq_true hkeys
      have ih : ∀ f ∈ base, mergeValue (some f.2) f.2 = f.2 ∧
          ∀ value : Json, value.all Json.distinctKeys = true →
            mergeValue (some f.2) (mergeValue (some f.2) value) = mergeValue (some f.2) value :=
        fun f hf => mergeValue_twice f.2 (hfields f hf)
      subst heq
      have htwice : ∀ override : List (String × Json),
          (Json.obj override).all Json.distinctKeys = true →
            deepMerge base (deepMerge base override) = deepMerge base override := by
        intro override hoverride
        obtain ⟨hoverrideKeys, hvalues⟩ := Json.all_obj_iff.mp hoverride
        refine deepMerge_deepMerge (of_decide_eq_true hoverrideKeys) hbase fun f hf => ?_
        unfold mergedField
        cases hlookup : Json.lookup override f.1 with
        | none => exact (ih f hf).1
        | some value => exact (ih f hf).2 value (hvalues _ (Json.mem_of_lookup hlookup))
      refine ⟨?_, fun value hvalue => ?_⟩
      · rw [mergeValue_obj_obj, deepMerge_self hbase fun f hf => (ih f hf).1]
      · cases hvalueDict : value.isDict with
        | false => rw [mergeValue_of_not_isDict _ hvalueDict, mergeValue_of_not_isDict _ hvalueDict]
        | true =>
            obtain ⟨override, rfl⟩ := Json.isDict_iff.mp hvalueDict
            rw [mergeValue_obj_obj, mergeValue_obj_obj, htwice override hvalue]
termination_by sizeOf old
decreasing_by
  have hlt := List.sizeOf_lt_of_mem hf
  obtain ⟨key, value⟩ := f
  simp only [heq, Prod.mk.sizeOf_spec, Json.obj.sizeOf_spec] at hlt ⊢
  omega

/-! ### The defaults -/

theorem distinctKeys_defaultConfig : (Json.obj defaultConfig).all Json.distinctKeys = true := by
  decide +kernel

/-- No default is null. -/
theorem ne_null_of_default {path : List String} {leaf : Json}
    (h : (Json.obj defaultConfig).at? path = some leaf) : leaf ≠ .null := by
  have hall : (Json.obj defaultConfig).all (fun value => decide (value.typeName ≠ "NoneType"))
      = true := by decide +kernel
  rintro rfl
  exact absurd (Json.all_root (Json.all_at hall h)) (by decide)

theorem keysOf_ne_nil (path : String) : ConfigData.keysOf path ≠ [] := by
  unfold ConfigData.keysOf
  rw [ne_eq, List.map_eq_nil_iff]
  exact List.splitOn_ne_nil _ _

/--
**A default is in force unless it is overridden exactly where the user's tree has no section on
the way that is something else than a dictionary.**  The configuration of a configuration is
always that configuration.
-/
theorem default_in_force_iff (user : UserTree) {path : String} {leaf : Json}
    (hdefault : (Json.obj defaultConfig).at? (ConfigData.keysOf path) = some leaf)
    (hleaf : leaf.isDict = false) :
    ((ConfigData.ofUser (some user.fields)).get path
        = ((Json.obj user.fields).at? (ConfigData.keysOf path)).getD leaf ↔
      SectionsMerge (.obj user.fields) (ConfigData.keysOf path)) ∧
    (ConfigData.ofUser (some (ConfigData.ofUser (some user.fields)).data)).data
      = (ConfigData.ofUser (some user.fields)).data := by
  obtain ⟨hmerged, hlost⟩ := at?_deepMerge hleaf (ConfigData.keysOf path) defaultConfig
    user.fields user.distinct (keysOf_ne_nil path) hdefault
  unfold ConfigData.get ConfigData.ofUser
  simp only [Option.getD_some]
  constructor
  · constructor
    · intro hget
      by_contra hsections
      obtain ⟨hnone, huser⟩ := hlost hsections
      rw [hnone, huser] at hget
      exact ne_null_of_default hdefault hget.symm
    · intro hsections
      rw [hmerged hsections, Option.getD_some]
  · have htwice := (mergeValue_twice _ distinctKeys_defaultConfig).2 _ user.distinct
    rw [mergeValue_obj_obj, mergeValue_obj_obj] at htwice
    exact Json.obj.inj htwice

theorem default_in_force_iff_empty_section :
    ((ConfigData.ofUser (some [("risk", .obj [])])).get "risk.max_same_side_fills_per_window"
        = ((Json.obj [("risk", .obj [])]).at?
            (ConfigData.keysOf "risk.max_same_side_fills_per_window")).getD (.int 3) ↔
      SectionsMerge (.obj [("risk", .obj [])])
        (ConfigData.keysOf "risk.max_same_side_fills_per_window")) ∧
    (ConfigData.ofUser (some (ConfigData.ofUser (some [("risk", .obj [])])).data)).data
      = (ConfigData.ofUser (some [("risk", .obj [])])).data :=
  default_in_force_iff ⟨[("risk", .obj [])], by decide⟩ rfl rfl

/-- With an empty section read as null, a gate of the risk kernel loses its limit. -/
theorem default_lost_to_null :
    (Json.obj defaultConfig).at? (ConfigData.keysOf "risk.max_same_side_fills_per_window")
        = some (.int 3) ∧
      (ConfigData.ofUser (some [("risk", .null)])).get "risk.max_same_side_fills_per_window"
        = .null ∧
      (ConfigData.ofUser (some [("risk", .null)])).get "risk.max_same_side_fills_per_window"
        ≠ ((Json.obj [("risk", .null)]).at?
            (ConfigData.keysOf "risk.max_same_side_fills_per_window")).getD (.int 3) :=
  ⟨rfl, rfl, fun h => Json.noConfusion (show Json.null = .int 3 from h)⟩

end GhostAmm
