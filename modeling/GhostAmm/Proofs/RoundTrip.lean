/-
What the built-in YAML parser reads back.

Nothing the parser takes from a line has a comment sign or a character that breaks lines in it,
so every string it puts into a container is `Readable`, and `int` gives up on too many digits.  A
mapping with another string or a longer integer cannot come back, and every other mapping does
(`yaml_round_trip_iff`).
-/
import GhostAmm.Proofs.YamlRun

namespace GhostAmm

open Py (Json)

/-! ### Whatever is read comes from a line -/

/-- A scalar that can be read from a line. -/
def ReadableScalar : Json → Prop
  | .str text => Readable text.toList
  | .int value => value.natAbs < 10 ^ Py.maxStrDigits
  | .arr _ => False
  | .obj _ => False
  | _ => True

def YamlSlot.Clean (slot : YamlSlot) : Prop := ∀ value, slot = .value value → ReadableScalar value

def YamlCell.Clean : YamlCell → Prop
  | .dict fields => ∀ f ∈ fields, f.2.Clean
  | .list items => ∀ item ∈ items, ReadableScalar item

/-- Every scalar in the heap can be read from a line. -/
def CleanHeap (heap : List YamlCell) : Prop := ∀ cell ∈ heap, cell.Clean

theorem Readable.of_subset {front back : List Char} (h : Readable back)
    (hsub : ∀ c ∈ front, c ∈ back) : Readable front := fun c hc => h c (hsub c hc)

theorem readableScalar_str {text : List Char} :
    ReadableScalar (.str (String.ofList text)) ↔ Readable text := by
  show Readable (String.ofList text).toList ↔ _
  rw [String.toList_ofList]

theorem readableScalar_parseScalar (float : String → Option ℚ) {value : List Char}
    (h : Readable value) : ReadableScalar (parseScalar float value) := by
  have hinner : Readable value.tail.dropLast :=
    h.of_subset fun c hc => List.mem_of_mem_tail (List.mem_of_mem_dropLast hc)
  have hself : ReadableScalar (.str (String.ofList value)) := readableScalar_str.mpr h
  have hquoted := readableScalar_str.mpr hinner
  unfold parseScalar
  dsimp only
  split_ifs
  · exact hquoted
  · exact hquoted
  · trivial
  · trivial
  · trivial
  · cases float (String.ofList value) with
    | none => exact hself
    | some number => trivial
  · cases hnumber : Py.intOfText (String.ofList value) with
    | none => exact hself
    | some number => exact Py.natAbs_lt_of_intOfText hnumber

/-- A line loses its comment before anything else is read from it. -/
theorem readable_of_readLine {rawLine item : List Char} {indent : ℕ}
    (hraw : ∀ c ∈ rawLine, Py.isLineBreak c = false) (h : readLine rawLine = some (indent, item)) :
    Readable item := by
  unfold readLine at h
  dsimp only at h
  split_ifs at h
  obtain ⟨-, rfl⟩ := Prod.mk.inj (Option.some.inj h)
  intro c hc
  have hline := (List.rdropWhile_prefix _ _).subset (Py.mem_of_mem_strip hc)
  refine ⟨by simpa using List.mem_takeWhile_imp hline, hraw c ?_⟩
  exact (List.takeWhile_prefix _).subset hline

namespace CleanHeap

variable {heap : List YamlCell}

theorem concat (h : CleanHeap heap) {cell : YamlCell} (hcell : cell.Clean) :
    CleanHeap (heap ++ [cell]) := by
  intro other hother
  rcases List.mem_append.mp hother with hother | hother
  · exact h other hother
  · exact List.mem_singleton.mp hother ▸ hcell

theorem set (h : CleanHeap heap) {cell : YamlCell} (hcell : cell.Clean) (n : ℕ) :
    CleanHeap (heap.set n cell) := by
  intro other hother
  rcases List.mem_or_eq_of_mem_set hother with hother | rfl
  · exact h other hother
  · exact hcell

theorem cell (h : CleanHeap heap) {n : ℕ} {cell : YamlCell} (hcell : heap[n]? = some cell) :
    cell.Clean := h cell (List.mem_of_getElem? hcell)

theorem setKey (h : CleanHeap heap) {slot : YamlSlot} (hslot : slot.Clean) (mapping : ℕ)
    (key : String) : CleanHeap (YamlState.setKey heap mapping key slot) := by
  intro cell hcell
  obtain ⟨n, hn⟩ := List.mem_iff_getElem?.mp hcell
  by_cases hne : n = mapping
  · subst hne
    unfold YamlState.setKey at hn
    rw [List.getElem?_modify_eq] at hn
    obtain ⟨old, hold, rfl⟩ := Option.map_eq_some_iff.mp hn
    have hclean := h.cell hold
    cases old with
    | list items => exact hclean
    | dict fields =>
        intro f hf
        rcases Py.mem_of_mem_upsert hf with rfl | hf
        · exact hslot
        · exact hclean f hf
  · rw [YamlState.setKey_ne hne] at hn
    exact h.cell hn

end CleanHeap

theorem YamlSlot.clean_ref (cell : ℕ) : (YamlSlot.ref cell).Clean := by
  intro value h
  cases h

namespace YamlState

variable {float : String → Option ℚ} {state state' : YamlState} {rawLine item : List Char}

theorem openList_clean (h : CleanHeap state.heap) (indent : ℤ) :
    CleanHeap (state.openList indent).heap := by
  have hempty : (YamlCell.list []).Clean := fun _ hmem => absurd hmem List.not_mem_nil
  unfold openList
  rcases state.pendingKey with _ | ⟨pendingIndent, mapping, key⟩
  · exact h
  · dsimp only
    split_ifs
    · exact (h.setKey (YamlSlot.clean_ref _) mapping key).concat hempty
    · exact h

theorem listItem_clean {indent : ℤ} (h : CleanHeap state.heap) (hitem : Readable item)
    (hok : state.listItem float rawLine indent item = .ok state') : CleanHeap state'.heap := by
  have hopened := state.openList_clean h indent
  have hscalar : ReadableScalar (parseScalar float (Py.strip (item.drop 2))) :=
    readableScalar_parseScalar float
      (hitem.of_subset fun c hc => List.mem_of_mem_drop (Py.mem_of_mem_strip hc))
  unfold listItem at hok
  dsimp only at hok
  split at hok
  case h_1 items hcell =>
    obtain rfl := Except.ok.inj hok
    refine hopened.set (fun value hvalue => ?_) _
    rcases List.mem_append.mp hvalue with hvalue | hvalue
    · exact hopened.cell hcell value hvalue
    · exact List.mem_singleton.mp hvalue ▸ hscalar
  case h_2 => cases hok

theorem mappingItem_clean {indent : ℤ} (h : CleanHeap state.heap) (hitem : Readable item)
    (hok : state.mappingItem float rawLine indent item = .ok state') : CleanHeap state'.heap := by
  have hempty : (YamlCell.dict []).Clean := fun _ hmem => absurd hmem List.not_mem_nil
  have hvalue : Readable (Py.strip ((item.dropWhile fun c => decide (c ≠ ':')).drop 1)) :=
    hitem.of_subset fun c hc => (List.dropWhile_sublist _).subset
      (List.mem_of_mem_drop (Py.mem_of_mem_strip hc))
  unfold mappingItem at hok
  dsimp only at hok
  split at hok
  · cases hok
  · split at hok
    case h_1 =>
      split_ifs at hok
      · obtain rfl := Except.ok.inj hok
        exact (h.setKey (YamlSlot.clean_ref _) _ _).concat hempty
      · obtain rfl := Except.ok.inj hok
        refine h.setKey (fun value hslot => ?_) _ _
        obtain rfl := YamlSlot.value.inj hslot
        exact readableScalar_parseScalar float hvalue
    case h_2 => cases hok

theorem parseLine_clean (h : CleanHeap state.heap)
    (hraw : ∀ c ∈ rawLine, Py.isLineBreak c = false)
    (hok : state.parseLine float rawLine = .ok state') : CleanHeap state'.heap := by
  unfold parseLine at hok
  split at hok
  · exact Except.ok.inj hok ▸ h
  · rename_i indent item hline
    have hitem := readable_of_readLine hraw hline
    have hpopped : CleanHeap { state with stack := state.popTo indent }.heap := h
    dsimp only at hok
    split_ifs at hok
    · exact listItem_clean hpopped hitem hok
    · exact mappingItem_clean hpopped hitem hok

theorem foldlM_clean : ∀ {lines : List (List Char)} {state : YamlState},
    (∀ line ∈ lines, ∀ c ∈ line, Py.isLineBreak c = false) → CleanHeap state.heap →
    lines.foldlM (parseLine float) state = .ok state' → CleanHeap state'.heap := by
  intro lines
  induction lines with
  | nil =>
      intro state _ h hok
      exact Except.ok.inj hok ▸ h
  | cons line rest ih =>
      intro state hlines h hok
      rw [List.foldlM_cons] at hok
      cases hline : state.parseLine float line with
      | error e =>
          rw [hline] at hok
          cases hok
      | ok middle =>
          rw [hline] at hok
          exact ih (fun l hl => hlines l (List.mem_cons_of_mem _ hl))
            (parseLine_clean h (hlines line List.mem_cons_self) hline) hok

end YamlState

theorem YamlScalar.readable_of_toJson {scalar : YamlScalar} (h : ReadableScalar scalar.toJson) :
    scalar.Readable := by
  cases scalar with
  | str value => exact readableScalar_str.mp h
  | int value => exact h
  | _ => trivial

section Read

variable {heap : List YamlCell}

/-- What can be read from a slot. -/
theorem readSlot_cases (heap : List YamlCell) (steps : ℕ) (slot : YamlSlot) :
    slot = .value (readSlot heap steps slot) ∨ readSlot heap steps slot = .null ∨
      (∃ items : List Json, .list items ∈ heap ∧ readSlot heap steps slot = .arr items) ∨
      ∃ (slots : List (String × YamlSlot)) (m : ℕ), .dict slots ∈ heap ∧
        readSlot heap steps slot = .obj (slots.map fun f => (f.1, readSlot heap m f.2)) := by
  cases slot with
  | value value =>
      left
      cases steps <;> rfl
  | ref cell =>
      right
      cases steps with
      | zero => exact Or.inl rfl
      | succ m =>
          rw [readSlot]
          cases hcell : heap[cell]? with
          | none => exact Or.inl rfl
          | some found =>
              have hmem := List.mem_of_getElem? hcell
              cases found with
              | dict slots => exact Or.inr (Or.inr ⟨slots, m, hmem, rfl⟩)
              | list items => exact Or.inr (Or.inl ⟨items, hmem, rfl⟩)

/-- A scalar is no container. -/
theorem YamlScalar.toJson_ne (scalar : YamlScalar) :
    (∀ items, scalar.toJson ≠ .arr items) ∧ ∀ fields, scalar.toJson ≠ .obj fields := by
  cases scalar <;> exact ⟨fun _ h => Json.noConfusion h, fun _ h => Json.noConfusion h⟩

mutual

/-- A value that is read from a clean heap has only scalars that can be read. -/
theorem YamlValue.readable_of_read (hclean : CleanHeap heap) : ∀ (value : YamlValue)
    {steps : ℕ} {slot : YamlSlot}, slot.Clean → readSlot heap steps slot = value.toJson →
      ∀ scalar ∈ value.scalars, scalar.Readable
  | .scalar scalar, steps, slot, hslot, h => by
      obtain ⟨harr, hobj⟩ := scalar.toJson_ne
      rw [YamlValue.scalars, List.forall_mem_singleton]
      have hread := readSlot_cases heap steps slot
      rw [h] at hread
      rcases hread with hvalue | hnull | ⟨items, -, hitems⟩ | ⟨slots, m, -, hslots⟩
      · exact YamlScalar.readable_of_toJson (hslot _ hvalue)
      · have hscalar : scalar.toJson = .null := hnull
        refine YamlScalar.readable_of_toJson ?_
        rw [hscalar]
        trivial
      · exact absurd hitems (harr items)
      · exact absurd hslots (hobj _)
  | .list first rest, steps, slot, hslot, h => by
      have hread := readSlot_cases heap steps slot
      rw [h] at hread
      rcases hread with hvalue | hnull | ⟨items, hmem, hitems⟩ | ⟨slots, m, -, hslots⟩
      · exact (hslot _ hvalue).elim
      · exact Json.noConfusion hnull
      · intro scalar hscalar
        have hitem : scalar.toJson ∈ items := by
          rw [← Json.arr.inj hitems]
          exact List.mem_map_of_mem hscalar
        exact YamlScalar.readable_of_toJson (hclean _ hmem _ hitem)
      · exact Json.noConfusion hslots
  | .mapping fields, steps, slot, hslot, h => by
      have hread := readSlot_cases heap steps slot
      rw [h] at hread
      rcases hread with hvalue | hnull | ⟨items, -, hitems⟩ | ⟨slots, m, hmem, hslots⟩
      · exact (hslot _ hvalue).elim
      · exact Json.noConfusion hnull
      · exact Json.noConfusion hitems
      · exact YamlFields.readable_of_read hclean fields (hclean _ hmem)
          (Json.obj.inj hslots).symm

theorem YamlFields.readable_of_read (hclean : CleanHeap heap) : ∀ (fields : YamlFields)
    {steps : ℕ} {slots : List (String × YamlSlot)}, (∀ f ∈ slots, f.2.Clean) →
    (slots.map fun f => (f.1, readSlot heap steps f.2)) = fields.toJson →
      ∀ scalar ∈ fields.scalars, scalar.Readable
  | .nil, steps, slots, _, _ => fun scalar hscalar => absurd hscalar List.not_mem_nil
  | .cons key value rest, steps, slots, hslots, h => by
      cases slots with
      | nil => exact absurd h (List.cons_ne_nil _ _).symm
      | cons f more =>
          obtain ⟨hfield, hmore⟩ := List.cons.inj h
          intro scalar hscalar
          rcases List.mem_append.mp hscalar with hscalar | hscalar
          · exact YamlValue.readable_of_read hclean value (hslots f List.mem_cons_self)
              (congrArg Prod.snd hfield) scalar hscalar
          · exact YamlFields.readable_of_read hclean rest
              (fun g hg => hslots g (List.mem_cons_of_mem _ hg)) hmore scalar hscalar

end

end Read

/-- A mapping that is read back has only scalars that can be read. -/
theorem readable_of_parse {float : String → Option ℚ} {text : List Char} {fields : YamlFields}
    (h : parseSimpleYaml float text = .ok (.obj fields.toJson)) :
    ∀ scalar ∈ fields.scalars, scalar.Readable := by
  unfold parseSimpleYaml at h
  cases hrun : (Py.splitLines text).foldlM (YamlState.parseLine float) YamlState.init with
  | error e =>
      rw [hrun] at h
      cases h
  | ok finish =>
      rw [hrun] at h
      have hstart : CleanHeap YamlState.init.heap := by
        intro cell hcell
        rw [List.mem_singleton.mp hcell]
        exact fun f hf => absurd hf List.not_mem_nil
      have hclean := YamlState.foldlM_clean (Py.mem_splitLines text) hstart hrun
      have hread : readSlot finish.heap finish.heap.length (.ref 0) = .obj fields.toJson :=
        Except.ok.inj h
      exact YamlValue.readable_of_read hclean (.mapping fields) (YamlSlot.clean_ref 0) hread

/-- **A mapping that is written as block YAML is read back just when its strings have no comment
sign and no character in them at which a line ends, and its integers no more digits than `int`
takes.** -/
theorem yaml_round_trip_iff (float : String → Option ℚ) (mapping : YamlMapping) :
    parseSimpleYaml float mapping.render = .ok (.obj mapping.fields.toJson) ↔
      ∀ scalar ∈ mapping.fields.scalars, scalar.Readable :=
  ⟨readable_of_parse, parse_render float mapping⟩

/-- A string with a comment sign. -/
def commentedString : YamlString where
  text := ['x', '#', 'y']
  quotable := by simp

/-- The key `a`. -/
def keyA : YamlKey where
  text := ['a']
  ne_nil := List.cons_ne_nil _ _
  plain := by
    intro c hc
    rw [List.mem_singleton.mp hc]
    exact ⟨rfl, by decide, by decide⟩

/-- A mapping with the string under the key. -/
def commentedMapping : YamlMapping where
  fields := .cons keyA (.scalar (.str commentedString)) .nil
  nodup := List.nodup_singleton _
  distinct := ⟨trivial, trivial⟩

/-- What stands before the comment sign is read as a string that is never closed. -/
theorem round_trip_loses_comment :
    commentedMapping.render = ['a', ':', ' ', '"', 'x', '#', 'y', '"', '\n'] ∧
      parseSimpleYaml (fun _ => none) commentedMapping.render = .ok (.obj [("a", .str "\"x")]) ∧
      parseSimpleYaml (fun _ => none) commentedMapping.render
        ≠ .ok (.obj commentedMapping.fields.toJson) := by
  have hparse : parseSimpleYaml (fun _ => none) commentedMapping.render
      = .ok (.obj [("a", .str "\"x")]) := rfl
  have hfields : commentedMapping.fields.toJson = [("a", .str "x#y")] := rfl
  refine ⟨rfl, hparse, ?_⟩
  rw [hparse, hfields]
  simp

end GhostAmm
