/-
Reading block YAML.

Reading the lines of a mapping adds its fields to the dictionary that is open at their
indentation, touches no other container that was there, and leaves the stack as it was up to
entries the next line pops (`Reads`).  That is shown for a field of each kind, and from it for
any number of fields.  Where the containers of a value are is `At`: they are in the stretch of
the heap its lines have added, so later lines leave them alone.
-/
import GhostAmm.Proofs.BlockYaml

namespace GhostAmm

open Py (Json)

/-! ### Values in the heap -/

mutual

/-- A value is in a slot, and its containers are in a stretch of the heap. -/
def YamlValue.At (heap : List YamlCell) (lo hi : ℕ) : YamlValue → YamlSlot → Prop
  | .scalar scalar, slot => slot = .value scalar.toJson
  | .list first rest, slot => ∃ cell, slot = .ref cell ∧ lo ≤ cell ∧ cell < hi ∧
      heap[cell]? = some (.list ((first :: rest).map YamlScalar.toJson))
  | .mapping fields, slot => ∃ cell slots, slot = .ref cell ∧ lo ≤ cell ∧ cell < hi ∧
      heap[cell]? = some (.dict slots) ∧ fields.At heap (cell + 1) hi slots

/-- The fields of a mapping are under its keys. -/
def YamlFields.At (heap : List YamlCell) (lo hi : ℕ) :
    YamlFields → List (String × YamlSlot) → Prop
  | .nil, slots => slots = []
  | .cons key value rest, slots => ∃ slot more, slots = (key.name, slot) :: more ∧
      value.At heap lo hi slot ∧ rest.At heap lo hi more

end

section Frame

variable {heap heap' : List YamlCell} {hi hi' : ℕ}

mutual

/-- A value stays where it is as long as its stretch of the heap does. -/
theorem YamlValue.At.frame : ∀ (value : YamlValue) {lo lo' : ℕ} {slot : YamlSlot},
    (∀ cell, lo ≤ cell → cell < hi → heap'[cell]? = heap[cell]?) → lo' ≤ lo → hi ≤ hi' →
    value.At heap lo hi slot → value.At heap' lo' hi' slot
  | .scalar scalar, lo, lo', slot, _, _, _, h => h
  | .list first rest, lo, lo', slot, hsame, hlo, hhi, h => by
      obtain ⟨cell, hslot, hle, hlt, hcell⟩ := h
      exact ⟨cell, hslot, hlo.trans hle, hlt.trans_le hhi, (hsame cell hle hlt).trans hcell⟩
  | .mapping fields, lo, lo', slot, hsame, hlo, hhi, h => by
      obtain ⟨cell, slots, hslot, hle, hlt, hcell, hfields⟩ := h
      refine ⟨cell, slots, hslot, hlo.trans hle, hlt.trans_le hhi,
        (hsame cell hle hlt).trans hcell, ?_⟩
      exact YamlFields.At.frame fields (fun c hc => hsame c (by omega)) le_rfl hhi hfields

theorem YamlFields.At.frame : ∀ (fields : YamlFields) {lo lo' : ℕ}
    {slots : List (String × YamlSlot)},
    (∀ cell, lo ≤ cell → cell < hi → heap'[cell]? = heap[cell]?) → lo' ≤ lo → hi ≤ hi' →
    fields.At heap lo hi slots → fields.At heap' lo' hi' slots
  | .nil, lo, lo', slots, _, _, _, h => h
  | .cons key value rest, lo, lo', slots, hsame, hlo, hhi, h => by
      obtain ⟨slot, more, hslots, hvalue, hrest⟩ := h
      exact ⟨slot, more, hslots, YamlValue.At.frame value hsame hlo hhi hvalue,
        YamlFields.At.frame rest hsame hlo hhi hrest⟩

end

mutual

/-- A value is read from its slot, in as many steps as its stretch has cells. -/
theorem YamlValue.At.read : ∀ (value : YamlValue) {lo steps : ℕ} {slot : YamlSlot},
    hi ≤ lo + steps → value.At heap lo hi slot → readSlot heap steps slot = value.toJson
  | .scalar scalar, lo, steps, slot, _, h => by
      obtain rfl : slot = .value scalar.toJson := h
      cases steps <;> rfl
  | .list first rest, lo, steps, slot, hsteps, h => by
      obtain ⟨cell, rfl, hle, hlt, hcell⟩ := h
      obtain ⟨steps, rfl⟩ : ∃ m, steps = m + 1 := ⟨steps - 1, by omega⟩
      rw [readSlot, hcell]
      rfl
  | .mapping fields, lo, steps, slot, hsteps, h => by
      obtain ⟨cell, slots, rfl, hle, hlt, hcell, hfields⟩ := h
      obtain ⟨steps, rfl⟩ : ∃ m, steps = m + 1 := ⟨steps - 1, by omega⟩
      rw [readSlot, hcell, YamlValue.toJson]
      exact congrArg Json.obj (YamlFields.At.read fields (by omega) hfields)

theorem YamlFields.At.read : ∀ (fields : YamlFields) {lo steps : ℕ}
    {slots : List (String × YamlSlot)}, hi ≤ lo + steps → fields.At heap lo hi slots →
    (slots.map fun f => (f.1, readSlot heap steps f.2)) = fields.toJson
  | .nil, lo, steps, slots, _, h => by
      obtain rfl : slots = [] := h
      rfl
  | .cons key value rest, lo, steps, slots, hsteps, h => by
      obtain ⟨slot, more, rfl, hvalue, hrest⟩ := h
      rw [List.map_cons, YamlFields.toJson, YamlValue.At.read value hsteps hvalue,
        YamlFields.At.read rest hsteps hrest]

end

end Frame

/-! ### Writing under a key -/

namespace YamlState

variable {heap : List YamlCell} {parent : ℕ} {key : String} {slot : YamlSlot}
  {slots : List (String × YamlSlot)}

theorem length_setKey (heap : List YamlCell) (parent : ℕ) (key : String) (slot : YamlSlot) :
    (setKey heap parent key slot).length = heap.length :=
  List.length_modify _ _ _

theorem setKey_ne {cell : ℕ} (h : cell ≠ parent) :
    (setKey heap parent key slot)[cell]? = heap[cell]? := by
  unfold setKey
  exact List.getElem?_modify_ne _ _ (Ne.symm h)

theorem setKey_eq (h : heap[parent]? = some (.dict slots)) :
    (setKey heap parent key slot)[parent]?
      = some (.dict (Py.upsert Prod.fst (key, slot) slots)) := by
  unfold setKey
  rw [List.getElem?_modify_eq, h]
  rfl

/-- A container that was there is where it was when another is added. -/
theorem getElem?_concat_of_some {cell : ℕ} {old new : YamlCell} (h : heap[cell]? = some old) :
    (heap ++ [new])[cell]? = some old := by
  rw [List.getElem?_append_left (List.getElem?_eq_some_iff.mp h).1]
  exact h

/-- The container that is added comes last. -/
theorem getElem?_concat_last {n : ℕ} {new : YamlCell} (h : heap.length = n) :
    (heap ++ [new])[n]? = some new := by
  subst h
  exact List.getElem?_concat_length

/-- The state after a key alone. -/
def withKey (state : YamlState) (n : ℕ) (parent : ℕ) (name : String) (stack : List (ℤ × ℕ)) :
    YamlState where
  heap := setKey state.heap parent name (.ref state.heap.length) ++ [.dict []]
  stack := (n, state.heap.length) :: stack
  pendingKey := some (n + 2, parent, name)

section WithKey

variable {state : YamlState} {n : ℕ} {name : String} {stack : List (ℤ × ℕ)}

theorem length_withKey :
    (state.withKey n parent name stack).heap.length = state.heap.length + 1 := by
  rw [withKey, List.length_append, length_setKey, List.length_singleton]

theorem withKey_new :
    (state.withKey n parent name stack).heap[state.heap.length]? = some (.dict []) :=
  getElem?_concat_last (length_setKey _ _ _ _)

theorem withKey_parent (hparent : state.heap[parent]? = some (.dict slots))
    (hname : name ∉ slots.map Prod.fst) :
    (state.withKey n parent name stack).heap[parent]?
      = some (.dict (slots ++ [(name, .ref state.heap.length)])) := by
  refine getElem?_concat_of_some ?_
  rw [setKey_eq hparent, Py.upsert_of_notMem _ hname]

theorem withKey_other {cell : ℕ} (hcell : cell < state.heap.length) (hne : cell ≠ parent) :
    (state.withKey n parent name stack).heap[cell]? = state.heap[cell]? := by
  rw [withKey, List.getElem?_append_left (by rwa [length_setKey]), setKey_ne hne]

theorem popTo_withKey : (state.withKey n parent name stack).popTo ((n + 2 : ℕ) : ℤ)
    = ((n : ℤ), state.heap.length) :: stack := by
  unfold popTo withKey
  rw [List.dropWhile_cons_of_neg]
  simp

end WithKey

end YamlState

/-! ### Single lines -/

section Lines

variable {float : String → Option ℚ} {key : YamlKey} {n : ℕ} {state : YamlState} {i : ℤ}
  {parent : ℕ} {stack : List (ℤ × ℕ)} {slots : List (String × YamlSlot)}

/-- A line that begins with a key is put into the dictionary that is open. -/
theorem parseLine_mappingItem {tail : List Char} (htrim : Py.Trimmed (key.text ++ ':' :: tail))
    (hread : Readable (key.text ++ ':' :: tail)) (hpop : state.popTo n = (i, parent) :: stack) :
    state.parseLine float (indented n (key.text ++ ':' :: tail))
      = { state with stack := (i, parent) :: stack }.mappingItem float
          (indented n (key.text ++ ':' :: tail)) n (key.text ++ ':' :: tail) := by
  unfold YamlState.parseLine
  rw [readLine_indented htrim hread]
  dsimp only
  rw [key.not_dash, hpop]
  rfl

/-- A line with a key and a scalar. -/
theorem parseLine_scalar {scalar : YamlScalar}
    (hread : scalar.Readable) (hpop : state.popTo n = (i, parent) :: stack)
    (hparent : state.heap[parent]? = some (.dict slots)) :
    state.parseLine float (indented n (key.text ++ ':' :: ' ' :: scalar.text)) = .ok
      { heap := YamlState.setKey state.heap parent key.name (.value scalar.toJson)
        stack := (i, parent) :: stack
        pendingKey := none } := by
  have htext := trimmed_text scalar
  have htrim : Py.Trimmed (key.text ++ ':' :: ' ' :: scalar.text) := by
    refine Py.Trimmed.append key.trimmed.first ?_
    obtain ⟨front, c, hlast, hc⟩ := htext.last
    exact ⟨':' :: ' ' :: front, c, by rw [hlast]; rfl, hc⟩
  have hstrip : Py.strip (' ' :: scalar.text) = scalar.text := htext.strip_indented 1
  rw [parseLine_mappingItem htrim (readable_scalarLine key hread) hpop]
  unfold YamlState.mappingItem YamlState.innermost
  rw [if_neg (by simp), key.takeWhile_colon, key.dropWhile_colon, key.trimmed.strip_eq, hstrip]
  dsimp only [List.headD_cons]
  rw [hparent, parseScalar_text float hread]
  dsimp only
  rw [if_neg htext.ne_nil]
  rfl

/-- A line with a key alone. -/
theorem parseLine_key (hpop : state.popTo n = (i, parent) :: stack)
    (hparent : state.heap[parent]? = some (.dict slots)) :
    state.parseLine float (indented n (key.text ++ [':']))
      = .ok (state.withKey n parent key.name ((i, parent) :: stack)) := by
  have htrim : Py.Trimmed (key.text ++ [':']) :=
    Py.Trimmed.append key.trimmed.first ⟨[], ':', rfl, rfl⟩
  rw [parseLine_mappingItem htrim (readable_keyLine key) hpop]
  unfold YamlState.mappingItem YamlState.innermost
  rw [if_neg (by simp), key.takeWhile_colon, key.dropWhile_colon, key.trimmed.strip_eq]
  dsimp only [List.headD_cons]
  rw [hparent]
  rfl

/-- A line with an item of the list that is open, or that it opens. -/
theorem parseLine_item {scalar : YamlScalar} (hread : scalar.Readable) :
    state.parseLine float (indented n ('-' :: ' ' :: scalar.text))
      = { state with stack := state.popTo n }.listItem float
          (indented n ('-' :: ' ' :: scalar.text)) n ('-' :: ' ' :: scalar.text) := by
  have htext := trimmed_text scalar
  have htrim : Py.Trimmed ('-' :: ' ' :: scalar.text) := by
    obtain ⟨front, c, hlast, hc⟩ := htext.last
    exact ⟨⟨'-', _, rfl, rfl⟩, ⟨'-' :: ' ' :: front, c, by rw [hlast]; rfl, hc⟩⟩
  unfold YamlState.parseLine
  rw [readLine_indented htrim (readable_itemLine hread)]
  rfl

/-- The first item of a list takes the place of the dictionary under the pending key. -/
theorem listItem_first {scalar : YamlScalar} (hread : scalar.Readable) {indent : ℤ} {mapping : ℕ}
    {name : String} {rawLine : List Char} (hpending : state.pendingKey = some (indent, mapping, name)) :
    state.listItem float rawLine indent ('-' :: ' ' :: scalar.text) = .ok
      { heap := YamlState.setKey state.heap mapping name (.ref state.heap.length) ++
          [.list [scalar.toJson]]
        stack := (indent - 1, state.heap.length) :: state.stack
        pendingKey := none } := by
  have hlength := YamlState.length_setKey state.heap mapping name (.ref state.heap.length)
  have hcell := @YamlState.getElem?_concat_last _ _ (.list []) hlength
  unfold YamlState.listItem YamlState.openList
  rw [hpending]
  dsimp only
  rw [if_pos rfl]
  unfold YamlState.innermost
  dsimp only [List.headD_cons]
  rw [hcell]
  dsimp only
  rw [List.set_append_right _ _ hlength.le, hlength, Nat.sub_self]
  show Except.ok _ = _
  rw [show ('-' :: ' ' :: scalar.text).drop 2 = scalar.text from rfl, (trimmed_text scalar).strip_eq,
    parseScalar_text float hread]
  rfl

/-- A further item is put at the end of the list. -/
theorem listItem_next {scalar : YamlScalar} (hread : scalar.Readable) {indent j : ℤ} {cell : ℕ}
    {items : List Json} {rawLine : List Char} (hpending : state.pendingKey = none)
    (hstack : state.stack = (j, cell) :: stack) (hcell : state.heap[cell]? = some (.list items)) :
    state.listItem float rawLine indent ('-' :: ' ' :: scalar.text) = .ok
      { state with heap := state.heap.set cell (.list (items ++ [scalar.toJson])) } := by
  unfold YamlState.listItem YamlState.openList
  rw [hpending]
  dsimp only
  unfold YamlState.innermost
  rw [hstack]
  dsimp only [List.headD_cons]
  rw [hcell]
  dsimp only
  rw [show ('-' :: ' ' :: scalar.text).drop 2 = scalar.text from rfl, (trimmed_text scalar).strip_eq,
    parseScalar_text float hread, hpending]

/-- The further items of a list. -/
theorem foldlM_items {cell : ℕ} : ∀ (rest : List YamlScalar) (state : YamlState)
    (items : List Json), (∀ scalar ∈ rest, scalar.Readable) →
    state.pendingKey = none → state.stack = ((n : ℤ) + 1, cell) :: stack →
    state.heap[cell]? = some (.list items) →
      (rest.map fun scalar => indented (n + 2) ('-' :: ' ' :: scalar.text)).foldlM
          (YamlState.parseLine float) state = .ok
        { state with heap := state.heap.set cell (.list (items ++ rest.map YamlScalar.toJson)) } := by
  intro rest
  induction rest with
  | nil =>
      intro state items _ _ _ hcell
      have hsame : state.heap.set cell (.list (items ++ [])) = state.heap := by
        obtain ⟨hlt, hget⟩ := List.getElem?_eq_some_iff.mp hcell
        rw [List.append_nil, ← hget]
        exact List.set_getElem_self hlt
      rw [List.map_nil, List.map_nil, hsame]
      rfl
  | cons scalar rest ih =>
      intro state items hread hpending hstack hcell
      obtain ⟨hfirst, hrest⟩ := List.forall_mem_cons.mp hread
      have hpop : state.popTo ((n + 2 : ℕ) : ℤ) = state.stack := by
        unfold YamlState.popTo
        rw [hstack, List.dropWhile_cons_of_neg]
        simp
      have hline : state.parseLine float (indented (n + 2) ('-' :: ' ' :: scalar.text)) = .ok
          { state with heap := state.heap.set cell (.list (items ++ [scalar.toJson])) } := by
        rw [parseLine_item hfirst, hpop]
        exact listItem_next hfirst hpending hstack hcell
      rw [List.map_cons, List.foldlM_cons, hline]
      show List.foldlM _ _ _ = _
      rw [ih { state with heap := state.heap.set cell (.list (items ++ [scalar.toJson])) }
        (items ++ [scalar.toJson]) hrest hpending hstack]
      · rw [List.set_set, List.append_assoc]
        rfl
      · rw [List.getElem?_set_self (List.getElem?_eq_some_iff.mp hcell).1]

end Lines

/-! ### Fields -/

theorem YamlState.popTo_popTo {m n : ℤ} (h : n ≤ m) (state : YamlState) :
    (state.popTo m).dropWhile (fun entry => decide (n ≤ entry.1)) = state.popTo n := by
  unfold YamlState.popTo
  generalize state.stack = stack
  induction stack with
  | nil => rfl
  | cons entry rest ih =>
      by_cases hentry : m ≤ entry.1
      · rw [List.dropWhile_cons_of_pos (by simpa using hentry),
          List.dropWhile_cons_of_pos (by simpa using h.trans hentry), ih]
      · rw [List.dropWhile_cons_of_neg (by simpa using hentry)]

/-- Lines add fields to the dictionary that is open, touch no other container that was there, and
leave the stack as it was, up to what the next line at their indentation pops. -/
structure Reads (n : ℕ) (parent : ℕ) (stack : List (ℤ × ℕ)) (start finish : YamlState)
    (slots more : List (String × YamlSlot)) : Prop where
  grows : start.heap.length ≤ finish.heap.length
  fields : finish.heap[parent]? = some (.dict (slots ++ more))
  frame : ∀ cell < start.heap.length, cell ≠ parent → finish.heap[cell]? = start.heap[cell]?
  popped : finish.popTo n = stack

section Run

variable {float : String → Option ℚ} {i : ℤ} {parent : ℕ} {stack : List (ℤ × ℕ)}

/-- Reading a key with a scalar. -/
theorem run_scalar {scalar : YamlScalar} {key : YamlKey} {n : ℕ} {state : YamlState}
    {slots : List (String × YamlSlot)} (hread : scalar.Readable)
    (hkey : key.name ∉ slots.map Prod.fst) (hpop : state.popTo n = (i, parent) :: stack)
    (hparent : state.heap[parent]? = some (.dict slots)) :
    ∃ finish, ((YamlValue.scalar scalar).linesUnder n key).foldlM (YamlState.parseLine float) state
        = .ok finish ∧
      Reads n parent ((i, parent) :: stack) state finish slots
        [(key.name, .value scalar.toJson)] := by
  have hline := @parseLine_scalar float key n state i parent stack slots scalar hread hpop hparent
  refine ⟨{ heap := YamlState.setKey state.heap parent key.name (.value scalar.toJson),
            stack := (i, parent) :: stack, pendingKey := none }, ?_, ?_, ?_, ?_, ?_⟩
  · rw [YamlValue.linesUnder, List.foldlM_cons, hline]
    rfl
  · exact (YamlState.length_setKey _ _ _ _).ge
  · rw [YamlState.setKey_eq hparent, Py.upsert_of_notMem _ hkey]
  · intro cell _ hne
    exact YamlState.setKey_ne hne
  · have hsame := YamlState.popTo_popTo (le_refl (n : ℤ)) state
    rw [hpop] at hsame
    exact hsame

/-- After the first item of a list, which is what the key leads to. -/
structure OpensList (n parent : ℕ) (stack : List (ℤ × ℕ)) (key : String) (first : Json)
    (slots : List (String × YamlSlot)) (start opened : YamlState) : Prop where
  pendingKey : opened.pendingKey = none
  stack : opened.stack
    = ((n : ℤ) + 1, start.heap.length + 1) :: ((n : ℤ), start.heap.length) :: stack
  length : opened.heap.length = start.heap.length + 2
  items : opened.heap[start.heap.length + 1]? = some (.list [first])
  fields : opened.heap[parent]?
    = some (.dict (slots ++ [(key, .ref (start.heap.length + 1))]))
  frame : ∀ cell < start.heap.length, cell ≠ parent → opened.heap[cell]? = start.heap[cell]?

theorem run_listHead {first : YamlScalar} {key : YamlKey} {n : ℕ} {state : YamlState}
    {slots : List (String × YamlSlot)} (hread : first.Readable)
    (hkey : key.name ∉ slots.map Prod.fst) (hpop : state.popTo n = (i, parent) :: stack)
    (hparent : state.heap[parent]? = some (.dict slots)) :
    ∃ opened, [indented n (key.text ++ [':']),
        indented (n + 2) ('-' :: ' ' :: first.text)].foldlM (YamlState.parseLine float) state
          = .ok opened ∧
      OpensList n parent ((i, parent) :: stack) key.name first.toJson slots state opened := by
  have hline := @parseLine_key float key n state i parent stack slots hpop hparent
  have hlt : parent < state.heap.length := (List.getElem?_eq_some_iff.mp hparent).1
  have hlength := @YamlState.length_withKey parent state n key.name ((i, parent) :: stack)
  have hpop1 := @YamlState.popTo_withKey parent state n key.name ((i, parent) :: stack)
  have hparent1 := @YamlState.withKey_parent parent slots state n key.name ((i, parent) :: stack)
    hparent hkey
  have hother := @YamlState.withKey_other parent state n key.name ((i, parent) :: stack)
  have hpending : (state.withKey n parent key.name ((i, parent) :: stack)).pendingKey
      = some (((n + 2 : ℕ) : ℤ), parent, key.name) := by
    unfold YamlState.withKey
    push_cast
    rfl
  generalize state.withKey n parent key.name ((i, parent) :: stack) = keyed at *
  have hset := YamlState.length_setKey keyed.heap parent key.name (.ref keyed.heap.length)
  have hindent : ((n + 2 : ℕ) : ℤ) - 1 = (n : ℤ) + 1 := by
    push_cast
    ring
  have hreplace : Py.upsert Prod.fst (key.name, YamlSlot.ref keyed.heap.length)
      (slots ++ [(key.name, .ref state.heap.length)])
        = slots ++ [(key.name, .ref keyed.heap.length)] :=
    @Py.upsert_concat _ _ _ Prod.fst (key.name, YamlSlot.ref keyed.heap.length)
      (key.name, .ref state.heap.length) rfl slots hkey
  have hitem := @listItem_first float { keyed with stack := keyed.popTo ((n + 2 : ℕ) : ℤ) } first
    hread ((n + 2 : ℕ) : ℤ) parent key.name (indented (n + 2) ('-' :: ' ' :: first.text)) hpending
  refine ⟨{ heap := YamlState.setKey keyed.heap parent key.name (.ref keyed.heap.length) ++
              [.list [first.toJson]],
            stack := (((n + 2 : ℕ) : ℤ) - 1, keyed.heap.length) :: keyed.popTo ((n + 2 : ℕ) : ℤ),
            pendingKey := none }, ?_, rfl, ?_, ?_, ?_, ?_, ?_⟩
  · rw [List.foldlM_cons, hline]
    show List.foldlM _ keyed _ = _
    rw [List.foldlM_cons, parseLine_item hread, hitem]
    rfl
  · rw [hpop1, hlength, hindent]
  · rw [List.length_append, hset, hlength]
    rfl
  · rw [← hlength]
    exact YamlState.getElem?_concat_last hset
  · refine YamlState.getElem?_concat_of_some ?_
    rw [YamlState.setKey_eq hparent1, hreplace, hlength]
  · intro cell hcell hne
    dsimp only
    rw [List.getElem?_append_left (by omega), YamlState.setKey_ne hne, hother hcell hne]

/-- Reading a key with a list. -/
theorem run_list {first : YamlScalar} {rest : List YamlScalar} {key : YamlKey} {n : ℕ}
    {state : YamlState} {slots : List (String × YamlSlot)}
    (hread : ∀ scalar ∈ first :: rest, scalar.Readable)
    (hkey : key.name ∉ slots.map Prod.fst) (hpop : state.popTo n = (i, parent) :: stack)
    (hparent : state.heap[parent]? = some (.dict slots)) :
    ∃ finish slot, ((YamlValue.list first rest).linesUnder n key).foldlM
        (YamlState.parseLine float) state = .ok finish ∧
      Reads n parent ((i, parent) :: stack) state finish slots [(key.name, slot)] ∧
      (YamlValue.list first rest).At finish.heap state.heap.length finish.heap.length slot := by
  obtain ⟨hfirst, hrest⟩ := List.forall_mem_cons.mp hread
  have hlt : parent < state.heap.length := (List.getElem?_eq_some_iff.mp hparent).1
  obtain ⟨opened, hrun, hopens⟩ := @run_listHead float i parent stack first key n state slots
    hfirst hkey hpop hparent
  have hlength := hopens.length
  have hitems := @foldlM_items float n _ _ rest opened [first.toJson] hrest hopens.pendingKey
    hopens.stack hopens.items
  refine ⟨{ opened with
      heap := opened.heap.set (state.heap.length + 1)
        (.list ([first.toJson] ++ rest.map YamlScalar.toJson)) },
    .ref (state.heap.length + 1), ?_, ⟨?_, ?_, ?_, ?_⟩, state.heap.length + 1, rfl, by omega, ?_,
    ?_⟩
  · have hlines : (YamlValue.list first rest).linesUnder n key
        = [indented n (key.text ++ [':']), indented (n + 2) ('-' :: ' ' :: first.text)] ++
          rest.map fun scalar => indented (n + 2) ('-' :: ' ' :: scalar.text) := rfl
    rw [hlines, List.foldlM_append, hrun]
    exact hitems
  · dsimp only
    rw [List.length_set, hlength]
    omega
  · dsimp only
    rw [List.getElem?_set_ne (by omega), hopens.fields]
  · intro cell hcell hne
    dsimp only
    rw [List.getElem?_set_ne (by omega), hopens.frame cell hcell hne]
  · have hsame := YamlState.popTo_popTo (le_refl (n : ℤ)) state
    rw [hpop] at hsame
    unfold YamlState.popTo
    dsimp only
    rw [hopens.stack, List.dropWhile_cons_of_pos (by simp), List.dropWhile_cons_of_pos (by simp)]
    exact hsame
  · dsimp only
    rw [List.length_set, hlength]
    omega
  · dsimp only
    rw [List.getElem?_set_self (by omega)]
    rfl

mutual

/-- Reading a key and its value. -/
theorem YamlValue.run : ∀ (value : YamlValue) {key : YamlKey} {n : ℕ} {state : YamlState} {i : ℤ}
    {parent : ℕ} {stack : List (ℤ × ℕ)} {slots : List (String × YamlSlot)},
    (∀ scalar ∈ value.scalars, scalar.Readable) → value.Distinct → key.name ∉ slots.map Prod.fst →
    state.popTo n = (i, parent) :: stack → state.heap[parent]? = some (.dict slots) →
    ∃ finish slot, (value.linesUnder n key).foldlM (YamlState.parseLine float) state = .ok finish ∧
      Reads n parent ((i, parent) :: stack) state finish slots [(key.name, slot)] ∧
      value.At finish.heap state.heap.length finish.heap.length slot
  | .scalar scalar, key, n, state, i, parent, stack, slots, hread, _, hkey, hpop, hparent => by
      obtain ⟨finish, hrun, hreads⟩ := @run_scalar float i parent stack scalar key n state slots
        (hread scalar List.mem_cons_self) hkey hpop hparent
      exact ⟨finish, _, hrun, hreads, rfl⟩
  | .list first rest, key, n, state, i, parent, stack, slots, hread, _, hkey, hpop, hparent =>
      run_list hread hkey hpop hparent
  | .mapping fields, key, n, state, i, parent, stack, slots, hread, hdistinct, hkey, hpop,
      hparent => by
      have hline := @parseLine_key float key n state i parent stack slots hpop hparent
      have hlt : parent < state.heap.length := (List.getElem?_eq_some_iff.mp hparent).1
      have hlength := @YamlState.length_withKey parent state n key.name ((i, parent) :: stack)
      obtain ⟨finish, more, hrun, hreads, hat⟩ := YamlFields.run fields (n := n + 2) hread
        hdistinct.1 hdistinct.2 (by simp)
        (@YamlState.popTo_withKey parent state n key.name ((i, parent) :: stack))
        YamlState.withKey_new
      have hgrows := hreads.grows
      rw [hlength] at hgrows hat
      refine ⟨finish, .ref state.heap.length, ?_, ⟨by omega, ?_, ?_, ?_⟩,
        state.heap.length, more, rfl, le_rfl, by omega, hreads.fields, hat⟩
      · rw [YamlValue.linesUnder, List.foldlM_cons, hline]
        exact hrun
      · rw [hreads.frame parent (by omega) (by omega), YamlState.withKey_parent hparent hkey]
      · intro cell hcell hne
        rw [hreads.frame cell (by omega) (by omega), YamlState.withKey_other hcell hne]
      · rw [← YamlState.popTo_popTo (by omega : (n : ℤ) ≤ ((n + 2 : ℕ) : ℤ)), hreads.popped,
          List.dropWhile_cons_of_pos (by simp), ← hpop]
        exact YamlState.popTo_popTo le_rfl state

/-- Reading the fields of a mapping. -/
theorem YamlFields.run : ∀ (fields : YamlFields) {n : ℕ} {state : YamlState} {i : ℤ}
    {parent : ℕ} {stack : List (ℤ × ℕ)} {slots : List (String × YamlSlot)},
    (∀ scalar ∈ fields.scalars, scalar.Readable) → fields.keys.Nodup → fields.Distinct →
    (∀ name ∈ fields.keys, name ∉ slots.map Prod.fst) →
    state.popTo n = (i, parent) :: stack → state.heap[parent]? = some (.dict slots) →
    ∃ finish more, (fields.lines n).foldlM (YamlState.parseLine float) state = .ok finish ∧
      Reads n parent ((i, parent) :: stack) state finish slots more ∧
      fields.At finish.heap state.heap.length finish.heap.length more
  | .nil, n, state, i, parent, stack, slots, _, _, _, _, hpop, hparent => by
      refine ⟨state, [], rfl, ⟨le_rfl, ?_, fun _ _ _ => rfl, hpop⟩, rfl⟩
      rw [List.append_nil]
      exact hparent
  | .cons key value rest, n, state, i, parent, stack, slots, hread, hnodup, hdistinct, hkeys,
      hpop, hparent => by
      rw [YamlFields.scalars] at hread
      rw [YamlFields.keys, List.nodup_cons] at hnodup
      rw [YamlFields.keys] at hkeys
      obtain ⟨middle, slot, hrun, hreads, hat⟩ := YamlValue.run value
        (fun scalar hscalar => hread scalar (List.mem_append_left _ hscalar)) hdistinct.1
        (hkeys _ List.mem_cons_self) hpop hparent
      have hfresh : ∀ name ∈ rest.keys, name ∉ (slots ++ [(key.name, slot)]).map Prod.fst := by
        intro name hname hmem
        rw [List.map_append, List.mem_append] at hmem
        rcases hmem with hmem | hmem
        · exact hkeys name (List.mem_cons_of_mem _ hname) hmem
        · obtain rfl : name = key.name := by simpa using hmem
          exact hnodup.1 hname
      obtain ⟨finish, more, hrunRest, hreadsRest, hatRest⟩ := YamlFields.run rest
        (fun scalar hscalar => hread scalar (List.mem_append_right _ hscalar)) hnodup.2
        hdistinct.2 hfresh hreads.popped hreads.fields
      have hlt : parent < state.heap.length := (List.getElem?_eq_some_iff.mp hparent).1
      refine ⟨finish, (key.name, slot) :: more, ?_, ⟨hreads.grows.trans hreadsRest.grows, ?_, ?_,
        hreadsRest.popped⟩, slot, more, rfl, ?_, ?_⟩
      · rw [YamlFields.lines, List.foldlM_append, hrun]
        exact hrunRest
      · rw [hreadsRest.fields, List.append_assoc, List.singleton_append]
      · intro cell hcell hne
        rw [hreadsRest.frame cell (hcell.trans_le hreads.grows) hne, hreads.frame cell hcell hne]
      · refine YamlValue.At.frame value (fun cell hle hcell => ?_) le_rfl hreadsRest.grows hat
        exact hreadsRest.frame cell hcell (by omega)
      · exact YamlFields.At.frame rest (fun _ _ _ => rfl) hreads.grows le_rfl hatRest

end

end Run

/-- **A mapping whose scalars can be read is read back.** -/
theorem parse_render (float : String → Option ℚ) (mapping : YamlMapping)
    (hread : ∀ scalar ∈ mapping.fields.scalars, scalar.Readable) :
    parseSimpleYaml float mapping.render = .ok (.obj mapping.fields.toJson) := by
  have hlines : Py.splitLines mapping.render = mapping.fields.lines 0 :=
    Py.splitLines_written _ fun line hline c hc =>
      (YamlFields.readable_lines mapping.fields 0 hread line hline c hc).2
  have hfresh : ∀ name ∈ mapping.fields.keys,
      name ∉ ([] : List (String × YamlSlot)).map Prod.fst := fun name _ => List.not_mem_nil
  obtain ⟨finish, slots, hrun, hreads, hat⟩ := @YamlFields.run float mapping.fields 0
    YamlState.init (-1) 0 [] [] hread mapping.nodup mapping.distinct hfresh rfl rfl
  have hgrows : 1 ≤ finish.heap.length := hreads.grows
  have hroot : finish.heap[0]? = some (.dict slots) := hreads.fields
  obtain ⟨steps, hsteps⟩ : ∃ steps, finish.heap.length = steps + 1 :=
    ⟨finish.heap.length - 1, by omega⟩
  have hvalue : (slots.map fun f => (f.1, readSlot finish.heap steps f.2))
      = mapping.fields.toJson :=
    YamlFields.At.read mapping.fields (show finish.heap.length ≤ 1 + steps by omega) hat
  unfold parseSimpleYaml
  rw [hlines, hrun]
  show Except.ok (readSlot finish.heap finish.heap.length (.ref 0)) = _
  rw [hsteps, readSlot, hroot, ← hvalue]

end GhostAmm
