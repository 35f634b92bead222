/-
Files, and programs that read and write them.

A program is given all files and leaves them all, also when it raises: what it wrote by then is
written.  From files of a kind it comes to one result and makes one list of writes, whatever else
there is (`Writes`).  Where each path is given one content, what was written stays on disk
(`has_writeAll`), so that a program may go on from what it has written itself: `Stage` is that
judgement, closed under doing one after another and under loops.
-/
import GhostAmm.Lib.Table

namespace Files

abbrev Path := List Char

/-! ### Paths -/

/-- What stands in front of the names in a directory. -/
def front (dir : Path) : Path :=
  if dir = ['.'] then [] else if dir.getLast? = some '/' then dir else dir ++ ['/']

/-- `dir / name`, for paths as they are printed. -/
def join (dir name : Path) : Path := front dir ++ name

/-- The parts of a path between the slashes. -/
def parts : Path → List Path
  | [] => [[]]
  | c :: rest =>
      if c = '/' then [] :: parts rest
      else match parts rest with
        | [] => [[c]]
        | part :: more => (c :: part) :: more

/-- `path.name`: the last part that is neither empty nor a dot. -/
def name (path : Path) : Path :=
  (((parts path).filter fun part => decide (part ≠ [] ∧ part ≠ ['.'])).getLast?).getD []

/-- `path.stem`: the name up to its last dot, unless that is its first or last character. -/
def stem (path : Path) : Path :=
  let suffix := (name path).reverse.takeWhile fun c => decide (c ≠ '.')
  let base := ((name path).reverse.drop (suffix.length + 1)).reverse
  if suffix = [] ∨ base = [] then name path else base

/-- What can stand between two slashes. -/
structure IsName (name : Path) : Prop where
  ne_nil : name ≠ []
  ne_dot : name ≠ ['.']
  no_slash : '/' ∉ name

theorem isName_of_mem {name : Path} {c : Char} (hmem : c ∈ name) (hc : c ≠ '.')
    (hslash : '/' ∉ name) : IsName name where
  ne_nil := List.ne_nil_of_mem hmem
  ne_dot := by
    rintro rfl
    exact hc (List.mem_singleton.mp hmem)
  no_slash := hslash

namespace IsName

variable {dir name name' : Path}

/-- A directory in another is printed with a slash behind it. -/
theorem join_join (h : IsName name) (dir file : Path) :
    join (join dir name) file = join dir name ++ '/' :: file := by
  have hlast : (join dir name).getLast? = name.getLast? := List.getLast?_append_of_ne_nil _ h.ne_nil
  have hslash : ¬ (join dir name).getLast? = some '/' := by
    rw [hlast]
    exact fun hlast => h.no_slash (List.mem_of_getLast? hlast)
  have hdot : join dir name ≠ ['.'] := by
    intro hjoin
    unfold join at hjoin
    obtain ⟨-, hname⟩ | ⟨-, hname⟩ := List.append_eq_singleton_iff.mp hjoin
    · exact h.ne_dot hname
    · exact h.ne_nil hname
  show front (join dir name) ++ file = _
  rw [front, if_neg hdot, if_neg hslash, List.append_assoc, List.singleton_append]

/-- The name of a directory can be read off the paths in it. -/
theorem eq_of_join_join (h : IsName name) (h' : IsName name') {file file' : Path}
    (heq : join (join dir name) file = join (join dir name') file') :
    name = name' ∧ file = file' := by
  rw [h.join_join, h'.join_join, join, join, List.append_assoc, List.append_assoc,
    List.append_cancel_left_eq] at heq
  have htake : ∀ {name file : Path}, '/' ∉ name →
      ((name ++ '/' :: file).takeWhile fun c => decide (c ≠ '/')) = name := by
    intro name file hslash
    have hchars : ∀ c ∈ name, decide (c ≠ '/') = true := by
      intro c hc
      rw [decide_eq_true_eq]
      rintro rfl
      exact hslash hc
    rw [List.takeWhile_append_of_pos hchars]
    simp
  obtain rfl : name = name' := by rw [← htake h.no_slash, heq, htake h'.no_slash]
  exact ⟨rfl, (List.cons.inj (List.append_cancel_left heq)).2⟩

end IsName

theorem not_mem_parts : ∀ path : Path, ∀ part ∈ parts path, '/' ∉ part := by
  intro path
  induction path with
  | nil => simp [parts]
  | cons c rest ih =>
      unfold parts
      split
      · exact List.forall_mem_cons.mpr ⟨by simp, ih⟩
      · rename_i hc
        split
        · simpa using fun h => hc h.symm
        · rename_i part more hparts
          rw [hparts] at ih
          obtain ⟨hpart, hmore⟩ := List.forall_mem_cons.mp ih
          refine List.forall_mem_cons.mpr ⟨?_, hmore⟩
          rw [List.mem_cons, not_or]
          exact ⟨fun h => hc h.symm, hpart⟩

theorem not_mem_stem (path : Path) : '/' ∉ stem path := by
  have hname : '/' ∉ name path := by
    unfold name
    cases hlast : ((parts path).filter fun part =>
        decide (part ≠ [] ∧ part ≠ ['.'])).getLast? with
    | none => simp
    | some part =>
        exact not_mem_parts path part (List.mem_of_mem_filter (List.mem_of_getLast? hlast))
  unfold stem
  dsimp only
  split
  · exact hname
  · exact fun h => hname (List.mem_reverse.mp (List.mem_of_mem_drop (List.mem_reverse.mp h)))

/-! ### Stores -/

/-- Contents by path. -/
abbrev Store (φ : Type) := Py.Table (Prod.fst : Path × φ → Path)

section Stores

variable {φ : Type}

def Store.read? (store : Store φ) (path : Path) : Option φ := (store.get? path).map Prod.snd

/-- The files after some writes. -/
def Store.writeAll (store : Store φ) (writes : List (Path × φ)) : Store φ :=
  writes.foldl Py.Table.put store

variable {store : Store φ} {path path' : Path} {content : φ} {writes : List (Path × φ)}

@[simp] theorem writeAll_nil : store.writeAll [] = store := rfl

theorem writeAll_append (writes more : List (Path × φ)) :
    store.writeAll (writes ++ more) = (store.writeAll writes).writeAll more := List.foldl_append

/-- A path holds what was written there, if nothing else was. -/
theorem read?_writeAll_of_mem (honly : ∀ other, (path, other) ∈ writes → other = content)
    (h : (path, content) ∈ writes) : (store.writeAll writes).read? path = some content := by
  have hmem : (path, content) ∈ writes.filter fun w => decide (w.1 = path) := by simp [h]
  unfold Store.read? Store.writeAll
  rw [Py.Table.get?_foldl_put]
  cases hlast : (writes.filter fun w => decide (w.1 = path)).getLast? with
  | none =>
      rw [List.getLast?_eq_none_iff] at hlast
      rw [hlast] at hmem
      simp at hmem
  | some w =>
      obtain ⟨hw, hpath⟩ := List.mem_filter.mp (List.mem_of_getLast? hlast)
      obtain ⟨path', other⟩ := w
      obtain rfl := of_decide_eq_true hpath
      rw [honly other hw]
      rfl

/-- What a path holds is what it held, or was written. -/
theorem read?_writeAll_cases (store : Store φ) (writes : List (Path × φ)) (path : Path) :
    (store.writeAll writes).read? path = store.read? path ∨
      ∃ content, (path, content) ∈ writes ∧
        (store.writeAll writes).read? path = some content := by
  unfold Store.read? Store.writeAll
  rw [Py.Table.get?_foldl_put]
  cases hlast : (writes.filter fun w => decide (w.1 = path)).getLast? with
  | none => exact Or.inl rfl
  | some w =>
      obtain ⟨hw, hpath⟩ := List.mem_filter.mp (List.mem_of_getLast? hlast)
      obtain ⟨path', content⟩ := w
      obtain rfl := of_decide_eq_true hpath
      exact Or.inr ⟨content, hw, rfl⟩

end Stores

/-! ### Programs -/

/-- A program that works on files. -/
abbrev Program (ε φ : Type) := EStateM ε (Store φ)

section Programs

variable {ε φ α β ι : Type}

def write (path : Path) (content : φ) : Program ε φ Unit :=
  modify fun store => store.put (path, content)

/-- From files of a kind, the program comes to the result and makes the writes. -/
def Writes (pre : Store φ → Prop) (x : Program ε φ α) (result : Except ε α)
    (writes : List (Path × φ)) : Prop :=
  ∀ store : Store φ, pre store → x.run store = match result with
    | .ok a => .ok a (store.writeAll writes)
    | .error e => .error e (store.writeAll writes)

variable {pre mid : Store φ → Prop} {x : Program ε φ α} {f : α → Program ε φ β}
  {writes more : List (Path × φ)}

theorem writes_pure (a : α) : Writes pre (pure a : Program ε φ α) (.ok a) [] := fun _ _ => rfl

theorem writes_throw (e : ε) : Writes pre (throw e : Program ε φ α) (.error e) [] := fun _ _ => rfl

theorem writes_write (path : Path) (content : φ) :
    Writes pre (write path content : Program ε φ Unit) (.ok ()) [(path, content)] := fun _ _ => rfl

theorem Writes.bind {a : α} {result : Except ε β} (hx : Writes pre x (.ok a) writes)
    (hmid : ∀ store, pre store → mid (store.writeAll writes)) (hf : Writes mid (f a) result more) :
    Writes pre (x >>= f) result (writes ++ more) := by
  intro store hpre
  rw [EStateM.run_bind, hx store hpre]
  show (f a).run (store.writeAll writes) = _
  rw [hf _ (hmid store hpre), writeAll_append]

theorem Writes.bind_error {e : ε} (hx : Writes pre x (.error e) writes) :
    Writes pre (x >>= f) (.error e) writes := by
  intro store hpre
  rw [EStateM.run_bind, hx store hpre]

end Programs

/-! ### Stages -/

section Stages

variable {ε φ α β ι : Type} {placed : Path → φ → Prop} {before writes : List (Path × φ)}
  {store : Store φ}

/-- Some writes that go where they belong. -/
def AllPlaced (placed : Path → φ → Prop) (writes : List (Path × φ)) : Prop :=
  ∀ w ∈ writes, placed w.1 w.2

/-- A path is given one content. -/
def OnePlace (placed : Path → φ → Prop) : Prop :=
  ∀ path content content', placed path content → placed path content' → content = content'

/-- Some writes that are on disk. -/
def Has (writes : List (Path × φ)) (store : Store φ) : Prop :=
  ∀ w ∈ writes, store.read? w.1 = some w.2

theorem allPlaced_append {more : List (Path × φ)} (h : AllPlaced placed writes)
    (hmore : AllPlaced placed more) : AllPlaced placed (writes ++ more) :=
  List.forall_mem_append.mpr ⟨h, hmore⟩

/-- What is on disk is not written over. -/
theorem has_writeAll (hone : OnePlace placed) (hbefore : AllPlaced placed before)
    (hwrites : AllPlaced placed writes) (h : Has before store) :
    Has (before ++ writes) (store.writeAll writes) := by
  rintro ⟨path, content⟩ hmem
  obtain hmem | hmem := List.mem_append.mp hmem
  · obtain hsame | ⟨other, hother, hread⟩ := read?_writeAll_cases store writes path
    · exact hsame.trans (h _ hmem)
    · rw [hread, hone path other content (hwrites _ hother) (hbefore _ hmem)]
  · exact read?_writeAll_of_mem
      (fun other hother => hone _ _ _ (hwrites _ hother) (hwrites _ hmem)) hmem

/-- After some writes, a program writes what belongs where and comes to its end exactly when
`good`; what it comes to then is of a kind, by what is written then. -/
def Stage (placed : Path → φ → Prop) (before : List (Path × φ)) (x : Program ε φ α)
    (good : Prop) (post : α → List (Path × φ) → Prop) : Prop :=
  ∃ result writes, Writes (Has before) x result writes ∧ AllPlaced placed writes ∧
    ((∃ a, result = .ok a) ↔ good) ∧ ∀ a, result = .ok a → post a (before ++ writes)

namespace Stage

variable {x : Program ε φ α} {f : α → Program ε φ β} {good good' : Prop}
  {post : α → List (Path × φ) → Prop} {post' : β → List (Path × φ) → Prop}

theorem pure {a : α} (h : post a before) :
    Stage placed before (pure a : Program ε φ α) True post := by
  refine ⟨.ok a, [], writes_pure a, by simp [AllPlaced], by simp, ?_⟩
  rintro _ ⟨⟩
  rw [List.append_nil]
  exact h

theorem throw (e : ε) : Stage placed before (throw e : Program ε φ α) False post := by
  refine ⟨.error e, [], writes_throw e, by simp [AllPlaced], by simp, ?_⟩
  rintro _ ⟨⟩

theorem write {path : Path} {content : φ} {post : Unit → List (Path × φ) → Prop}
    (hplaced : placed path content) (h : post () (before ++ [(path, content)])) :
    Stage placed before (write path content : Program ε φ Unit) True post := by
  refine ⟨.ok (), [(path, content)], writes_write path content, ?_, by simp, ?_⟩
  · exact List.forall_mem_singleton.mpr hplaced
  · rintro _ ⟨⟩
    exact h

/-- A program that only reads, and only what is on disk. -/
theorem read {a : α} (h : ∀ store, Has before store → x.run store = .ok a store)
    (hpost : post a before) : Stage placed before x True post := by
  refine ⟨.ok a, [], h, by simp [AllPlaced], by simp, ?_⟩
  rintro _ ⟨⟩
  rw [List.append_nil]
  exact hpost

theorem of_iff (hx : Stage placed before x good post) (h : good ↔ good') :
    Stage placed before x good' post := propext h ▸ hx

theorem imp {post'' : α → List (Path × φ) → Prop} (hx : Stage placed before x good post)
    (h : ∀ a after, post a after → post'' a after) : Stage placed before x good post'' := by
  obtain ⟨result, writes, hwrites, hplaced, hgood, hpost⟩ := hx
  exact ⟨result, writes, hwrites, hplaced, hgood, fun a ha => h a _ (hpost a ha)⟩

theorem bind (hx : Stage placed before x good post) (hone : OnePlace placed)
    (hbefore : AllPlaced placed before)
    (hf : ∀ a after, AllPlaced placed after → before ⊆ after → post a after →
      Stage placed after (f a) good' post') :
    Stage placed before (x >>= f) (good ∧ good') post' := by
  obtain ⟨result, writes, hwrites, hplaced, hgood, hpost⟩ := hx
  cases result with
  | error e =>
      have hnot : ¬ good := fun h => by simpa using hgood.mpr h
      refine ⟨.error e, writes, hwrites.bind_error, hplaced, ?_, by rintro _ ⟨⟩⟩
      simp [hnot]
  | ok a =>
      have hyes : good := hgood.mp ⟨a, rfl⟩
      obtain ⟨result', more, hmore, hplaced', hgood', hpost'⟩ := hf a (before ++ writes)
        (allPlaced_append hbefore hplaced) (List.subset_append_left _ _) (hpost a rfl)
      refine ⟨result', writes ++ more, hwrites.bind
        (fun store => has_writeAll hone hbefore hplaced) hmore,
        allPlaced_append hplaced hplaced', by simp [hgood', hyes], ?_⟩
      rw [← List.append_assoc]
      exact hpost'

/-- A loop, whose turns leave standing what the turns before them came to. -/
theorem mapM {g : ι → Program ε φ α} {goodTurn : ι → Prop}
    {postTurn : ι → α → List (Path × φ) → Prop} (hone : OnePlace placed)
    (hmono : ∀ i a after later, postTurn i a after → after ⊆ later → postTurn i a later) :
    ∀ {l : List ι} {before : List (Path × φ)}, AllPlaced placed before →
      (∀ i ∈ l, ∀ after, AllPlaced placed after → before ⊆ after →
        Stage placed after (g i) (goodTurn i) (postTurn i)) →
      Stage placed before (l.mapM g) (∀ i ∈ l, goodTurn i)
        fun results after => List.Forall₂ (fun i a => postTurn i a after) l results := by
  intro l
  induction l with
  | nil =>
      intro before _ _
      exact Stage.of_iff (Stage.pure List.Forall₂.nil) (iff_of_true trivial (by simp))
  | cons i rest ih =>
      intro before hbefore hturn
      obtain ⟨hi, hrest⟩ := List.forall_mem_cons.mp hturn
      rw [List.mapM_cons]
      refine Stage.of_iff ((hi before hbefore (List.Subset.refl _)).bind hone hbefore
        fun a after hafter hsub ha => ?_) (List.forall_mem_cons (p := goodTurn)).symm
      refine Stage.of_iff ((ih hafter fun j hj later hlater hsub' =>
        hrest j hj later hlater (List.Subset.trans hsub hsub')).bind hone hafter
        fun results later _ hsub' hresults => ?_) (Iff.of_eq (and_true _))
      exact Stage.pure (List.Forall₂.cons (hmono i a after later ha hsub') hresults)

end Stage

end Stages

end Files
