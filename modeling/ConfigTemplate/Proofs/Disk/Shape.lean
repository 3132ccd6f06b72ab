/-
What writing to a file leaves as it is.

The shape of a disk is what is there without what the files hold: all directories with
their entries, all links, and which of the items are files.

* `Disk.locate_shape`, `Disk.walk_shape`: where a path leads and what a walk visits are
  matters of the shape alone;
* `Item.shape_setAt`, `Item.contentAt_setAt_self`, `Item.contentAt_setAt_of_ne`: a file
  put where a file is changes what is in this file and nothing else.

Design notes: the entries of a directory are in order of their names, and putting an item
at a name relies on it.  `Item.WellFormed` says so of an item and of all below it, and
`Disk.WellFormed.place` that a disk stays so as items are put on it.
-/
import ConfigTemplate.Disk.Walk

namespace ConfigTemplate

/-- What an entry of a directory can be called: a path with the name as one of its steps
goes to the entry. -/
structure Disk.IsName (name : Text) : Prop where
  ne_nil : name ≠ []
  slash_notMem : '/' ∉ name
  ne_here : name ≠ ['.']
  ne_up : name ≠ ['.', '.']

instance : DecidablePred Disk.IsName := fun name =>
  decidable_of_iff (name ≠ [] ∧ '/' ∉ name ∧ name ≠ ['.'] ∧ name ≠ ['.', '.'])
    ⟨fun ⟨hnil, hslash, hhere, hup⟩ => ⟨hnil, hslash, hhere, hup⟩,
      fun h => ⟨h.ne_nil, h.slash_notMem, h.ne_here, h.ne_up⟩⟩

namespace Item

/-- Whether all directories, from an item down, have their entries in order, each with a
name of its own. -/
inductive WellFormed : Item → Prop
  | file (content : Bytes) : WellFormed (file content)
  | link (target : Text) : WellFormed (link target)
  | dir {es : List (Text × Item)}
      (ordered : (Entries.keys es).Pairwise fun m n => Text.le n m = false)
      (named : ∀ name ∈ Entries.keys es, Disk.IsName name)
      (below : ∀ e ∈ es, WellFormed e.2) : WellFormed (dir es)

/-- Whether there is no link, from an item down. -/
inductive LinkFree : Item → Prop
  | file (content : Bytes) : LinkFree (file content)
  | dir {es : List (Text × Item)} (below : ∀ e ∈ es, LinkFree e.2) : LinkFree (dir es)

mutual

/-- An item without what its files hold. -/
def shape : Item → Item
  | .file _ => .file []
  | .dir es => .dir (shapeAll es)
  | .link target => .link target

/-- The shapes of the entries of a directory, under their names. -/
def shapeAll : List (Text × Item) → List (Text × Item)
  | [] => []
  | (name, i) :: es => (name, i.shape) :: shapeAll es

end

/-- What the file that names lead to holds, if they lead to a file. -/
def contentAt (i : Item) (names : List Text) : Option Bytes :=
  match i.itemAt names with
  | some (file content) => some content
  | _ => none

theorem shapeAll_eq_map (es : List (Text × Item)) :
    shapeAll es = es.map fun e => (e.1, e.2.shape) := by
  induction es with
  | nil => rfl
  | cons e es ih => rw [shapeAll, ih, List.map_cons]

@[simp] theorem keys_shapeAll (es : List (Text × Item)) :
    Entries.keys (shapeAll es) = Entries.keys es := by
  simp [shapeAll_eq_map, Entries.keys]

theorem get?_shapeAll (es : List (Text × Item)) (name : Text) :
    Entries.get? (shapeAll es) name = (Entries.get? es name).map shape := by
  induction es with
  | nil => rfl
  | cons e es ih =>
    rw [shapeAll, Entries.get?_cons, Entries.get?_cons, ih]
    split <;> rfl

theorem shapeAll_put (es : List (Text × Item)) (name : Text) (i : Item) :
    shapeAll (Entries.put es name i) = Entries.put (shapeAll es) name i.shape := by
  induction es with
  | nil => rfl
  | cons e es ih =>
    simp only [Entries.put, shapeAll]
    split
    · rfl
    · rw [shapeAll, ih]

@[simp] theorem isDir_shape (i : Item) : i.shape.isDir = i.isDir := by
  cases i <;> rfl

theorem itemAt_cons (es : List (Text × Item)) (name : Text) (names : List Text) :
    itemAt (dir es) (name :: names) = (Entries.get? es name).bind (itemAt · names) := rfl

theorem itemAt_cons_eq_some_iff {i k : Item} {name : Text} {names : List Text} :
    i.itemAt (name :: names) = some k ↔
      ∃ es j, i = dir es ∧ Entries.get? es name = some j ∧ j.itemAt names = some k := by
  cases i with
  | file content => simp [itemAt]
  | link target => simp [itemAt]
  | dir es => simp [itemAt_cons, Option.bind_eq_some_iff]

theorem itemAt_append (i : Item) (xs ys : List Text) :
    i.itemAt (xs ++ ys) = (i.itemAt xs).bind (·.itemAt ys) := by
  induction xs generalizing i with
  | nil => rfl
  | cons x xs ih =>
    cases i with
    | file content => rfl
    | link target => rfl
    | dir es =>
      rw [List.cons_append, itemAt_cons, itemAt_cons]
      rcases Entries.get? es x with _ | j
      · rfl
      · exact ih j

theorem itemAt_shape (i : Item) (names : List Text) :
    i.shape.itemAt names = (i.itemAt names).map shape := by
  induction names generalizing i with
  | nil => rfl
  | cons name names ih =>
    cases i with
    | file content => rfl
    | link target => rfl
    | dir es =>
      rw [shape, itemAt_cons, itemAt_cons, get?_shapeAll]
      rcases Entries.get? es name with _ | j
      · rfl
      · exact ih j

theorem contentAt_eq_some_iff {i : Item} {names : List Text} {content : Bytes} :
    i.contentAt names = some content ↔ i.itemAt names = some (file content) := by
  unfold contentAt
  split
  · next c h => simp [h]
  · next h => simpa using fun hf => h content hf

theorem contentAt_cons (es : List (Text × Item)) (name : Text) (names : List Text) :
    contentAt (dir es) (name :: names) = (Entries.get? es name).bind (contentAt · names) := by
  unfold contentAt
  rw [itemAt_cons]
  rcases Entries.get? es name with _ | j <;> rfl

/-! ### Well-formed items -/

@[simp] theorem wellFormed_file (content : Bytes) : (file content).WellFormed :=
  .file content

theorem wellFormed_dir_iff {es : List (Text × Item)} :
    (dir es).WellFormed ↔
      ((Entries.keys es).Pairwise (fun m n => Text.le n m = false) ∧
        ∀ name ∈ Entries.keys es, Disk.IsName name) ∧ ∀ e ∈ es, e.2.WellFormed := by
  constructor
  · intro h
    cases h with
    | dir ordered named below => exact ⟨⟨ordered, named⟩, below⟩
  · rintro ⟨⟨ordered, named⟩, below⟩
    exact .dir ordered named below

@[simp] theorem linkFree_file (content : Bytes) : (file content).LinkFree :=
  .file content

theorem linkFree_dir_iff {es : List (Text × Item)} :
    (dir es).LinkFree ↔ ∀ e ∈ es, e.2.LinkFree := by
  constructor
  · intro h
    cases h with
    | dir below => exact below
  · exact .dir

theorem WellFormed.of_get? {es : List (Text × Item)} {name : Text} {i : Item}
    (h : (Item.dir es).WellFormed) (hi : Entries.get? es name = some i) : i.WellFormed :=
  (wellFormed_dir_iff.mp h).2 _ (Entries.mem_of_get?_eq_some hi)

theorem LinkFree.of_get? {es : List (Text × Item)} {name : Text} {i : Item}
    (h : (Item.dir es).LinkFree) (hi : Entries.get? es name = some i) : i.LinkFree :=
  linkFree_dir_iff.mp h _ (Entries.mem_of_get?_eq_some hi)

theorem WellFormed.of_itemAt {i j : Item} {names : List Text} (h : i.WellFormed)
    (hj : i.itemAt names = some j) : j.WellFormed := by
  induction names generalizing i with
  | nil =>
    obtain rfl : i = j := Option.some.inj hj
    exact h
  | cons name names ih =>
    obtain ⟨es, k, rfl, hk, hj⟩ := itemAt_cons_eq_some_iff.mp hj
    exact ih (h.of_get? hk) hj

/-- Being well formed is a matter of the shape. -/
theorem WellFormed.of_shape {i j : Item} (h : i.WellFormed) (hshape : j.shape = i.shape) :
    j.WellFormed := by
  induction h generalizing j with
  | file content =>
    cases j with
    | file c => exact .file c
    | dir es => simp [shape] at hshape
    | link target => simp [shape] at hshape
  | link target =>
    cases j with
    | file c => simp [shape] at hshape
    | dir es => simp [shape] at hshape
    | link target => exact .link target
  | @dir es ordered named below ih =>
    cases j with
    | file c => simp [shape] at hshape
    | link target => simp [shape] at hshape
    | dir fs =>
      have hall : shapeAll fs = shapeAll es := by simpa [shape] using hshape
      have hkeys : Entries.keys fs = Entries.keys es := by
        rw [← keys_shapeAll fs, hall, keys_shapeAll]
      refine .dir (hkeys ▸ ordered) (hkeys ▸ named) fun f hf => ?_
      -- An entry has its like at the same place in the other directory.
      have hmem : (f.1, f.2.shape) ∈ shapeAll es := by
        rw [← hall, shapeAll_eq_map]
        exact List.mem_map_of_mem hf
      rw [shapeAll_eq_map, List.mem_map] at hmem
      obtain ⟨e, he, heq⟩ := hmem
      exact ih e he (congrArg Prod.snd heq).symm

/-! ### Putting items -/

theorem mem_putEntry {es : List (Text × Item)} {e : Text × Item} {name : Text} {i : Item}
    (h : e ∈ putEntry es name i) : e = (name, i) ∨ e ∈ es := by
  induction es with
  | nil => exact .inl (List.mem_singleton.mp h)
  | cons f es ih =>
    unfold putEntry at h
    split at h
    · next heq =>
      rcases List.mem_cons.mp h with rfl | h
      · exact .inl (by rw [heq])
      · exact .inr (List.mem_cons_of_mem _ h)
    · split at h
      · exact List.mem_cons.mp h
      · rcases List.mem_cons.mp h with rfl | h
        · exact .inr List.mem_cons_self
        · exact (ih h).imp_right (List.mem_cons_of_mem _)

theorem mem_keys_putEntry {es : List (Text × Item)} {m name : Text} {i : Item}
    (h : m ∈ Entries.keys (putEntry es name i)) : m = name ∨ m ∈ Entries.keys es := by
  obtain ⟨e, he, rfl⟩ := List.mem_map.mp h
  exact (mem_putEntry he).imp (congrArg Prod.fst) List.mem_map_of_mem

theorem ordered_putEntry {es : List (Text × Item)} (name : Text) (i : Item)
    (h : (Entries.keys es).Pairwise fun m n => Text.le n m = false) :
    (Entries.keys (putEntry es name i)).Pairwise fun m n => Text.le n m = false := by
  induction es with
  | nil => simp [putEntry, Entries.keys]
  | cons e es ih =>
    obtain ⟨m, j⟩ := e
    obtain ⟨hfirst, hrest⟩ := List.pairwise_cons.mp h
    unfold putEntry
    split
    · exact h
    · next hne =>
      split
      · next hle =>
        -- The new name comes first, before the one that did.
        refine List.pairwise_cons.mpr ⟨fun n hn => ?_, h⟩
        have hlt : name < m := Text.lt_of_le hle (Ne.symm hne)
        rcases List.mem_cons.mp hn with rfl | hn
        · exact Text.le_eq_false_iff.mpr hlt
        · exact Text.le_eq_false_iff.mpr (List.lt_trans hlt (Text.le_eq_false_iff.mp (hfirst n hn)))
      · next hle =>
        refine List.pairwise_cons.mpr ⟨fun n hn => ?_, ih hrest⟩
        rcases mem_keys_putEntry hn with rfl | hn
        · exact Bool.eq_false_iff.mpr hle
        · exact hfirst n hn

theorem WellFormed.putEntry {es : List (Text × Item)} {name : Text} {i : Item}
    (h : (Item.dir es).WellFormed) (hname : Disk.IsName name) (hi : i.WellFormed) :
    (Item.dir (Item.putEntry es name i)).WellFormed := by
  obtain ⟨⟨hordered, hnamed⟩, hbelow⟩ := wellFormed_dir_iff.mp h
  refine .dir (ordered_putEntry name i hordered) (fun m hm => ?_) fun e he => ?_
  · rcases mem_keys_putEntry hm with rfl | hm
    · exact hname
    · exact hnamed m hm
  · rcases mem_putEntry he with rfl | he
    · exact hi
    · exact hbelow e he

theorem WellFormed.setAt {i j : Item} {names : List Text} (h : i.WellFormed)
    (hnames : ∀ name ∈ names, Disk.IsName name) (hj : j.WellFormed) :
    (i.setAt names j).WellFormed := by
  induction names generalizing i with
  | nil =>
    rw [Item.setAt]
    exact hj
  | cons name names ih =>
    have hname := hnames name List.mem_cons_self
    have hrest : ∀ {k : Item}, k.WellFormed → (k.setAt names j).WellFormed :=
      fun hk => ih hk fun n hn => hnames n (List.mem_cons_of_mem _ hn)
    have hempty : (Item.dir []).WellFormed := wellFormed_dir_iff.mpr (by simp [Entries.keys])
    cases i with
    | file content => exact hempty.putEntry hname (hrest hempty)
    | link target => exact hempty.putEntry hname (hrest hempty)
    | dir es =>
      rw [Item.setAt]
      refine h.putEntry hname (hrest ?_)
      rcases hk : Entries.get? es name with _ | k
      · exact hempty
      · exact h.of_get? hk

/-! ### Putting a file where a file is -/

/-- In a directory in order, an item put at a name that is there stands in its place. -/
theorem putEntry_eq_put {es : List (Text × Item)} {name : Text}
    (hordered : (Entries.keys es).Pairwise fun m n => Text.le n m = false)
    (hname : name ∈ Entries.keys es) (i : Item) :
    putEntry es name i = Entries.put es name i := by
  induction es with
  | nil => simp at hname
  | cons e es ih =>
    obtain ⟨m, j⟩ := e
    rw [Entries.keys_cons, List.pairwise_cons] at hordered
    by_cases hm : m = name
    · simp [putEntry, Entries.put, hm]
    · have hrest : name ∈ Entries.keys es :=
        (List.mem_cons.mp hname).resolve_left (Ne.symm hm)
      have hle : Text.le name m = false := hordered.1 name hrest
      simp [putEntry, Entries.put, hm, hle, ih hordered.2 hrest]

section

variable {es : List (Text × Item)} {name : Text} {j : Item}

/-- Putting an item below an entry that is there. -/
theorem setAt_cons (h : WellFormed (dir es)) (hj : Entries.get? es name = some j)
    (names : List Text) (i : Item) :
    setAt (dir es) (name :: names) i = dir (Entries.put es name (j.setAt names i)) := by
  cases h with
  | dir ordered _ _ =>
    have hmem : name ∈ Entries.keys es := Entries.mem_keys_iff_exists_get?.mpr ⟨j, hj⟩
    rw [setAt, hj, Option.getD_some, putEntry_eq_put ordered hmem]

end

section

variable {i : Item} {names : List Text} {old new : Bytes}

theorem shape_setAt (h : i.WellFormed) (hold : i.itemAt names = some (file old)) :
    (i.setAt names (file new)).shape = i.shape := by
  induction names generalizing i with
  | nil =>
    obtain rfl : i = file old := Option.some.inj hold
    rfl
  | cons name names ih =>
    obtain ⟨es, j, rfl, hj, hold⟩ := itemAt_cons_eq_some_iff.mp hold
    have hsame : Entries.get? (shapeAll es) name = some (j.setAt names (file new)).shape := by
      rw [get?_shapeAll, hj, ih (h.of_get? hj) hold]
      rfl
    rw [setAt_cons h hj, shape, shapeAll_put, Entries.put_eq_self hsame, shape]

theorem contentAt_setAt_self (h : i.WellFormed) (hold : i.itemAt names = some (file old)) :
    (i.setAt names (file new)).contentAt names = some new := by
  induction names generalizing i with
  | nil =>
    rw [setAt]
    rfl
  | cons name names ih =>
    obtain ⟨es, j, rfl, hj, hold⟩ := itemAt_cons_eq_some_iff.mp hold
    rw [setAt_cons h hj, contentAt_cons, Entries.get?_put_self, Option.bind_some,
      ih (h.of_get? hj) hold]

theorem contentAt_setAt_of_ne (h : i.WellFormed) (hold : i.itemAt names = some (file old))
    {others : List Text} (hne : others ≠ names) :
    (i.setAt names (file new)).contentAt others = i.contentAt others := by
  induction names generalizing i others with
  | nil =>
    obtain rfl : i = file old := Option.some.inj hold
    -- Nothing is below a file.
    cases others with
    | nil => exact absurd rfl hne
    | cons other others => rfl
  | cons name names ih =>
    obtain ⟨es, j, rfl, hj, hold⟩ := itemAt_cons_eq_some_iff.mp hold
    rw [setAt_cons h hj]
    cases others with
    | nil => rfl
    | cons other others =>
      rw [contentAt_cons, contentAt_cons]
      by_cases hother : other = name
      · have hbelow : others ≠ names := fun heq => hne (by rw [hother, heq])
        rw [hother, Entries.get?_put_self, hj, Option.bind_some, Option.bind_some,
          ih (h.of_get? hj) hold hbelow]
      · rw [Entries.get?_put_of_ne es _ hother]

end

/-! ### What depends on the shape alone -/

mutual

theorem visits_shape (i : Item) (path relative : Text) :
    i.shape.visits path relative = i.visits path relative := by
  match i with
  | .file _ => rfl
  | .dir es => exact entryVisits_shapeAll es path relative
  | .link _ => rfl

theorem entryVisits_shapeAll (es : List (Text × Item)) (path relative : Text) :
    entryVisits path relative (shapeAll es) = entryVisits path relative es := by
  match es with
  | [] => rfl
  | (name, i) :: es =>
    simp only [shapeAll, entryVisits, isDir_shape]
    rw [visits_shape i, entryVisits_shapeAll es]

end

end Item

namespace Disk

/-- A disk without what its files hold. -/
def shape (d : Disk) : Disk :=
  ⟨d.top.shape⟩

/-- Whether all directories of a disk have their entries in order, each with a name of its
own. -/
def WellFormed (d : Disk) : Prop :=
  d.top.WellFormed

theorem WellFormed.of_shape {d after : Disk} (h : d.WellFormed) (hshape : after.shape = d.shape) :
    after.WellFormed :=
  Item.WellFormed.of_shape h (congrArg Disk.top hshape)

/-- **Putting an item on a disk keeps it well formed.** -/
theorem WellFormed.place {d : Disk} {path : Text} {i : Item} (h : d.WellFormed)
    (hpath : ∀ name ∈ steps path, IsName name) (hi : i.WellFormed) :
    (d.place path i).WellFormed :=
  Item.WellFormed.setAt h hpath hi

theorem go_shape (d : Disk) (last : Bool)
    (hop : List Text → List Text → Except DiskError (List Text)) (here steps : List Text) :
    go d.shape last hop here steps = go d last hop here steps := by
  induction steps generalizing here with
  | nil => rfl
  | cons name steps ih =>
    have hitem : d.shape.top.itemAt here = (d.top.itemAt here).map Item.shape :=
      d.top.itemAt_shape here
    unfold go
    rw [hitem]
    rcases d.top.itemAt here with _ | i
    · rfl
    · cases i with
      | file content => rfl
      | link target => rfl
      | dir es =>
        simp only [Option.map_some, Item.shape, ih, Item.get?_shapeAll]
        rcases Entries.get? es name with _ | j
        · rfl
        · cases j <;> rfl

theorem follow_shape (d : Disk) (last : Bool) (hops : Nat) :
    d.shape.follow last hops = d.follow last hops := by
  induction hops with
  | zero =>
    funext here steps
    exact go_shape d last _ here steps
  | succ hops ih =>
    funext here steps
    rw [follow, follow, ih, go_shape]

theorem locate_shape (d : Disk) (last : Bool) (path : Text) :
    d.shape.locate last path = d.locate last path := by
  rw [locate, locate, follow_shape]

theorem find_shape (d : Disk) (path : Text) :
    d.shape.find path = (d.find path).map Item.shape := by
  have hitem (names : List Text) :
      d.shape.top.itemAt names = (d.top.itemAt names).map Item.shape :=
    d.top.itemAt_shape names
  rw [find, find, locate_shape]
  rcases d.locate true path with e | names
  · rfl
  · simp only [bind, Except.bind, hitem]
    rcases d.top.itemAt names with _ | i <;> rfl

theorem walk_shape (d : Disk) (path : Text) : d.shape.walk path = d.walk path := by
  rw [walk, walk, find_shape]
  rcases d.find path with e | i
  · rfl
  · simp only [Except.map, Item.visits_shape]

section

variable {d after : Disk} (hshape : after.shape = d.shape)

include hshape

theorem locate_eq_of_shape (last : Bool) (path : Text) :
    after.locate last path = d.locate last path := by
  rw [← locate_shape, hshape, locate_shape]

theorem walk_eq_of_shape (path : Text) : after.walk path = d.walk path := by
  rw [← walk_shape, hshape, walk_shape]

/-- What reading a path gives is a matter of the shape and of what is in the file that the
path leads to. -/
theorem read_eq_of_shape {path : Text}
    (hcontent : ∀ names, d.locate true path = .ok names →
      after.top.contentAt names = d.top.contentAt names) :
    after.read path = d.read path := by
  rw [read, read, find, find, locate_eq_of_shape hshape]
  rcases hnames : d.locate true path with e | names
  · rfl
  · have hsame := hcontent names hnames
    have hitem : (after.top.itemAt names).map Item.shape =
        (d.top.itemAt names).map Item.shape := by
      rw [← Item.itemAt_shape, ← Item.itemAt_shape]
      exact congrArg (fun s => s.top.itemAt names) hshape
    simp only [bind, Except.bind]
    unfold Item.contentAt at hsame
    generalize after.top.itemAt names = i at hitem hsame ⊢
    generalize d.top.itemAt names = j at hitem hsame ⊢
    rcases i with _ | i <;> rcases j with _ | j
    · rfl
    · simp at hitem
    · simp at hitem
    · cases i <;> cases j <;> simp_all [Item.shape]

end

theorem find_eq_ok_iff {d : Disk} {path : Text} {i : Item} :
    d.find path = .ok i ↔
      ∃ names, d.locate true path = .ok names ∧ d.top.itemAt names = some i := by
  rw [find]
  rcases d.locate true path with e | names
  · simp [bind, Except.bind]
  · simp only [bind, Except.bind]
    rcases hi : d.top.itemAt names with _ | j <;> simp [hi]

theorem read_eq_ok_iff {d : Disk} {path : Text} {content : Bytes} :
    d.read path = .ok content ↔
      ∃ names, d.locate true path = .ok names ∧ d.top.itemAt names = some (.file content) := by
  rw [← find_eq_ok_iff, read]
  rcases d.find path with e | i
  · simp [bind, Except.bind]
  · cases i <;> simp [bind, Except.bind]

/-! ### Writing -/

/-- `after` is the disk `d` with a file at a path rewritten. -/
structure Rewrites (d : Disk) (path : Text) (content : Bytes) (after : Disk) : Prop where
  shape : after.shape = d.shape
  read_self : after.read path = .ok content
  read_other : ∀ other, d.locate true other ≠ d.locate true path →
    after.read other = d.read other

/-- **Writing to a file that can be read** changes what is in this file and nothing else. -/
theorem rewrites_write {d : Disk} {path : Text} {old : Bytes} (hwf : d.WellFormed)
    (hread : d.read path = .ok old) (new : Bytes) :
    ∃ after, d.write path new = .ok after ∧ Rewrites d path new after := by
  obtain ⟨names, hnames, hold⟩ := read_eq_ok_iff.mp hread
  have hshape : Disk.shape ⟨d.top.setAt names (.file new)⟩ = d.shape :=
    congrArg Disk.mk (Item.shape_setAt hwf hold)
  refine ⟨⟨d.top.setAt names (.file new)⟩, ?_, hshape, ?_, fun other hother => ?_⟩
  · simp [write, hnames, hold, bind, Except.bind]
  · refine read_eq_ok_iff.mpr ⟨names, ?_, ?_⟩
    · rw [locate_eq_of_shape hshape, hnames]
    · exact Item.contentAt_eq_some_iff.mp (Item.contentAt_setAt_self hwf hold)
  · refine read_eq_of_shape hshape fun others hothers => ?_
    have hne : others ≠ names := by
      intro heq
      exact hother (by rw [hothers, hnames, heq])
    exact Item.contentAt_setAt_of_ne hwf hold hne

end Disk

end ConfigTemplate
