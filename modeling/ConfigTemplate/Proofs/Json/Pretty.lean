/-
Pretty JSON is read back.

`Tree.ReadsBack` says of a tree that it is read back from its text, at whatever depth it is
written and whatever follows.

* `Tree.readsBack`: every tree reads back in which no key comes twice and every floating-point
  number is read back;
* `pretty_json_faithful`: so the text of a list or map is read as that list or map, and laying
  out a file of JSON changes neither its tree nor, a second time, the file.

Design notes: the induction is on the tree.  Each value takes at least one character of its
text, so the length of the text is fuel enough.  Not every floating-point number is read back,
as a numeral is rounded more than once; `FloatsReadBack` says that those of a tree are.
-/
import ConfigTemplate.Disk.Template
import ConfigTemplate.Proofs.Json.Values
import ConfigTemplate.Proofs.Tree.Leaves

namespace ConfigTemplate

namespace Tree

open Json

/-- Whether a tree is read back from its text, at whatever depth it is written and whatever
follows. -/
def ReadsBack (t : Tree) : Prop :=
  ∀ n fuel depth r, (t.prettyAt n).length ≤ fuel → t.nesting ≤ depth → EndsNumeral r →
    valueFrom builder fuel depth (t.prettyAt n ++ r) = .ok (t, r)

theorem length_prettyAt_pos (n : Nat) (t : Tree) : 0 < (t.prettyAt n).length := by
  obtain ⟨c, s, h, -⟩ := beginsChild_prettyAt n t []
  rw [List.append_nil] at h
  simp [h]

/-! ### Lists -/

theorem endsNumeral_prettyItems (n m : Nat) (ts : List Tree) (r : Text) :
    EndsNumeral (prettyItems n ts ++ (newline m ++ r)) := by
  cases ts with
  | nil => exact endsNumeral_newline m r
  | cons t ts =>
    rw [prettyItems]
    exact endsNumeral_cons.mpr (by decide)

/-- **Items that read back are read one after another.** -/
theorem itemsFrom_pretty {t : Tree} {ts : List Tree} (h : ∀ u ∈ t :: ts, u.ReadsBack)
    {n m fuel depth : Nat} (hfuel : (t.prettyAt n).length + (prettyItems n ts).length < fuel)
    (hdepth : ∀ u ∈ t :: ts, u.nesting ≤ depth) (first : Bool) (r : Text) :
    itemsFrom builder fuel depth first (lead first ++ (newline n ++ (t.prettyAt n ++
      (prettyItems n ts ++ (newline m ++ ']' :: r))))) = .ok (t :: ts, r) := by
  induction ts generalizing t fuel first with
  | nil =>
    have ht : t.ReadsBack := h t List.mem_cons_self
    have hdt : t.nesting ≤ depth := hdepth t List.mem_cons_self
    have hpos := length_prettyAt_pos n t
    obtain ⟨fuel, rfl⟩ : ∃ f, fuel = f + 2 := ⟨fuel - 2, by omega⟩
    have hvalue := ht n (fuel + 1) depth (newline m ++ ']' :: r) (by omega) hdt
      (endsNumeral_newline m _)
    exact itemsFrom_cons (nextItem_child (beginsChild_prettyAt n t _) first n) hvalue
      (itemsFrom_close (nextItem_close false m r))
  | cons u us ih =>
    obtain ⟨ht, hus⟩ := List.forall_mem_cons.mp h
    obtain ⟨hdt, hdus⟩ := List.forall_mem_cons.mp hdepth
    obtain ⟨fuel, rfl⟩ : ∃ f, fuel = f + 1 := ⟨fuel - 1, by omega⟩
    have hsplit : prettyItems n (u :: us) ++ (newline m ++ ']' :: r) =
        lead false ++ (newline n ++ (u.prettyAt n ++
          (prettyItems n us ++ (newline m ++ ']' :: r)))) := by
      simp [prettyItems, lead]
    have hlength : (prettyItems n (u :: us)).length =
        1 + (newline n).length + (u.prettyAt n).length + (prettyItems n us).length := by
      simp only [prettyItems, List.length_append, List.length_cons]
      omega
    have hvalue := ht n fuel depth (prettyItems n (u :: us) ++ (newline m ++ ']' :: r))
      (by omega) hdt (endsNumeral_prettyItems n m (u :: us) _)
    have hless : (u.prettyAt n).length + (prettyItems n us).length < fuel := by omega
    have hrest := ih hus hless hdus false
    rw [← hsplit] at hrest
    exact itemsFrom_cons (nextItem_child (beginsChild_prettyAt n t _) first n) hvalue hrest

/-! ### Maps -/

theorem endsNumeral_prettyEntries (n m : Nat) (es : List (Text × Tree)) (r : Text) :
    EndsNumeral (prettyEntries n es ++ (newline m ++ r)) := by
  cases es with
  | nil => exact endsNumeral_newline m r
  | cons e es => exact endsNumeral_cons.mpr (by decide)

/-- **Entries whose values read back are read one after another.** -/
theorem membersFrom_pretty {k : Text} {t : Tree} {es : List (Text × Tree)}
    (h : ∀ e ∈ (k, t) :: es, e.2.ReadsBack) {n m fuel depth : Nat}
    (hfuel : (t.prettyAt n).length + (prettyEntries n es).length < fuel)
    (hdepth : ∀ e ∈ (k, t) :: es, e.2.nesting ≤ depth) (first : Bool) (r : Text) :
    membersFrom builder fuel depth first (lead first ++ (newline n ++ (quote k ++ ':' :: ' ' ::
      (t.prettyAt n ++ (prettyEntries n es ++ (newline m ++ '\x7d' :: r)))))) =
      .ok ((k, t) :: es, r) := by
  induction es generalizing k t fuel first with
  | nil =>
    have ht : t.ReadsBack := h (k, t) List.mem_cons_self
    have hdt : t.nesting ≤ depth := hdepth (k, t) List.mem_cons_self
    have hpos := length_prettyAt_pos n t
    obtain ⟨fuel, rfl⟩ : ∃ f, fuel = f + 2 := ⟨fuel - 2, by omega⟩
    have hvalue := ht n (fuel + 1) depth (newline m ++ '\x7d' :: r) (by omega) hdt
      (endsNumeral_newline m _)
    rw [← valueFrom_blank] at hvalue
    exact membersFrom_cons (nextMember_child (beginsChild_quote k _) first n) hvalue
      (membersFrom_close (nextMember_close false m r))
  | cons e es ih =>
    obtain ⟨j, u⟩ := e
    have ht : t.ReadsBack := h (k, t) List.mem_cons_self
    have hdt : t.nesting ≤ depth := hdepth (k, t) List.mem_cons_self
    have hes := (List.forall_mem_cons.mp h).2
    have hdes := (List.forall_mem_cons.mp hdepth).2
    have hpos := length_prettyAt_pos n t
    obtain ⟨fuel, rfl⟩ : ∃ f, fuel = f + 2 := ⟨fuel - 2, by omega⟩
    have hsplit : prettyEntries n ((j, u) :: es) ++ (newline m ++ '\x7d' :: r) =
        lead false ++ (newline n ++ (quote j ++ ':' :: ' ' :: (u.prettyAt n ++
          (prettyEntries n es ++ (newline m ++ '\x7d' :: r))))) := by
      simp [prettyEntries, lead]
    have hlength : (prettyEntries n ((j, u) :: es)).length = 3 + (newline n).length +
        (quote j).length + (u.prettyAt n).length + (prettyEntries n es).length := by
      simp only [prettyEntries, List.length_append, List.length_cons]
      omega
    have hvalue := ht n (fuel + 1) depth
      (prettyEntries n ((j, u) :: es) ++ (newline m ++ '\x7d' :: r)) (by omega) hdt
      (endsNumeral_prettyEntries n m ((j, u) :: es) _)
    have hless : (u.prettyAt n).length + (prettyEntries n es).length < fuel + 1 := by omega
    have hrest := ih hes hless hdes false
    rw [← hsplit] at hrest
    rw [← valueFrom_blank] at hvalue
    exact membersFrom_cons (nextMember_child (beginsChild_quote k _) first n) hvalue hrest

/-! ### Whole trees -/

/-- Whether each floating-point number of a tree is what its text is read as. -/
def FloatsReadBack (t : Tree) : Prop :=
  ∀ x, Within (.number (.float x)) t →
    ofJsonText (Number.float x).text = .ok (.number (.float x))

theorem floatsReadBack_iff {t : Tree} : t.FloatsReadBack ↔
    (∀ x, t = .number (.float x) →
      ofJsonText (Number.float x).text = .ok (.number (.float x))) ∧
    ∀ e ∈ t.children, e.2.FloatsReadBack := by
  constructor
  · intro h
    exact ⟨fun x ht => h x (ht ▸ .self), fun e he x hx => h x (.child he hx)⟩
  · rintro ⟨htop, hbelow⟩ x hx
    rcases within_iff.mp hx with heq | ⟨e, he, hx⟩
    · exact htop x heq.symm
    · exact hbelow e he x hx

/-- A scalar takes one step, whatever the fuel. -/
theorem readsBack_of_succ {t : Tree} (h : ∀ n fuel depth r, EndsNumeral r →
    valueFrom builder (fuel + 1) depth (t.prettyAt n ++ r) = .ok (t, r)) : t.ReadsBack := by
  intro n fuel depth r hfuel _ hr
  have hpos := length_prettyAt_pos n t
  obtain ⟨fuel, rfl⟩ : ∃ f, fuel = f + 1 := ⟨fuel - 1, by omega⟩
  exact h n fuel depth r hr

theorem readsBack_list {items : List Tree} (h : ∀ t ∈ items, t.ReadsBack) :
    (Tree.list items).ReadsBack := by
  intro n fuel depth r hfuel hdepth _
  obtain ⟨depth, rfl⟩ : ∃ d, depth = d + 1 := ⟨depth - 1, by rw [nesting] at hdepth; omega⟩
  rw [nesting_list_le_iff] at hdepth
  cases items with
  | nil =>
    obtain ⟨fuel, rfl⟩ : ∃ f, fuel = f + 2 := ⟨fuel - 2, by simp [prettyAt] at hfuel; omega⟩
    exact valueFrom_array (itemsFrom_close rfl)
  | cons t ts =>
    have hlength : ((Tree.list (t :: ts)).prettyAt n).length = 2 + (newline (n + 1)).length +
        (t.prettyAt (n + 1)).length + (prettyItems (n + 1) ts).length + (newline n).length := by
      simp only [prettyAt, List.length_append, List.length_cons, List.length_nil]
      omega
    have hsplit : (Tree.list (t :: ts)).prettyAt n ++ r = '[' :: (lead true ++ (newline (n + 1) ++
        (t.prettyAt (n + 1) ++ (prettyItems (n + 1) ts ++ (newline n ++ ']' :: r))))) := by
      simp [prettyAt, lead]
    obtain ⟨fuel, rfl⟩ : ∃ f, fuel = f + 1 := ⟨fuel - 1, by omega⟩
    have hless : (t.prettyAt (n + 1)).length + (prettyItems (n + 1) ts).length < fuel := by omega
    rw [hsplit]
    exact valueFrom_array (itemsFrom_pretty h hless hdepth true r)

theorem readsBack_map {entries : Entries Tree} (hdistinct : entries.Distinct)
    (h : ∀ e ∈ entries, e.2.ReadsBack) : (Tree.map entries).ReadsBack := by
  intro n fuel depth r hfuel hdepth _
  obtain ⟨depth, rfl⟩ : ∃ d, depth = d + 1 := ⟨depth - 1, by rw [nesting] at hdepth; omega⟩
  rw [nesting_map_le_iff] at hdepth
  cases entries with
  | nil =>
    obtain ⟨fuel, rfl⟩ : ∃ f, fuel = f + 2 := ⟨fuel - 2, by simp [prettyAt] at hfuel; omega⟩
    exact valueFrom_object (membersFrom_close rfl)
  | cons e es =>
    obtain ⟨k, t⟩ := e
    have hlength : ((Tree.map ((k, t) :: es)).prettyAt n).length = 4 + (newline (n + 1)).length +
        (quote k).length + (t.prettyAt (n + 1)).length + (prettyEntries (n + 1) es).length +
          (newline n).length := by
      simp only [prettyAt, List.length_append, List.length_cons, List.length_nil]
      omega
    have hsplit : (Tree.map ((k, t) :: es)).prettyAt n ++ r = '\x7b' :: (lead true ++
        (newline (n + 1) ++ (quote k ++ ':' :: ' ' :: (t.prettyAt (n + 1) ++
          (prettyEntries (n + 1) es ++ (newline n ++ '\x7d' :: r)))))) := by
      simp [prettyAt, lead]
    obtain ⟨fuel, rfl⟩ : ∃ f, fuel = f + 1 := ⟨fuel - 1, by omega⟩
    have hless : (t.prettyAt (n + 1)).length + (prettyEntries (n + 1) es).length < fuel := by omega
    -- As no key comes twice, the entries are put one behind another.
    have hput : Entries.putAll [] ((k, t) :: es) = (k, t) :: es :=
      Entries.putAll_eq_append hdistinct
    rw [hsplit, valueFrom_object (membersFrom_pretty h hless hdepth true r)]
    show Except.ok (Tree.map (Entries.putAll [] ((k, t) :: es)), r) = _
    rw [hput]

/-- **Every tree reads back** in which no key comes twice and every floating-point number is
read back. -/
theorem readsBack {t : Tree} (hkeyed : t.WellKeyed) (hfloats : t.FloatsReadBack) :
    t.ReadsBack := by
  induction t with
  | null => exact readsBack_of_succ fun _ _ _ r _ => valueFrom_nullText r
  | bool b => exact readsBack_of_succ fun _ _ _ r _ => valueFrom_boolText b r
  | number n =>
    have hn : ofJsonText n.text = .ok (.number n) := by
      cases n with
      | int n h => exact ofJsonText_int n h
      | float x => exact hfloats x .self
    exact readsBack_of_succ fun _ _ _ _ hr => valueFrom_number (ofJsonText_number_iff.mp hn) hr
  | string s => exact readsBack_of_succ fun _ _ _ r _ => valueFrom_quote s r
  | list items ih =>
    refine readsBack_list fun t ht => ?_
    obtain ⟨i, hi⟩ := List.mem_iff_getElem?.mp ht
    have hmem : (Decimal.natText i, t) ∈ (Tree.list items).children :=
      mem_children_list_iff.mpr ⟨i, rfl, hi⟩
    exact ih t ht (hkeyed.child hmem) ((floatsReadBack_iff.mp hfloats).2 _ hmem)
  | map entries ih =>
    refine readsBack_map (wellKeyed_map_iff.mp hkeyed).1 fun e he => ?_
    exact ih e he (hkeyed.child he) ((floatsReadBack_iff.mp hfloats).2 e he)

/-- **Pretty JSON is read as the tree that it shows**, also with white space behind it. -/
theorem ofJsonText_pretty {t : Tree} (hkeyed : t.WellKeyed) (hnesting : t.nesting ≤ maxDepth)
    (hfloats : t.FloatsReadBack) {r : Text} (hblank : skipSpace r = []) (hends : EndsNumeral r) :
    ofJsonText (t.pretty ++ r) = .ok t := by
  have hfuel : (t.prettyAt 0).length ≤ 2 * (t.prettyAt 0 ++ r).length + 2 := by
    rw [List.length_append]
    omega
  rw [ofJsonText_eq_readWith, readWith, readValueWith, pretty,
    readsBack hkeyed hfloats 0 _ _ r hfuel hnesting hends]
  show (readEnd r >>= fun _ => Except.ok t) = _
  rw [readEnd, hblank]
  rfl

theorem text_of_not_scalar {t : Tree} (h : t.isScalar = false) : t.text = t.pretty := by
  cases t <;> simp_all [isScalar, text]

end Tree

theorem prettify_of_ok {s : Text} {t : Tree} (h : Tree.ofJsonText s = .ok t) :
    prettify s = t.pretty ++ ['\n'] := by
  rw [prettify, h]

theorem prettify_of_error {s : Text} {f : Json.Fault} (h : Tree.ofJsonText s = .error f) :
    prettify s = s := by
  rw [prettify, h]

theorem finish_of_json {options : RenderOptions} {path : Text} (hpretty : options.pretty = true)
    (hpath : Disk.fileExtension? path = some "json".toList) (s : Text) :
    Disk.finish options path s = Utf8.encode (prettify s) := by
  simp [Disk.finish, hpretty, hpath]

/-- **Pretty JSON is a faithful and stable encoding**, as far as floating-point numbers are read
back from their texts.  The text of a list or map is read as that list or map, up to the depth
at which the reader stops.  A file of JSON is written laid out: that is read as the same tree,
and laying it out again changes nothing.  A text that is not JSON is written as it is. -/
theorem pretty_json_faithful :
    (∀ t : Tree, t.isScalar = false → t.WellKeyed → t.nesting ≤ 127 → t.FloatsReadBack →
      Tree.ofJsonText t.text = .ok t) ∧
    ∀ options path, options.pretty = true → Disk.fileExtension? path = some "json".toList →
      ∀ source,
        (∀ t, Tree.ofJsonText source = .ok t → t.FloatsReadBack →
          ∃ out, Disk.finish options path source = Utf8.encode out ∧
            Tree.ofJsonText out = .ok t ∧ Disk.finish options path out = Utf8.encode out) ∧
        ∀ fault, Tree.ofJsonText source = .error fault →
          Disk.finish options path source = Utf8.encode source := by
  constructor
  · intro t hscalar hkeyed hnesting hfloats
    have hread := Tree.ofJsonText_pretty hkeyed hnesting hfloats rfl Json.endsNumeral_nil
    rwa [List.append_nil, ← Tree.text_of_not_scalar hscalar] at hread
  · intro options path hpretty hpath source
    have hfinish := finish_of_json hpretty hpath
    constructor
    · intro t ht hfloats
      have hread : Tree.ofJsonText (t.pretty ++ ['\n']) = .ok t :=
        Tree.ofJsonText_pretty (Tree.wellKeyed_of_ofJsonText ht) (Tree.nesting_le_of_ofJsonText ht)
          hfloats rfl (Json.endsNumeral_newline 0 [])
      refine ⟨t.pretty ++ ['\n'], ?_, hread, ?_⟩
      · rw [hfinish, prettify_of_ok ht]
      · rw [hfinish, prettify_of_ok hread]
    · intro fault hfault
      rw [hfinish, prettify_of_error hfault]

/-- The number 1.5. -/
def Binary64.oneAndAHalf : Binary64 :=
  ⟨false, 1023 * Nat.pow 2 52 + Nat.pow 2 51, by decide⟩

/-- A tree with a number, with characters that are escaped and with one that is not. -/
def Tree.escapes : Tree :=
  .map [("\"\n".toList, .list [.number (.float .oneAndAHalf), .string "\\\x01\u00e9".toList])]

theorem ofJsonText_oneAndAHalf : Tree.ofJsonText (Number.float .oneAndAHalf).text =
    .ok (.number (.float .oneAndAHalf)) := by
  have htext : (Number.float .oneAndAHalf).text = ['1', '.', '5'] := by decide +kernel
  have hvalue : Number.ofSignificand? false (.ofParts ['1'] ['5']) =
      some (.float .oneAndAHalf) := by
    decide +kernel
  have hwhole : Json.readWhole ['1', '.', '5'] = .ok (['1'], ['.', '5']) := rfl
  have hfraction : Json.readFraction ['5'] = .ok (['5'], []) := rfl
  rw [Json.ofJsonText_number_iff, htext, Json.readNumeral_of_ne (by decide)]
  simp only [Json.readNumber, hwhole, hfraction, hvalue, bind, Except.bind]

theorem floatsReadBack_escapes : Tree.escapes.FloatsReadBack := by
  refine Tree.floatsReadBack_iff.mpr ⟨fun x h => by simp [Tree.escapes] at h, ?_⟩
  refine List.forall_mem_singleton.mpr ?_
  refine Tree.floatsReadBack_iff.mpr ⟨fun x h => by simp at h, ?_⟩
  refine List.forall_mem_cons.mpr ⟨?_, List.forall_mem_singleton.mpr ?_⟩
  · refine Tree.floatsReadBack_iff.mpr ⟨?_, by simp [Tree.children]⟩
    rintro x ⟨rfl⟩
    exact ofJsonText_oneAndAHalf
  · exact Tree.floatsReadBack_iff.mpr ⟨fun x h => by simp at h, by simp [Tree.children]⟩

theorem pretty_json_faithful_escapes :
    Tree.escapes.isScalar = false ∧ Tree.escapes.WellKeyed ∧ Tree.escapes.nesting ≤ 127 ∧
    Tree.escapes.FloatsReadBack ∧
    Tree.ofJsonText Tree.escapes.text = .ok Tree.escapes ∧
    ∃ out, Disk.finish ⟨false, true⟩ "a.json".toList Tree.escapes.text = Utf8.encode out ∧
      Tree.ofJsonText out = .ok Tree.escapes ∧
      Disk.finish ⟨false, true⟩ "a.json".toList out = Utf8.encode out := by
  have hkeyed : Tree.escapes.WellKeyed := by
    simp [Tree.escapes, Tree.WellKeyed, Tree.WellKeyedEntries, Tree.WellKeyedItems,
      Entries.Distinct]
  have hread := pretty_json_faithful.1 Tree.escapes rfl hkeyed (by decide) floatsReadBack_escapes
  exact ⟨rfl, hkeyed, by decide, floatsReadBack_escapes, hread,
    (pretty_json_faithful.2 ⟨false, true⟩ "a.json".toList rfl (by decide) _).1 _ hread
      floatsReadBack_escapes⟩

end ConfigTemplate
