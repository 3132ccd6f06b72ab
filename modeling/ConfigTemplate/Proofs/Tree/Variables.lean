/-
The names of environment variables.

In a configuration with plain keys, the name of a variable tells its prefix and the
path of the scalar it is made from.

* `environmentName_inj`: names are as different as paths;
* `segments_dotted`: and so are dotted paths, which lead where the path does;
* `nodup_published`: so no two variables of the leaves have one name;
* `environment_eq_flatMap`: and the environment has all of them, one for each prefix and
  each leaf.
-/
import ConfigTemplate.Proofs.Reference.Grammar
import ConfigTemplate.Proofs.Tree.Leaves
import ConfigTemplate.Reference.EnvVar
import ConfigTemplate.Template.Context

namespace ConfigTemplate

/-- Whether a key is a name of letters, digits and hyphens. -/
def PlainKey (k : Text) : Prop :=
  k ≠ [] ∧ ∀ c ∈ k, c.isAlphanum = true ∨ c = '-'

instance (k : Text) : Decidable (PlainKey k) :=
  decidable_of_iff (k ≠ [] ∧ k.all (fun c => c.isAlphanum || c = '-')) (by simp [PlainKey])

/-- A path as templates write it. -/
def dotted (path : List Text) : Text :=
  List.intercalate ['.'] path

/-! ### Plain keys -/

theorem ne_of_plain {c d : Char} (hc : c.isAlphanum = true ∨ c = '-')
    (hd : d.isAlphanum = false) (hne : d ≠ '-') : c ≠ d := by
  rintro rfl
  rcases hc with hc | hc
  · simp [hd] at hc
  · exact hne hc

theorem isPathChar_of_plain {c : Char} (h : c.isAlphanum = true ∨ c = '-') :
    Placeholder.isPathChar c = true := by
  rcases h with h | rfl
  · simp [Placeholder.isPathChar, h]
  · decide

theorem isBlank_of_plain {c : Char} (h : c.isAlphanum = true ∨ c = '-') :
    Text.isBlank c = false := by
  rcases hb : Text.isBlank c with _ | _
  · rfl
  · -- The only blanks that may stand in a path are no characters of keys.
    have hpad := Placeholder.isPad_of_isBlank (isPathChar_of_plain h) hb
    have hspace : c ≠ ' ' := ne_of_plain h (by decide) (by decide)
    have htab : c ≠ '\t' := ne_of_plain h (by decide) (by decide)
    simp [Placeholder.isPad, hspace, htab] at hpad

theorem PlainKey.not_mem {k : Text} (h : PlainKey k) {d : Char} (hd : d.isAlphanum = false)
    (hne : d ≠ '-') : d ∉ k :=
  fun hdk => ne_of_plain (h.2 d hdk) hd hne rfl

theorem plainKey_natText (n : Nat) : PlainKey (Decimal.natText n) := by
  refine ⟨Decimal.natText_ne_nil n, fun c hc => ?_⟩
  have hdigit : c.isDigit = true := Decimal.isDigit_of_mem_natText hc
  exact .inl (by simp [Char.isAlphanum, hdigit])

namespace Tree

/-- Whether the keys of every map in a tree are plain. -/
def PlainKeyed (t : Tree) : Prop :=
  ∀ entries, Within (.map entries) t → ∀ e ∈ entries, PlainKey e.1

theorem plainKeyed_iff {t : Tree} :
    t.PlainKeyed ↔ (∀ entries, t = .map entries → ∀ e ∈ entries, PlainKey e.1) ∧
      ∀ e ∈ t.children, e.2.PlainKeyed := by
  constructor
  · intro h
    exact ⟨fun entries ht => h entries (ht ▸ .self),
      fun e he entries hi => h entries (.child he hi)⟩
  · rintro ⟨htop, hbelow⟩ entries hi
    rcases within_iff.mp hi with heq | ⟨e, he, hi⟩
    · exact htop entries heq.symm
    · exact hbelow e he entries hi

/-- Whatever leads to a child is a plain key, also a position in a list. -/
theorem PlainKeyed.key {t u : Tree} {k : Text} (h : t.PlainKeyed) (hk : (k, u) ∈ t.children) :
    PlainKey k := by
  cases t with
  | list items =>
    obtain ⟨i, rfl, -⟩ := mem_children_list_iff.mp hk
    exact plainKey_natText i
  | map entries => exact (plainKeyed_iff.mp h).1 entries rfl (k, u) hk
  | _ => simp [children] at hk

theorem plainKeyed_of_isScalar {t : Tree} (h : t.isScalar = true) : t.PlainKeyed := by
  refine plainKeyed_iff.mpr ⟨?_, by simp [children_of_isScalar h]⟩
  rintro entries rfl
  simp [isScalar] at h

/-- The path of a leaf is made of plain keys. -/
theorem Leaf.plainKey {t v : Tree} {path : List Text} (h : Leaf t path v)
    (hplain : t.PlainKeyed) : ∀ k ∈ path, PlainKey k := by
  induction h with
  | scalar _ => simp
  | child hk _ ih =>
    have hrest := ih ((plainKeyed_iff.mp hplain).2 _ hk)
    exact List.forall_mem_cons.mpr ⟨hplain.key hk, hrest⟩

end Tree

/-! ### Paths and their names -/

section

variable {path : List Text}

theorem segments_dotted (hne : path ≠ []) (h : ∀ k ∈ path, PlainKey k) :
    segments (dotted path) = path := by
  have hdot : ∀ k ∈ path, '.' ∉ k := fun k hk => (h k hk).not_mem (by decide) (by decide)
  rw [segments, Text.pieces_eq_splitOn, dotted, List.splitOn_intercalate '.' hdot hne]

/-- The name of a variable is the path with another separator. -/
theorem map_environmentName (h : ∀ k ∈ path, PlainKey k) :
    (Tree.environmentName path).map (fun c => if c = '_' then '.' else c) = dotted path := by
  have hkeep : ∀ k, PlainKey k → k.map (fun c => if c = '_' then '.' else c) = k := by
    intro k hk
    have hid : ∀ c ∈ k, (if c = '_' then '.' else c) = id c := fun c hc =>
      if_neg (ne_of_plain (hk.2 c hc) (by decide) (by decide))
    rw [List.map_congr_left hid, List.map_id]
  unfold Tree.environmentName dotted
  induction path with
  | nil => rfl
  | cons k path ih =>
    obtain ⟨hk, hpath⟩ := List.forall_mem_cons.mp h
    rcases path with _ | ⟨j, path⟩
    · rw [List.intercalate_singleton, List.intercalate_singleton, hkeep k hk]
    · rw [List.intercalate_cons_cons, List.intercalate_cons_cons, List.map_append,
        List.map_append, hkeep k hk, ih hpath]
      rfl

theorem environmentName_inj {q : List Text} (hp : path ≠ []) (hq : q ≠ [])
    (hpath : ∀ k ∈ path, PlainKey k) (hqkeys : ∀ k ∈ q, PlainKey k)
    (h : Tree.environmentName path = Tree.environmentName q) : path = q := by
  have hsplit : ∀ p : List Text, p ≠ [] → (∀ k ∈ p, PlainKey k) →
      (Tree.environmentName p).splitOn '_' = p := fun p hne hkeys =>
    List.splitOn_intercalate '_' (fun k hk => (hkeys k hk).not_mem (by decide) (by decide)) hne
  rw [← hsplit path hp hpath, h, hsplit q hq hqkeys]

/-- The characters of a name are those of keys and the separator. -/
theorem mem_intercalate {sep c : Char} (h : ∀ k ∈ path, PlainKey k)
    (hc : c ∈ List.intercalate [sep] path) : (c.isAlphanum = true ∨ c = '-') ∨ c = sep := by
  induction path with
  | nil => simp at hc
  | cons k path ih =>
    obtain ⟨hk, hpath⟩ := List.forall_mem_cons.mp h
    rcases path with _ | ⟨j, path⟩
    · rw [List.intercalate_singleton] at hc
      exact .inl (hk.2 c hc)
    · rw [List.intercalate_cons_cons, List.mem_append, List.mem_append,
        List.mem_singleton] at hc
      rcases hc with (hc | hc) | hc
      · exact .inl (hk.2 c hc)
      · exact .inr hc
      · exact ih hpath hc

/-- A name begins with a character of its first key. -/
theorem exists_cons_intercalate (sep : Char) (hne : path ≠ []) (h : ∀ k ∈ path, PlainKey k) :
    ∃ c s, List.intercalate [sep] path = c :: s ∧ (c.isAlphanum = true ∨ c = '-') := by
  obtain ⟨k, path, rfl⟩ := List.exists_cons_of_ne_nil hne
  obtain ⟨hk, hkey⟩ := h k List.mem_cons_self
  obtain ⟨c, s, rfl⟩ := List.exists_cons_of_ne_nil hk
  exact ⟨c, List.intercalate [sep] (s :: path), List.intercalate_cons_cons_left,
    hkey c List.mem_cons_self⟩

/-- A path with points has nothing but characters of paths, none of them blank. -/
theorem isPathChar_dotted (h : ∀ k ∈ path, PlainKey k) :
    ∀ c ∈ dotted path, Placeholder.isPathChar c = true ∧ Text.isBlank c = false := by
  intro c hc
  rcases mem_intercalate h hc with hc | rfl
  · exact ⟨isPathChar_of_plain hc, isBlank_of_plain hc⟩
  · decide

theorem isNameChar_environmentName (h : ∀ k ∈ path, PlainKey k) :
    ∀ c ∈ Tree.environmentName path, EnvVar.isNameChar c = true := by
  intro c hc
  rcases mem_intercalate h hc with (hc | rfl) | rfl
  · simp [EnvVar.isNameChar, hc]
  · rfl
  · rfl

theorem environmentName_ne_nil (hne : path ≠ []) (h : ∀ k ∈ path, PlainKey k) :
    Tree.environmentName path ≠ [] := by
  obtain ⟨c, s, hcs, -⟩ := exists_cons_intercalate '_' hne h
  simp [Tree.environmentName, hcs]

theorem dotted_ne_nil (hne : path ≠ []) (h : ∀ k ∈ path, PlainKey k) : dotted path ≠ [] := by
  obtain ⟨c, s, hcs, -⟩ := exists_cons_intercalate '.' hne h
  simp [dotted, hcs]

/-- The path of a leaf is not that of the innermost tree. -/
theorem dotted_ne_current (hne : path ≠ []) (h : ∀ k ∈ path, PlainKey k) :
    dotted path ≠ Context.current := by
  obtain ⟨c, s, hcs, hc⟩ := exists_cons_intercalate '.' hne h
  rw [dotted, hcs]
  intro heq
  exact ne_of_plain hc (by decide) (by decide) (List.cons.inj heq).1

end

/-! ### The environment -/

namespace Tree

/-- A name has one prefix only. -/
theorem environmentPrefixes_cancel {p q s t : Text} (hp : p ∈ environmentPrefixes)
    (hq : q ∈ environmentPrefixes) (h : p ++ s = q ++ t) : p = q ∧ s = t := by
  simp only [environmentPrefixes, List.mem_cons, List.not_mem_nil, or_false] at hp hq
  rcases hp with rfl | rfl <;> rcases hq with rfl | rfl
  · exact ⟨rfl, List.append_cancel_left h⟩
  · exact absurd h (by simp)
  · exact absurd h (by simp)
  · exact ⟨rfl, List.append_cancel_left h⟩

/-- The variables of a leaf: one for each prefix. -/
def published (l : List Text × Tree) : List (Text × Text) :=
  environmentPrefixes.map fun p => (p ++ environmentName l.1, l.2.text)

section

variable {t : Tree} (hroot : t.isScalar = false) (hplain : t.PlainKeyed) (hkeyed : t.WellKeyed)

include hroot hplain hkeyed in
theorem nodup_published : ((t.leaves.flatMap published).map Prod.fst).Nodup := by
  have hnames : (t.leaves.flatMap published).map Prod.fst =
      t.leaves.flatMap fun l => environmentPrefixes.map (· ++ environmentName l.1) := by
    rw [List.map_flatMap]
    rfl
  rw [hnames, List.nodup_flatMap]
  constructor
  · intro l _
    have hprefixes : environmentPrefixes.Nodup := by decide
    exact hprefixes.map (List.append_left_injective (environmentName l.1))
  · -- Leaves with different paths share no name, whatever the prefixes.
    have hpaths : t.leaves.Pairwise fun l m => l.1 ≠ m.1 :=
      List.pairwise_map.mp (nodup_leaves hkeyed)
    refine hpaths.imp_of_mem fun {l m} hl hm hne name hnl hnm => hne ?_
    obtain ⟨p, hp, rfl⟩ := List.mem_map.mp hnl
    obtain ⟨q, hq, hname⟩ := List.mem_map.mp hnm
    have hleafl : Leaf t l.1 l.2 := mem_leaves_iff.mp hl
    have hleafm : Leaf t m.1 m.2 := mem_leaves_iff.mp hm
    have heq := (environmentPrefixes_cancel hq hp hname).2
    exact (environmentName_inj (hleafm.path_ne_nil hroot) (hleafl.path_ne_nil hroot)
      (hleafm.plainKey hplain) (hleafl.plainKey hplain) heq).symm

include hroot hplain hkeyed in
/-- **The environment has a variable for each prefix and each leaf**, in order. -/
theorem environment_eq_flatMap : t.environment = t.leaves.flatMap published := by
  have hpairs : (t.leaves.flatMap fun l => leafVariables l.1 l.2) =
      t.leaves.flatMap published := by
    refine List.flatMap_congr fun l hl => ?_
    have hleaf : Leaf t l.1 l.2 := mem_leaves_iff.mp hl
    exact if_neg (hleaf.path_ne_nil hroot)
  rw [environment, hpairs, Entries.putAll_eq_append, List.nil_append]
  exact nodup_published hroot hplain hkeyed

end

end Tree

end ConfigTemplate
