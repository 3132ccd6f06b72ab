/-
Setting one path and nothing else.

* `lookup_insertPath`: a path aside leads where it led, unless it went through a value that had
  to make room for a map;
* `exists_keys_insertPath`: in every map on the way one key is set, in its place or at the
  end;
* `insertPath_insertPath`: setting the same again changes nothing;
* `insertPath_sets_one_path` puts these together.

Design notes: `Tree.lookup` goes through lists by position, and a path that is set goes
through maps only.  So a list on the way is replaced even where the path would have led to
one of its items.
-/
import ConfigTemplate.Proofs.Tree.Descend
import ConfigTemplate.Tree.Lookup

namespace ConfigTemplate

namespace Tree

/-! ### What is held and what is looked up -/

theorem child_of_get?_layer {t u : Tree} {k : Text} (h : Entries.get? t.layer k = some u) :
    t.child k = some u := by
  cases t with
  | map es => exact h
  | _ => cases h

/-- What a tree holds at a path of keys is found there. -/
theorem lookup_of_descend {t u : Tree} {p : List Text} (h : t.descend p = some u) :
    t.lookup p = some u := by
  induction p generalizing t with
  | nil => rwa [descend_nil] at h
  | cons k p ih =>
    rw [descend_cons, Option.bind_eq_some_iff] at h
    obtain ⟨w, hw, hu⟩ := h
    rw [lookup_cons, child_of_get?_layer hw, Option.bind_some]
    exact ih hu

theorem lookup_map_cons (es : Entries Tree) (k : Text) (q : List Text) :
    (Tree.map es).lookup (k :: q) = (es.get? k).bind (lookup · q) := rfl

theorem lookup_map_nil {q : List Text} (h : q ≠ []) : (Tree.map []).lookup q = none := by
  obtain ⟨k, q, rfl⟩ := List.exists_cons_of_ne_nil h
  rfl

/-! ### Paths aside -/

/-- Whether setting the path `p` replaces a value that `q` leads through: one that is no map
and stands above `p`, but not at the root. -/
def Severs (t : Tree) (p q : List Text) : Prop :=
  ∃ r, r ≠ [] ∧ r <+: p ∧ r ≠ p ∧ r <+: q ∧ ∃ u, t.lookup r = some u ∧ u.isMap = false

theorem not_severs_map_nil (p q : List Text) : ¬ Severs (.map []) p q := by
  rintro ⟨r, hr, -, -, -, u, hu, -⟩
  rw [lookup_map_nil hr] at hu
  cases hu

theorem not_severs_of_ne (t : Tree) {j k : Text} (h : j ≠ k) (p q : List Text) :
    ¬ t.Severs (k :: p) (j :: q) := by
  rintro ⟨r, hr, hp, -, hq, -⟩
  obtain ⟨l, r, rfl⟩ := List.exists_cons_of_ne_nil hr
  exact h ((List.cons_prefix_cons.mp hq).1.symm.trans (List.cons_prefix_cons.mp hp).1)

/-- One key down, the value there is replaced, or something in it. -/
theorem severs_cons_iff {es : Entries Tree} (k : Text) {p : List Text} (hp : p ≠ [])
    (q : List Text) :
    Severs (.map es) (k :: p) (k :: q) ↔
      ∃ u, es.get? k = some u ∧ (u.isMap = false ∨ u.Severs p q) := by
  constructor
  · rintro ⟨r, hr, hrp, hne, hrq, u, hu, hmap⟩
    obtain ⟨l, r, rfl⟩ := List.exists_cons_of_ne_nil hr
    obtain ⟨rfl, hrp'⟩ := List.cons_prefix_cons.mp hrp
    rw [lookup_map_cons, Option.bind_eq_some_iff] at hu
    obtain ⟨w, hw, hu⟩ := hu
    refine ⟨w, hw, ?_⟩
    by_cases hr' : r = []
    · subst hr'
      obtain rfl := Option.some.inj hu
      exact .inl hmap
    · exact .inr ⟨r, hr', hrp', fun he => hne (he ▸ rfl), (List.cons_prefix_cons.mp hrq).2, u, hu,
        hmap⟩
  · rintro ⟨w, hw, hmap | ⟨r, hr, hrp, hne, hrq, u, hu, hmap⟩⟩
    · refine ⟨[k], by simp, by simp, by simpa using Ne.symm hp, by simp, w, ?_, hmap⟩
      rw [lookup_map_cons, hw]
      rfl
    · refine ⟨k :: r, by simp, List.cons_prefix_cons.mpr ⟨rfl, hrp⟩, by simpa using hne,
        List.cons_prefix_cons.mpr ⟨rfl, hrq⟩, u, ?_, hmap⟩
      rw [lookup_map_cons, hw]
      exact hu

section

variable (es : Entries Tree) (v : Tree)

theorem lookup_map_put_self (k : Text) (q : List Text) :
    (Tree.map (es.put k v)).lookup (k :: q) = v.lookup q := by
  rw [lookup_map_cons, Entries.get?_put_self, Option.bind_some]

theorem lookup_map_put_of_ne {j k : Text} (h : j ≠ k) (q : List Text) :
    (Tree.map (es.put k v)).lookup (j :: q) = (Tree.map es).lookup (j :: q) := by
  rw [lookup_map_cons, lookup_map_cons, Entries.get?_put_of_ne es v h]

/-- Setting a path puts a value at its first key. -/
theorem exists_insertPath_eq_put (k : Text) (p : List Text) :
    ∃ u, insertPath es (k :: p) v = es.put k u := by
  cases p with
  | nil => exact ⟨v, rfl⟩
  | cons l p => exact ⟨_, rfl⟩

/-- What a path aside leads to once another path is set. -/
theorem lookup_insertPath {p q : List Text} (hpq : ¬ p <+: q) (hqp : ¬ q <+: p) :
    (Severs (.map es) p q → (Tree.map (insertPath es p v)).lookup q = none) ∧
      (¬ Severs (.map es) p q →
        (Tree.map (insertPath es p v)).lookup q = (Tree.map es).lookup q) := by
  induction p generalizing es q with
  | nil => exact absurd List.nil_prefix hpq
  | cons k p ih =>
    rcases q with _ | ⟨j, q⟩
    · exact absurd List.nil_prefix hqp
    by_cases hjk : j = k
    · subst hjk
      rw [List.cons_prefix_cons, not_and] at hpq hqp
      have hp : p ≠ [] := fun h => hpq rfl (h ▸ List.nil_prefix)
      have hq : q ≠ [] := fun h => hqp rfl (h ▸ List.nil_prefix)
      rw [severs_cons_iff j hp, insertPath_cons es v j hp, lookup_map_put_self, lookup_map_cons]
      -- A map that is made new leads nowhere aside from the path that is set.
      have hnew : (Tree.map (insertPath [] p v)).lookup q = none := by
        rw [(ih [] (hpq rfl) (hqp rfl)).2 (not_severs_map_nil p q), lookup_map_nil hq]
      rcases hu : es.get? j with _ | u
      · exact ⟨fun ⟨_, hnone, _⟩ => (Option.some_ne_none _ hnone.symm).elim, fun _ => hnew⟩
      · rcases hmap : u.isMap with _ | _
        · refine ⟨fun _ => ?_, fun hnot => absurd ⟨u, rfl, .inl hmap⟩ hnot⟩
          rw [Option.map_some, Option.getD_some, layer_of_not_map hmap]
          exact hnew
        · obtain ⟨fs, rfl⟩ := exists_entries_of_isMap hmap
          simpa [layer, hmap] using ih fs (hpq rfl) (hqp rfl)
    · obtain ⟨u, hput⟩ := exists_insertPath_eq_put es v k p
      rw [hput, lookup_map_put_of_ne es u hjk]
      exact ⟨fun hs => absurd hs (not_severs_of_ne _ hjk p q), fun _ => rfl⟩

/-! ### Maps on the way -/

/-- The entries of the map at a path of keys, of which there are none without a map. -/
def entriesAt (t : Tree) (p : List Text) : Entries Tree :=
  ((t.descend p).map layer).getD []

theorem entriesAt_cons (k : Text) (p : List Text) :
    entriesAt (.map es) (k :: p) = entriesAt (.map (((es.get? k).map layer).getD [])) p := by
  by_cases hp : p = []
  · subst hp
    rw [entriesAt, entriesAt, descend_cons, descend_nil]
    cases h : Entries.get? es k <;> simp [layer, h]
  · rw [entriesAt, entriesAt, descend_layer_get? es k hp]

/-- **In every map on the way one key is set**, in its place or at the end, and the others
keep theirs. -/
theorem exists_keys_insertPath (r : List Text) (k : Text) (s : List Text) :
    ∃ fs : Entries Tree, (Tree.map (insertPath es (r ++ k :: s) v)).descend r = some (.map fs) ∧
      fs.keys =
        if k ∈ (entriesAt (.map es) r).keys then (entriesAt (.map es) r).keys
        else (entriesAt (.map es) r).keys ++ [k] := by
  induction r generalizing es with
  | nil =>
    obtain ⟨u, hput⟩ := exists_insertPath_eq_put es v k s
    refine ⟨es.put k u, ?_, Entries.keys_put es k u⟩
    rw [List.nil_append, hput, descend_nil]
  | cons l r ih =>
    rw [List.cons_append, insertPath_cons es v l (by simp), descend_map_put_self, entriesAt_cons]
    exact ih _

/-! ### Setting a path again -/

/-- Setting the same path to the same tree again changes nothing. -/
theorem insertPath_insertPath (p : List Text) :
    insertPath (insertPath es p v) p v = insertPath es p v := by
  induction p generalizing es with
  | nil => rfl
  | cons k p ih =>
    by_cases hp : p = []
    · subst hp
      exact Entries.put_eq_self (Entries.get?_put_self es k v)
    · rw [insertPath_cons es v k hp, insertPath_cons _ v k hp, Entries.get?_put_self,
        Option.map_some, Option.getD_some]
      -- The map that was made is the map that is found.
      have hagain := ih (((es.get? k).map layer).getD [])
      rw [layer, hagain]
      exact Entries.put_eq_self (Entries.get?_put_self es k _)

end

/-- **Setting a path sets it and nothing else.**  The tree is found at the path.  A path
that is neither above nor below leads where it led, or nowhere if it went through a value
that was no map and stood above the path.  Every map on the way has its keys in the order in
which it had them, with the next key of the path in its place, or at the end if it is new.
Setting the same again changes nothing, and the empty path sets nothing. -/
theorem insertPath_sets_one_path (es : Entries Tree) (p : List Text) (v : Tree) :
    (p ≠ [] → (Tree.map (insertPath es p v)).descend p = some v ∧
      (Tree.map (insertPath es p v)).lookup p = some v) ∧
    (∀ q, ¬ p <+: q → ¬ q <+: p →
      (Severs (.map es) p q → (Tree.map (insertPath es p v)).lookup q = none) ∧
      (¬ Severs (.map es) p q →
        (Tree.map (insertPath es p v)).lookup q = (Tree.map es).lookup q)) ∧
    (∀ r k s, p = r ++ k :: s →
      ∃ fs : Entries Tree, (Tree.map (insertPath es p v)).descend r = some (.map fs) ∧
        fs.keys =
          if k ∈ (entriesAt (.map es) r).keys then (entriesAt (.map es) r).keys
          else (entriesAt (.map es) r).keys ++ [k]) ∧
    insertPath (insertPath es p v) p v = insertPath es p v ∧ insertPath es [] v = es := by
  refine ⟨fun hp => ?_, fun q hpq hqp => lookup_insertPath es v hpq hqp, ?_,
    insertPath_insertPath es v p, rfl⟩
  · have hdescend := descend_insertPath_append es v hp []
    rw [List.append_nil, descend_nil] at hdescend
    exact ⟨hdescend, lookup_of_descend hdescend⟩
  · rintro r k s rfl
    exact exists_keys_insertPath es v r k s

/-! ### A list on the way -/

/-- At `a` there is a list of one map, and behind it a text. -/
def listed : Entries Tree :=
  [("a".toList, .list [.map [("x".toList, .null)]]), ("b".toList, .string "s".toList)]

/-- Setting `a.0.y` makes a map of the list, so that `a.0.x` leads nowhere, and leaves `b` and
the order of the keys as they are. -/
theorem insertPath_listed :
    let p := ["a".toList, "0".toList, "y".toList]
    let new := insertPath listed p (.bool true)
    p ≠ [] ∧ (Tree.map new).lookup p = some (.bool true) ∧
      Severs (.map listed) p ["a".toList, "0".toList, "x".toList] ∧
      (Tree.map listed).lookup ["a".toList, "0".toList, "x".toList] = some .null ∧
      (Tree.map new).lookup ["a".toList, "0".toList, "x".toList] = none ∧
      ¬ Severs (.map listed) p ["b".toList] ∧
      (Tree.map new).lookup ["b".toList] = some (.string "s".toList) ∧
      new.keys = ["a".toList, "b".toList] := by
  intro p new
  obtain ⟨hself, haside, hkeys, -, -⟩ := insertPath_sets_one_path listed p (.bool true)
  have hsevers : Severs (.map listed) p ["a".toList, "0".toList, "x".toList] :=
    ⟨["a".toList], by decide, by decide, by decide, by decide, _, rfl, rfl⟩
  have hclear : ¬ Severs (.map listed) p ["b".toList] :=
    not_severs_of_ne (.map listed) (by decide) _ _
  obtain ⟨fs, hfs, hkeys⟩ := hkeys [] "a".toList ["0".toList, "y".toList] rfl
  obtain rfl : new = fs := Tree.map.inj (Option.some.inj ((descend_nil _).symm.trans hfs))
  exact ⟨by decide, (hself (by decide)).2, hsevers, rfl,
    (haside _ (by decide) (by decide)).1 hsevers, hclear,
    (haside _ (by decide) (by decide)).2 hclear, hkeys⟩

end Tree

end ConfigTemplate
