/-
Merging layers in groups.

Some of the layers may be merged beforehand, and the result be merged with the others.

* `overlay_assoc`: laying over is associative, unless a value that is no map lies between two
  maps;
* `exists_descend_of_merge`: merged layers hold a map or another value at a path only if one
  of the layers does;
* `merge_in_groups`: so the last layers can always be merged beforehand, and the first ones
  if they agree where there are maps.

Design notes: a value that is no map hides the map behind it, and is replaced by the map
before it.  If these two are merged beforehand, nothing is left of the value, and the
map behind comes to light.  `Compatible` keeps this from happening.
-/
import ConfigTemplate.Proofs.Tree.Descend
import ConfigTemplate.Proofs.Tree.Extension

namespace ConfigTemplate

namespace Tree

/-! ### Trees in which no key comes twice -/

theorem wellKeyed_overlay_of {base es : Entries Tree} (hbase : (Tree.map base).WellKeyed)
    (hlaid : ∀ e ∈ es, ∀ old : Option Tree, (∀ u, old = some u → u.WellKeyed) →
      (laidOver old e.2).WellKeyed) :
    (Tree.map (overlay base es)).WellKeyed := by
  induction es generalizing base with
  | nil => rwa [overlay_nil]
  | cons e es ih =>
    obtain ⟨k, t⟩ := e
    obtain ⟨ht, hes⟩ := List.forall_mem_cons.mp hlaid
    have hvalue : (laidOver (base.get? k) t).WellKeyed := by
      apply ht
      intro u hu
      exact hbase.of_get?_layer hu
    rw [overlay_cons]
    exact ih (wellKeyed_map_put hbase k hvalue) hes

theorem WellKeyed.map_getD_layer {old : Option Tree} (h : ∀ u, old = some u → u.WellKeyed) :
    (Tree.map ((old.map layer).getD [])).WellKeyed := by
  cases old with
  | none => exact wellKeyed_map_nil
  | some u => exact (h u rfl).map_layer

theorem wellKeyed_laidOver {t : Tree} (ht : t.WellKeyed) {old : Option Tree}
    (hold : ∀ u, old = some u → u.WellKeyed) : (laidOver old t).WellKeyed := by
  induction t generalizing old with
  | map es ih =>
    obtain ⟨hdistinct, hes⟩ := wellKeyed_map_iff.mp ht
    rw [laidOver_map hdistinct]
    apply wellKeyed_overlay_of (WellKeyed.map_getD_layer hold)
    intro e he old' hold'
    exact ih e he (hes e he) hold'
  | _ => rwa [laidOver_of_not_map rfl]

theorem wellKeyed_merge {layers : List Tree} (h : ∀ t ∈ layers, t.WellKeyed) :
    (merge layers).WellKeyed := by
  induction layers with
  | nil => exact wellKeyed_map_nil
  | cons t ts ih =>
    obtain ⟨ht, hts⟩ := List.forall_mem_cons.mp h
    rw [merge_cons]
    refine wellKeyed_overlay_of (ih hts).map_layer ?_
    intro e he old hold
    exact wellKeyed_laidOver ((wellKeyed_map_iff.mp ht.map_layer).2 e he) hold

/-! ### Laying over is associative -/

/-- Whether no path of keys leads to a map in the one tree and to a value that is no map in
the other. -/
def Compatible (t u : Tree) : Prop :=
  ∀ p v w, t.descend p = some v → u.descend p = some w → v.isMap = w.isMap

theorem Compatible.isMap_eq {t u : Tree} (h : Compatible t u) : t.isMap = u.isMap :=
  h [] t u (descend_nil t) (descend_nil u)

theorem Compatible.get? {es fs : Entries Tree} (h : Compatible (.map es) (.map fs)) {k : Text}
    {u v : Tree} (hu : es.get? k = some u) (hv : fs.get? k = some v) : Compatible u v := by
  intro p w w' hw hw'
  apply h (k :: p)
  · rw [descend_cons, layer, hu, Option.bind_some, hw]
  · rw [descend_cons, layer, hv, Option.bind_some, hw']

/-- The keys that are new are appended as they are. -/
theorem keys_overlay_of_distinct {base es : Entries Tree} (hbase : base.Distinct)
    (hes : es.Distinct) :
    (overlay base es).keys = base.keys ++ es.keys.filter fun k => !base.keys.elem k := by
  have hnew : (es.keys.removeAll base.keys).Nodup := hes.sublist List.filter_sublist
  rw [keys_overlay hbase, List.eraseDups_append, eraseDups_of_nodup hbase,
    eraseDups_of_nodup hnew]
  rfl

theorem keys_overlay_assoc {base es fs : Entries Tree} (hbase : base.Distinct)
    (hes : es.Distinct) (hfs : fs.Distinct) :
    (overlay (overlay base es) fs).keys = (overlay base (overlay es fs)).keys := by
  have hlaid : (overlay es fs).Distinct := distinct_overlay hes fs
  rw [keys_overlay_of_distinct (distinct_overlay hbase es) hfs, keys_overlay_of_distinct hbase hes,
    keys_overlay_of_distinct hbase hlaid, keys_overlay_of_distinct hes hfs, List.filter_append,
    List.append_assoc, List.filter_filter]
  congr 2
  -- New to both is what is new to the one and to the other.
  apply List.filter_congr
  intro k _
  by_cases hb : k ∈ base.keys
  · simp [hb]
  · simp [hb]

/-- Entries laid over others in two ways, if each value is the same in both. -/
theorem overlay_assoc_of {base es fs : Entries Tree} (hbase : base.Distinct)
    (hes : es.Distinct) (hfs : fs.Distinct)
    (hvalues : ∀ k u v, es.get? k = some u → fs.get? k = some v →
      laidOver (some (laidOver (base.get? k) u)) v =
        laidOver (base.get? k) (laidOver (some u) v)) :
    overlay (overlay base es) fs = overlay base (overlay es fs) := by
  have hlaid : (overlay es fs).Distinct := distinct_overlay hes fs
  apply Entries.ext_get? (distinct_overlay (distinct_overlay hbase es) fs)
    (keys_overlay_assoc hbase hes hfs)
  intro k
  rw [get?_overlay hfs, get?_overlay hes, get?_overlay hlaid, get?_overlay hfs]
  rcases hv : Entries.get? fs k with _ | v
  · rfl
  · rcases hu : Entries.get? es k with _ | u
    · simp
    · exact congrArg some (hvalues k u v hu hv)

theorem laidOver_assoc {t u : Tree} (ht : t.WellKeyed) (hu : u.WellKeyed) {old : Option Tree}
    (hold : ∀ w, old = some w → w.WellKeyed) (h : Compatible u t) :
    laidOver (some (laidOver old u)) t = laidOver old (laidOver (some u) t) := by
  induction t generalizing u old with
  | map fs ih =>
    -- The value between is a map too, so that all three are laid over as maps.
    obtain ⟨es, rfl⟩ := exists_entries_of_isMap h.isMap_eq
    obtain ⟨hfs, hfs'⟩ := wellKeyed_map_iff.mp ht
    obtain ⟨hes, -⟩ := wellKeyed_map_iff.mp hu
    have hbase := WellKeyed.map_getD_layer hold
    rw [laidOver_map hes, laidOver_map_map, laidOver_map_map,
      laidOver_map (distinct_overlay hes fs)]
    refine congrArg Tree.map (overlay_assoc_of (wellKeyed_map_iff.mp hbase).1 hes hfs ?_)
    intro k v w hv hw
    have hmem : (k, w) ∈ fs := Entries.mem_of_get?_eq_some hw
    apply ih (k, w) hmem (hfs' _ hmem) (hu.of_get?_layer hv) _ (h.get? hv hw)
    intro x hx
    exact hbase.of_get?_layer hx
  | _ => rw [laidOver_of_not_map rfl, laidOver_of_not_map rfl, laidOver_of_not_map rfl]

/-- **Laying over is associative** if the entries between and those above agree where there
are maps. -/
theorem overlay_assoc {base es fs : Entries Tree} (hbase : (Tree.map base).WellKeyed)
    (hes : (Tree.map es).WellKeyed) (hfs : (Tree.map fs).WellKeyed)
    (h : Compatible (.map es) (.map fs)) :
    overlay (overlay base es) fs = overlay base (overlay es fs) := by
  apply overlay_assoc_of hbase.distinct_layer hes.distinct_layer hfs.distinct_layer
  intro k u v hu hv
  refine laidOver_assoc (hfs.of_get?_layer hv) (hes.of_get?_layer hu) ?_ (h.get? hu hv)
  intro w hw
  exact hbase.of_get?_layer hw

/-! ### Layers -/

/-- Whether no path of keys leads to a map in one of the layers and to a value that is no map
in another.  The layers themselves need not be maps. -/
def KindsAgree (layers : List Tree) : Prop :=
  ∀ t ∈ layers, ∀ u ∈ layers, ∀ p, p ≠ [] → ∀ v w,
    t.descend p = some v → u.descend p = some w → v.isMap = w.isMap

theorem KindsAgree.tail {t : Tree} {ts : List Tree} (h : KindsAgree (t :: ts)) : KindsAgree ts :=
  fun u hu v hv => h u (List.mem_cons_of_mem t hu) v (List.mem_cons_of_mem t hv)

theorem kindsAgree_pair {t u : Tree} (h : ∀ p, p ≠ [] → ∀ v w,
    t.descend p = some v → u.descend p = some w → v.isMap = w.isMap) : KindsAgree [t, u] := by
  intro t' ht' u' hu' p hp v w hv hw
  simp only [List.mem_cons, List.not_mem_nil, or_false] at ht' hu'
  rcases ht' with rfl | rfl <;> rcases hu' with rfl | rfl
  · rw [Option.some.inj (hv.symm.trans hw)]
  · exact h p hp v w hv hw
  · exact (h p hp w v hw hv).symm
  · rw [Option.some.inj (hv.symm.trans hw)]

theorem mem_layers_of_mem_valuesAt {layers : List Tree} {k : Text} {u : Tree}
    (h : u ∈ valuesAt layers k) : ∃ t ∈ layers, Entries.get? t.layer k = some u :=
  List.mem_filterMap.mp h

/-- **What merged layers hold at a path is of a kind that one of the layers holds there.** -/
theorem exists_descend_of_merge {layers : List Tree} (h : ∀ t ∈ layers, t.WellKeyed)
    {p : List Text} (hp : p ≠ []) {w : Tree} (hw : (merge layers).descend p = some w) :
    ∃ t ∈ layers, ∃ v, t.descend p = some v ∧ v.isMap = w.isMap := by
  -- One key down, merged layers are the first value there, or the maps that come first merged.
  induction p generalizing layers with
  | nil => exact absurd rfl hp
  | cons k ks ih =>
    rw [descend_cons, get?_merge h, Option.bind_eq_some_iff] at hw
    obtain ⟨m, hm, hw⟩ := hw
    have hvalues := fun u => @wellKeyed_of_mem_valuesAt layers h k u
    have hlayers := fun u => @mem_layers_of_mem_valuesAt layers k u
    -- A value of some layer at the key is enough if it holds the like below.
    suffices hsome : ∃ u ∈ valuesAt layers k, ∃ v, u.descend ks = some v ∧ v.isMap = w.isMap by
      obtain ⟨u, hu, v, hv, hkind⟩ := hsome
      obtain ⟨t, ht, htu⟩ := hlayers u hu
      exact ⟨t, ht, v, by rw [descend_cons, htu, Option.bind_some, hv], hkind⟩
    generalize valuesAt layers k = values at hm hvalues
    cases values with
    | nil => cases hm
    | cons u us =>
      rw [winner] at hm
      by_cases hu : u.isMap = true
      · rw [if_pos hu] at hm
        obtain rfl := Option.some.inj hm
        by_cases hks : ks = []
        · subst hks
          obtain rfl := Option.some.inj hw
          exact ⟨u, List.mem_cons_self, u, descend_nil u, hu⟩
        · have hsub : ∀ t ∈ u :: us.takeWhile isMap, t ∈ u :: us := by
            intro t ht
            exact List.cons_subset_cons u (List.takeWhile_prefix _).subset ht
          obtain ⟨t, ht, v, hv, hkind⟩ := ih (fun t ht => hvalues t (hsub t ht)) hks hw
          exact ⟨t, hsub t ht, v, hv, hkind⟩
      · rw [if_neg hu] at hm
        obtain rfl := Option.some.inj hm
        exact ⟨u, List.mem_cons_self, w, hw, rfl⟩

/-- The layers behind are compatible with the first one when they are merged. -/
theorem KindsAgree.compatible {t : Tree} {ts : List Tree} (h : KindsAgree (t :: ts))
    (hts : ∀ u ∈ ts, u.WellKeyed) : Compatible (.map (merge ts).layer) (.map t.layer) := by
  intro p v w hv hw
  by_cases hp : p = []
  · subst hp
    obtain rfl := Option.some.inj hv
    obtain rfl := Option.some.inj hw
    rfl
  · obtain ⟨k, ks, rfl⟩ := List.exists_cons_of_ne_nil hp
    obtain ⟨u, hu, x, hx, hkind⟩ := exists_descend_of_merge hts hp hv
    have htw : t.descend (k :: ks) = some w := by
      rw [descend_cons] at hw ⊢
      exact hw
    rw [← hkind]
    exact h u (List.mem_cons_of_mem t hu) t List.mem_cons_self _ hp x w hx htw

/-- Layers laid over those behind them, one after another or merged beforehand. -/
theorem layer_merge_append {xs ys : List Tree} (hxs : ∀ t ∈ xs, t.WellKeyed)
    (hys : ∀ t ∈ ys, t.WellKeyed) (h : KindsAgree xs) :
    (merge (xs ++ ys)).layer = overlay (merge ys).layer (merge xs).layer := by
  induction xs with
  | nil => exact (overlay_nil (merge ys).layer).symm
  | cons t ts ih =>
    obtain ⟨ht, hts⟩ := List.forall_mem_cons.mp hxs
    calc (merge (t :: ts ++ ys)).layer
        = overlay (merge (ts ++ ys)).layer t.layer := rfl
      _ = overlay (overlay (merge ys).layer (merge ts).layer) t.layer := by
          rw [ih hts h.tail]
      _ = overlay (merge ys).layer (overlay (merge ts).layer t.layer) :=
          overlay_assoc (wellKeyed_merge hys).map_layer (wellKeyed_merge hts).map_layer
            ht.map_layer (h.compatible hts)
      _ = overlay (merge ys).layer (merge (t :: ts)).layer := rfl

theorem merge_append_merge (xs ys : List Tree) : merge (xs ++ ys) = merge (xs ++ [merge ys]) := by
  induction xs with
  | nil => exact (merge_singleton (distinct_merge ys)).symm
  | cons t ts ih => rw [List.cons_append, List.cons_append, merge_cons, merge_cons, ih]

/-- **Layers can be merged in groups.**  The last of them can be merged beforehand, whatever
they hold.  So can the first of them if no path leads to a map in one of these and to a value
that is no map in another; what the layers behind hold does not matter.  The entries come in
the same order. -/
theorem merge_in_groups (xs ys : List Tree) :
    merge (xs ++ ys) = merge (xs ++ [merge ys]) ∧
      ((∀ t ∈ xs ++ ys, t.WellKeyed) → KindsAgree xs →
        merge (xs ++ ys) = merge ([merge xs] ++ ys)) := by
  refine ⟨merge_append_merge xs ys, ?_⟩
  intro hkeyed hkinds
  obtain ⟨hxs, hys⟩ := List.forall_mem_append.mp hkeyed
  rw [merge_eq_map (xs ++ ys), layer_merge_append hxs hys hkinds]
  rfl

/-! ### Maps and a text between -/

/-- Two layers with maps at `a`, the second of which has a new entry there. -/
def agreeing : List Tree :=
  [.map [("a".toList, .map [("x".toList, .null)]), ("b".toList, .bool true)],
    .map [("c".toList, .null), ("a".toList, .map [("y".toList, .null)])]]

/-- Two layers behind, with a map and a text at `a`. -/
def behind : List Tree :=
  [.map [("a".toList, .map [("z".toList, .null), ("x".toList, .bool false)])],
    .map [("a".toList, .string "s".toList), ("d".toList, .null)]]

/-- Both groups can be merged beforehand. -/
theorem agreeing_in_groups :
    (∀ t ∈ agreeing ++ behind, t.WellKeyed) ∧ KindsAgree agreeing ∧
      merge (agreeing ++ behind) = merge (agreeing ++ [merge behind]) ∧
      merge (agreeing ++ behind) = merge ([merge agreeing] ++ behind) := by
  have hkeyed : ∀ t ∈ agreeing ++ behind, t.WellKeyed := by
    simp [agreeing, behind, WellKeyed, WellKeyedEntries, Entries.Distinct]
  have hkinds : KindsAgree agreeing := by
    apply kindsAgree_pair
    intro p hp v w hv hw
    obtain ⟨k, ks, rfl⟩ := List.exists_cons_of_ne_nil hp
    by_cases hk : "a".toList = k
    · subst hk
      cases ks with
      | nil =>
        obtain rfl := Option.some.inj hv
        obtain rfl := Option.some.inj hw
        rfl
      | cons l ls =>
        -- The two maps have no key in common.
        grind [descend_cons, layer, Entries.get?]
    · grind [descend_cons, layer, Entries.get?]
  obtain ⟨hlast, hfirst⟩ := merge_in_groups agreeing behind
  exact ⟨hkeyed, hkinds, hlast, hfirst hkeyed hkinds⟩

end Tree

end ConfigTemplate
