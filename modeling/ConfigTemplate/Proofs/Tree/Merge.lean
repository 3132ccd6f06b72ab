/-
What merged layers come to.

Merging lays one layer after another over what the later ones came to.  These
statements say the same layer by layer from the front, key by key:

* `keys_merge`: the keys are those of the layers, in the order in which they are first
  seen from the last layer to the first;
* `get?_merge`: the value at a key is the one that the first of the layers with the key
  has there, and if that is a map, it is the merge of the maps that come first;
* `merge_earliest_wins` puts the two together.

Design notes: `Tree.WellKeyed` says of a tree that its maps are maps, that is, that no
key comes twice in any of them.
-/
import ConfigTemplate.Proofs.Tree.Overlay

namespace ConfigTemplate

namespace Tree

/-- The keys of layers, in the order in which they are first seen from the last layer
to the first. -/
def keyOrder (layers : List Tree) : List Text :=
  (layers.reverse.flatMap fun t => Entries.keys t.layer).eraseDups

/-- The values that layers have at a key, by precedence. -/
def valuesAt (layers : List Tree) (k : Text) : List Tree :=
  layers.filterMap fun t => Entries.get? t.layer k

/-- What values listed by precedence come to: the first of them, or the merge of the
maps up to the first value that is none. -/
def winner : List Tree → Option Tree
  | [] => none
  | t :: ts => if t.isMap then some (merge (t :: ts.takeWhile isMap)) else some t

theorem valuesAt_cons_none {t : Tree} {k : Text} (h : Entries.get? t.layer k = none)
    (ts : List Tree) : valuesAt (t :: ts) k = valuesAt ts k := by
  simp [valuesAt, h]

theorem valuesAt_cons_some {t u : Tree} {k : Text} (h : Entries.get? t.layer k = some u)
    (ts : List Tree) : valuesAt (t :: ts) k = u :: valuesAt ts k := by
  simp [valuesAt, h]

/-! ### Maps in which no key comes twice -/

theorem wellKeyed_map_iff {es : Entries Tree} :
    (Tree.map es).WellKeyed ↔ es.Distinct ∧ ∀ e ∈ es, e.2.WellKeyed := by
  rw [← wellKeyedEntries_iff]
  exact Iff.rfl

theorem WellKeyed.distinct_layer {t : Tree} (h : t.WellKeyed) : Entries.Distinct t.layer := by
  cases t with
  | map es => exact (wellKeyed_map_iff.mp h).1
  | _ => exact Entries.distinct_nil

theorem WellKeyed.of_get?_layer {t u : Tree} {k : Text} (h : t.WellKeyed)
    (hu : Entries.get? t.layer k = some u) : u.WellKeyed := by
  cases t with
  | map es => exact (wellKeyed_map_iff.mp h).2 _ (Entries.mem_of_get?_eq_some hu)
  | _ => simp [layer] at hu

theorem wellKeyed_of_mem_valuesAt {layers : List Tree} (h : ∀ t ∈ layers, t.WellKeyed)
    {k : Text} {u : Tree} (hu : u ∈ valuesAt layers k) : u.WellKeyed := by
  obtain ⟨t, ht, htu⟩ := List.mem_filterMap.mp hu
  exact (h t ht).of_get?_layer htu

theorem exists_entries_of_isMap {t : Tree} (h : t.isMap = true) : ∃ es, t = .map es := by
  cases t <;> simp_all [isMap, entries?]

theorem layer_of_not_map {t : Tree} (h : t.isMap = false) : t.layer = [] := by
  cases t <;> simp_all [isMap, entries?, layer]

/-! ### Layer by layer -/

theorem merge_cons (t : Tree) (ts : List Tree) :
    merge (t :: ts) = .map (overlay (merge ts).layer t.layer) := rfl

theorem merge_eq_map (layers : List Tree) : merge layers = .map (merge layers).layer := rfl

theorem distinct_merge (layers : List Tree) : Entries.Distinct (merge layers).layer := by
  induction layers with
  | nil => exact Entries.distinct_nil
  | cons t ts ih => exact distinct_overlay ih _

/-- Layers that are not maps contribute nothing. -/
theorem merge_filter_isMap (layers : List Tree) : merge (layers.filter isMap) = merge layers := by
  induction layers with
  | nil => rfl
  | cons t ts ih =>
    rcases ht : t.isMap with _ | _
    · rw [List.filter_cons_of_neg (by simp [ht]), ih, merge_cons, layer_of_not_map ht,
        overlay_nil]
      rfl
    · rw [List.filter_cons_of_pos ht, merge_cons, merge_cons, ih]

theorem merge_singleton {es : Entries Tree} (h : es.Distinct) : merge [.map es] = .map es := by
  have hes : overlay [] es = es := overlay_nil_left h
  rw [merge_cons]
  exact congrArg Tree.map hes

/-- **The keys of merged layers** are those of the layers, as they are first seen from
the last layer to the first. -/
theorem keys_merge (layers : List Tree) :
    Entries.keys (merge layers).layer = keyOrder layers := by
  induction layers with
  | nil => rfl
  | cons t ts ih =>
    have hnodup : (keyOrder ts).Nodup := ih ▸ distinct_merge ts
    have hkeys : Entries.keys (merge (t :: ts)).layer =
        (keyOrder ts ++ Entries.keys t.layer).eraseDups := by
      rw [← ih]
      exact keys_overlay (distinct_merge ts) t.layer
    -- What has been dropped before would be dropped now.
    rw [hkeys, List.eraseDups_append, eraseDups_of_nodup hnodup, keyOrder, keyOrder,
      List.reverse_cons, List.flatMap_append, List.eraseDups_append]
    simp [List.removeAll]

theorem get?_merge_cons {t : Tree} (ht : t.WellKeyed) (ts : List Tree) (k : Text) :
    Entries.get? (merge (t :: ts)).layer k =
      match Entries.get? t.layer k with
      | some u => some (laidOver (Entries.get? (merge ts).layer k) u)
      | none => Entries.get? (merge ts).layer k :=
  get?_overlay ht.distinct_layer (merge ts).layer k

/-- A value laid over what the values behind it came to. -/
theorem winner_cons {u : Tree} (hu : u.WellKeyed) (us : List Tree) :
    winner (u :: us) = some (laidOver (winner us) u) := by
  rw [winner]
  rcases hm : u.isMap with _ | _
  · rw [laidOver_of_not_map hm]
    rfl
  · obtain ⟨es, rfl⟩ := exists_entries_of_isMap hm
    have hes : merge [.map es] = .map es := merge_singleton hu.distinct_layer
    rcases us with _ | ⟨v, vs⟩
    · simpa [winner] using hes
    · rcases hv : v.isMap with _ | _
      · -- What is no map ends the run of maps, and the map replaces it.
        simp [winner, hv, laidOver_map_of_not_map hv, hes]
      · simp only [winner, hv, if_true, List.takeWhile_cons_of_pos]
        rw [merge_cons, merge_eq_map (v :: _), laidOver_map_map]
        rfl

/-- **The value at a key of merged layers** is decided by the values that the layers
have there. -/
theorem get?_merge {layers : List Tree} (h : ∀ t ∈ layers, t.WellKeyed) (k : Text) :
    Entries.get? (merge layers).layer k = winner (valuesAt layers k) := by
  induction layers with
  | nil => rfl
  | cons t ts ih =>
    rw [List.forall_mem_cons] at h
    rw [get?_merge_cons h.1, ih h.2]
    rcases hu : Entries.get? t.layer k with _ | u
    · rw [valuesAt_cons_none hu]
    · rw [valuesAt_cons_some hu, winner_cons (h.1.of_get?_layer hu)]

/-- **The earliest layer wins.**  Merged layers are the one map that has the keys of the
layers, as they are first seen from the last to the first, and at each of them what the
values there come to: the first value, or the merge of the maps before the first that is
none.  Layers that are not maps contribute nothing. -/
theorem merge_earliest_wins {layers : List Tree} (h : ∀ t ∈ layers, t.WellKeyed) :
    (∃ entries, merge layers = .map entries ∧
      ∀ es : Entries Tree, es = entries ↔
        es.keys = keyOrder layers ∧ ∀ k, es.get? k = winner (valuesAt layers k)) ∧
    merge (layers.filter isMap) = merge layers := by
  refine ⟨⟨(merge layers).layer, rfl, fun es => ⟨?_, ?_⟩⟩, merge_filter_isMap layers⟩
  · rintro rfl
    exact ⟨keys_merge layers, get?_merge h⟩
  · rintro ⟨hkeys, hget⟩
    have hsame : (merge layers).layer = es := by
      refine Entries.ext_get? (distinct_merge layers) ?_ fun k => ?_
      · rw [keys_merge, hkeys]
      · rw [get?_merge h, hget]
    exact hsame.symm

/-! ### Maps around a text -/

/-- Four layers: at `a` a truth value stands between two maps, and the second layer is no
map. -/
def layered : List Tree :=
  [.map [("a".toList, .map [("x".toList, .null)]), ("d".toList, .map [("p".toList, .null)])],
    .string "ignored".toList,
    .map [("b".toList, .null), ("a".toList, .bool true)],
    .map [("a".toList, .map [("y".toList, .null)]), ("c".toList, .null),
      ("d".toList, .map [("q".toList, .null)])]]

/-- At `a` the map of the first layer stands alone, and at `d` two maps are merged. -/
theorem merge_layered :
    (∀ t ∈ layered, t.WellKeyed) ∧
      ∃ entries : Entries Tree, merge layered = .map entries ∧
        entries.keys = ["a".toList, "c".toList, "d".toList, "b".toList] ∧
        entries.get? "a".toList = some (.map [("x".toList, .null)]) ∧
        entries.get? "d".toList = some (.map [("q".toList, .null), ("p".toList, .null)]) := by
  have hlayered : ∀ t ∈ layered, t.WellKeyed := by
    simp [layered, WellKeyed, WellKeyedEntries, Entries.Distinct]
  obtain ⟨⟨entries, hmerge, hunique⟩, -⟩ := merge_earliest_wins hlayered
  obtain ⟨hkeys, hget⟩ := (hunique entries).mp rfl
  exact ⟨hlayered, entries, hmerge, hkeys.trans (by decide), (hget _).trans rfl,
    (hget _).trans rfl⟩

end Tree

end ConfigTemplate
