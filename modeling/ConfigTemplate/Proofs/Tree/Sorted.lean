/-
Trees with every map in the order of its keys.

`Tree.sorted` reorders maps and changes nothing else.

* `ascending_of_within_sorted`: every map of a sorted tree is in the order of its keys;
* `sameAs_sorted`: a tree and its sorted form are the same but for the order of maps;
* `lookup_sorted`: what is found in the sorted form is the sorted form of what is found;
* `leaves_sorted_perm`, `environment_sorted_perm`: the scalars are the same, and so are the
  variables if no two scalars have one name.
-/
import ConfigTemplate.Proofs.Tree.Collisions
import ConfigTemplate.Proofs.Tree.KeyOrder
import ConfigTemplate.Proofs.Tree.Sameness

namespace ConfigTemplate

namespace Tree

theorem sortedItems_eq (ts : List Tree) : sortedItems ts = ts.map sorted := by
  induction ts with
  | nil => rfl
  | cons t ts ih => rw [sortedItems, ih, List.map_cons]

theorem sortedEntries_eq (es : List (Text × Tree)) :
    sortedEntries es = es.map (Prod.map id sorted) := by
  induction es with
  | nil => rfl
  | cons e es ih => rw [sortedEntries, ih, List.map_cons, Prod.map, id]

theorem sorted_of_isScalar {t : Tree} (h : t.isScalar = true) : t.sorted = t := by
  cases t <;> simp_all [isScalar, sorted]

@[simp] theorem isScalar_sorted (t : Tree) : t.sorted.isScalar = t.isScalar := by
  cases t <;> rfl

/-- The children of a sorted tree are those of the tree, sorted, in another order. -/
theorem children_sorted_perm (t : Tree) :
    t.sorted.children.Perm (t.children.map (Prod.map id sorted)) := by
  cases t with
  | list items =>
    rw [sorted, sortedItems_eq, children, children, List.zipIdx_map, List.map_map, List.map_map]
    rfl
  | map entries =>
    rw [sorted, sortedEntries_eq, children, children]
    exact Entries.sortByKey_perm _
  | _ => exact List.Perm.refl _

theorem WellKeyed.sorted {t : Tree} (h : t.WellKeyed) : t.sorted.WellKeyed := by
  induction t with
  | list items ih =>
    rw [Tree.sorted, sortedItems_eq]
    refine wellKeyedItems_iff.mpr fun u hu => ?_
    obtain ⟨t, ht, rfl⟩ := List.mem_map.mp hu
    exact ih t ht (wellKeyedItems_iff.mp h t ht)
  | map entries ih =>
    obtain ⟨hdistinct, hentries⟩ := wellKeyed_map_iff.mp h
    rw [Tree.sorted, sortedEntries_eq]
    refine wellKeyed_map_iff.mpr ⟨?_, fun e he => ?_⟩
    · exact (Entries.ascending_sortByKey (Entries.distinct_map.mpr hdistinct)).distinct
    · obtain ⟨f, hf, rfl⟩ := List.mem_map.mp ((Entries.sortByKey_perm _).mem_iff.mp he)
      exact ih f hf (hentries f hf)
  | _ => exact h

/-- **Every map of a sorted tree is in the order of its keys.** -/
theorem ascending_of_within_sorted {t : Tree} (h : t.WellKeyed) {entries : Entries Tree}
    (hwithin : Within (.map entries) t.sorted) : entries.Ascending := by
  induction t using inductChildren with
  | h t ih =>
    rcases within_iff.mp hwithin with heq | ⟨e, he, hwithin⟩
    · cases t with
      | map es =>
        rw [Tree.sorted, sortedEntries_eq] at heq
        rw [Tree.map.inj heq]
        exact Entries.ascending_sortByKey (Entries.distinct_map.mpr (wellKeyed_map_iff.mp h).1)
      | _ => simp [Tree.sorted] at heq
    · obtain ⟨f, hf, rfl⟩ := List.mem_map.mp ((children_sorted_perm t).mem_iff.mp he)
      exact ih f hf (h.child hf) hwithin

/-- At each key a sorted map has what the map has there, sorted. -/
theorem get?_sortByKey_sortedEntries {entries : Entries Tree} (h : entries.Distinct) (k : Text) :
    Entries.get? (Entries.sortByKey (sortedEntries entries)) k =
      (entries.get? k).map Tree.sorted := by
  have hdistinct := Entries.distinct_map (f := Tree.sorted).mpr h
  have hsorted := (Entries.ascending_sortByKey hdistinct).distinct
  rw [sortedEntries_eq, Entries.get?_perm (Entries.sortByKey_perm _) hsorted, Entries.get?_map]

/-- **A tree and its sorted form are the same** but for the order of maps. -/
theorem sameAs_sorted {t : Tree} (h : t.WellKeyed) : t.sameAs t.sorted = true := by
  induction t with
  | list items ih =>
    rw [Tree.sorted, sortedItems_eq, sameAs, sameItems_iff, List.forall₂_map_right_iff,
      List.forall₂_same]
    exact fun t ht => ih t ht (wellKeyedItems_iff.mp h t ht)
  | map entries ih =>
    obtain ⟨hdistinct, hentries⟩ := wellKeyed_map_iff.mp h
    have hsorted : Entries.Distinct (Entries.sortByKey (sortedEntries entries)) :=
      (wellKeyed_map_iff.mp h.sorted).1
    rw [Tree.sorted, sameAs_map_iff hdistinct hsorted]
    intro k
    rw [get?_sortByKey_sortedEntries hdistinct]
    rcases hget : Entries.get? entries k with _ | t
    · exact .none
    · have hmem := Entries.mem_of_get?_eq_some hget
      exact .some (ih (k, t) hmem (hentries (k, t) hmem))
  | _ => exact sameAs_refl h

/-! ### What is found in a sorted tree -/

theorem child_sorted {t : Tree} (h : t.WellKeyed) (k : Text) :
    t.sorted.child k = (t.child k).map Tree.sorted := by
  cases t with
  | list items =>
    rw [Tree.sorted, sortedItems_eq, child, child, Option.map_bind]
    simp only [List.getElem?_map, Function.comp_def]
  | map entries =>
    rw [Tree.sorted, child, child]
    exact get?_sortByKey_sortedEntries (wellKeyed_map_iff.mp h).1 k
  | _ => rfl

theorem WellKeyed.of_child {t u : Tree} {k : Text} (h : t.WellKeyed) (hu : t.child k = some u) :
    u.WellKeyed := by
  cases t with
  | list items =>
    obtain ⟨i, -, hi⟩ := Option.bind_eq_some_iff.mp hu
    exact wellKeyedItems_iff.mp h u (List.mem_of_getElem? hi)
  | map entries => exact (wellKeyed_map_iff.mp h).2 _ (Entries.mem_of_get?_eq_some hu)
  | _ => simp [Tree.child] at hu

theorem WellKeyed.of_lookup {t u : Tree} {path : List Text} (h : t.WellKeyed)
    (hu : t.lookup path = some u) : u.WellKeyed := by
  induction path generalizing t with
  | nil => exact Option.some.inj hu ▸ h
  | cons k path ih =>
    obtain ⟨v, hv, hu⟩ := Option.bind_eq_some_iff.mp hu
    exact ih (h.of_child hv) hu

/-- **What is found in the sorted form is the sorted form of what is found.** -/
theorem lookup_sorted {t : Tree} (h : t.WellKeyed) (path : List Text) :
    t.sorted.lookup path = (t.lookup path).map Tree.sorted := by
  induction path generalizing t with
  | nil => rfl
  | cons k path ih =>
    rw [lookup_cons, lookup_cons, child_sorted h]
    rcases hu : t.child k with _ | u
    · rfl
    · exact ih (h.of_child hu)

/-- At each path there are trees that are the same. -/
theorem sameAt_lookup_sorted {t : Tree} (h : t.WellKeyed) (path : List Text) :
    SameAt (t.lookup path) (t.sorted.lookup path) := by
  rw [lookup_sorted h]
  rcases hu : t.lookup path with _ | u
  · exact .none
  · exact .some (sameAs_sorted (h.of_lookup hu))

theorem isTruthy_sorted (t : Tree) : t.sorted.isTruthy = t.isTruthy := by
  cases t with
  | list items => rw [Tree.sorted, sortedItems_eq, isTruthy, isTruthy, List.isEmpty_map]
  | _ => rfl

/-! ### The scalars of a sorted tree -/

/-- The scalars are the same, each with its path. -/
theorem leaves_sorted_perm (t : Tree) : t.sorted.leaves.Perm t.leaves := by
  induction t using inductChildren with
  | h t ih =>
    rcases hs : t.isScalar with _ | _
    · rw [leaves_eq_flatMap hs, leaves_eq_flatMap (by rwa [isScalar_sorted])]
      refine ((children_sorted_perm t).flatMap_right _).trans ?_
      rw [List.flatMap_map]
      exact List.Perm.flatMap_left _ fun e he => (ih e he).map _
    · rw [sorted_of_isScalar hs]

theorem named_sorted_perm (t : Tree) : t.sorted.named.Perm t.named :=
  ((leaves_sorted_perm t).filter _).map _

/-- **The variables are the same** if no two scalars have one name. -/
theorem environment_sorted_perm {t : Tree} (h : (t.named.map Prod.fst).Nodup) :
    t.sorted.environment.Perm t.environment := by
  have hperm := named_sorted_perm t
  have hsorted : (t.sorted.named.map Prod.fst).Nodup := (hperm.map Prod.fst).nodup_iff.mpr h
  rw [environment_eq_publish, environment_eq_publish,
    Entries.putAll_eq_append (by simpa using hsorted),
    Entries.putAll_eq_append (by simpa using h)]
  exact hperm.flatMap_right _

end Tree

end ConfigTemplate
