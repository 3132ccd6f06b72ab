/-
Which layer decides a path.

A map blocks a path for the layers behind it if it holds anything there, or a value that is
no map above it.  What merged layers hold at a path is what the first layer that blocks it
holds there (`descend_merge_iff`).

* `settles_iff_blocks`: whether a map blocks a path is decided on the way down;
* `find?_valuesAt`: the first layer that settles a path has the first value that does;
* `descend_merge`: the statement with the search written as `List.find?`.
-/
import ConfigTemplate.Proofs.Tree.Descend

namespace ConfigTemplate

namespace Tree

/-- Something is held at the path, or a value that is no map is held above it. -/
def Blocks (t : Tree) (p : List Text) : Prop :=
  (t.descend p).isSome = true ∨
    ∃ q, q <+: p ∧ q ≠ p ∧ ∃ u, t.descend q = some u ∧ u.isMap = false

/-- Whether going down a path ends at the end of the path or at a value that is no map. -/
def settles : Tree → List Text → Bool
  | _, [] => true
  | t, k :: ks => (Entries.get? t.layer k).any fun u => !u.isMap || settles u ks

theorem settles_cons (t : Tree) (k : Text) (ks : List Text) :
    t.settles (k :: ks) = (Entries.get? t.layer k).any fun u => !u.isMap || u.settles ks := by
  rw [settles]

theorem settles_of_not_map {t : Tree} (h : t.isMap = false) {p : List Text} (hp : p ≠ []) :
    t.settles p = false := by
  obtain ⟨k, ks, rfl⟩ := List.exists_cons_of_ne_nil hp
  rw [settles_cons, layer_of_not_map h]
  rfl

theorem blocks_nil (t : Tree) : t.Blocks [] :=
  .inl (by simp)

theorem blocks_cons_none {t : Tree} (ht : t.isMap = true) {k : Text}
    (h : Entries.get? t.layer k = none) (ks : List Text) : ¬ t.Blocks (k :: ks) := by
  have hnone : ∀ ls, t.descend (k :: ls) = none := fun ls => by rw [descend_cons, h]; rfl
  rintro (hsome | ⟨q, hq, -, u, hu, hmap⟩)
  · simp [hnone] at hsome
  · rcases List.prefix_cons_iff.mp hq with rfl | ⟨ls, rfl, -⟩
    · obtain rfl : t = u := by simpa using hu
      simp [ht] at hmap
    · simp [hnone] at hu

theorem blocks_cons_some {t u : Tree} (ht : t.isMap = true) {k : Text}
    (h : Entries.get? t.layer k = some u) (ks : List Text) :
    t.Blocks (k :: ks) ↔ u.isMap = false ∨ u.Blocks ks := by
  have hdescend : ∀ ls, t.descend (k :: ls) = u.descend ls := fun ls => by
    rw [descend_cons, h]
    rfl
  constructor
  · rintro (hsome | ⟨q, hq, hne, w, hw, hmap⟩)
    · exact .inr (.inl (hdescend ks ▸ hsome))
    · rcases List.prefix_cons_iff.mp hq with rfl | ⟨ls, rfl, hls⟩
      · obtain rfl : t = w := by simpa using hw
        simp [ht] at hmap
      · exact .inr (.inr ⟨ls, hls, fun he => hne (he ▸ rfl), w, hdescend ls ▸ hw, hmap⟩)
  · rintro (hmap | hsome | ⟨q, hq, hne, w, hw, hmap⟩)
    · by_cases hks : ks = []
      · subst hks
        exact .inl (by simp [hdescend])
      · exact .inr ⟨[k], by simp, by simpa using Ne.symm hks, u, by simp [hdescend], hmap⟩
    · exact .inl (hdescend ks ▸ hsome)
    · exact .inr ⟨k :: q, List.cons_prefix_cons.mpr ⟨rfl, hq⟩, fun he => hne (List.cons.inj he).2,
        w, (hdescend q).trans hw, hmap⟩

theorem settles_iff_blocks {t : Tree} (ht : t.isMap = true) (p : List Text) :
    t.settles p = true ↔ t.Blocks p := by
  induction p generalizing t with
  | nil => exact iff_of_true rfl (blocks_nil t)
  | cons k ks ih =>
    rw [settles_cons]
    rcases hu : Entries.get? t.layer k with _ | u
    · exact iff_of_false (by simp) (blocks_cons_none ht hu ks)
    · rw [blocks_cons_some ht hu]
      rcases hmap : u.isMap with _ | _
      · simp [hmap]
      · simp [hmap, ih hmap]

theorem settles_eq_false_iff {t : Tree} {p : List Text} (hp : p ≠ []) :
    t.settles p = false ↔ (t.isMap = true → ¬ t.Blocks p) := by
  rcases ht : t.isMap with _ | _
  · exact iff_of_true (settles_of_not_map ht hp) (by simp)
  · rw [← settles_iff_blocks ht]
    simp

/-! ### The first layer that settles a path -/

theorem find?_valuesAt (layers : List Tree) (k : Text) (f : Tree → Bool) (g : Tree → Option Tree) :
    ((valuesAt layers k).find? f).bind g =
      (layers.find? fun t => (Entries.get? t.layer k).any f).bind fun t =>
        (Entries.get? t.layer k).bind g := by
  rw [valuesAt, List.find?_filterMap, Option.bind_assoc]

/-- A search that stops at the first value that is no map does not see what is behind it,
and such a value holds nothing at the path. -/
theorem find?_takeWhile_isMap (values : List Tree) {p : List Text} (hp : p ≠ []) :
    ((values.takeWhile isMap).find? (settles · p)).bind (descend · p) =
      (values.find? fun u => !u.isMap || u.settles p).bind (descend · p) := by
  induction values with
  | nil => rfl
  | cons u us ih =>
    rcases hmap : u.isMap with _ | _
    · simp [hmap, descend_of_not_map hmap hp]
    · rw [List.takeWhile_cons_of_pos hmap, List.find?_cons, List.find?_cons]
      rcases hs : u.settles p with _ | _
      · simpa [hmap] using ih
      · simp

theorem descend_merge {layers : List Tree} (h : ∀ t ∈ layers, t.WellKeyed) {p : List Text}
    (hp : p ≠ []) {v : Tree} (hv : v.isMap = false) :
    (merge layers).descend p = some v ↔
      (layers.find? (settles · p)).bind (descend · p) = some v := by
  -- One key down, the layers are the values at the key up to the first that is no map.
  induction p generalizing layers with
  | nil => exact absurd rfl hp
  | cons k ks ih =>
    have hvalues := fun u => @wellKeyed_of_mem_valuesAt layers h k u
    have hfind : (layers.find? (settles · (k :: ks))).bind (descend · (k :: ks)) =
        ((valuesAt layers k).find? fun u => !u.isMap || u.settles ks).bind (descend · ks) := by
      simp only [settles_cons, descend_cons, find?_valuesAt]
    rw [hfind, descend_cons, get?_merge h]
    generalize valuesAt layers k = values at hvalues
    rcases values with _ | ⟨u, us⟩
    · simp [winner]
    · rcases hmap : u.isMap with _ | _
      · simp [winner, hmap]
      · have hwinner : winner (u :: us) = some (merge ((u :: us).takeWhile isMap)) := by
          rw [winner, if_pos hmap, List.takeWhile_cons_of_pos hmap]
        rw [hwinner, Option.bind_some]
        by_cases hks : ks = []
        · -- Both sides end at a map, which `v` is not.
          subst hks
          have hmerge : merge ((u :: us).takeWhile isMap) ≠ v := fun he => by
            rw [← he, merge_eq_map] at hv
            cases hv
          have hu : u ≠ v := fun he => by simp [← he, hmap] at hv
          simp [settles, hmerge, hu]
        · have hrun : ∀ t ∈ (u :: us).takeWhile isMap, t.WellKeyed := fun t ht =>
            hvalues t ((List.takeWhile_prefix _).subset ht)
          rw [ih hrun hks, find?_takeWhile_isMap _ hks]

theorem isMap_of_descend {t v : Tree} {p : List Text} (hp : p ≠ []) (h : t.descend p = some v) :
    t.isMap = true := by
  rcases ht : t.isMap with _ | _
  · simp [descend_of_not_map ht hp] at h
  · rfl

/-- A tree settles the paths at which it holds anything. -/
theorem settles_of_descend {t v : Tree} {p : List Text} (h : t.descend p = some v) :
    t.settles p = true := by
  induction p generalizing t with
  | nil => rfl
  | cons k ks ih =>
    rw [descend_cons, Option.bind_eq_some_iff] at h
    obtain ⟨u, hu, hv⟩ := h
    simp [settles_cons, hu, ih hv]

/-- **The first layer that blocks a path decides it.**  Merged layers hold a value that is
no map at a path if and only if one of the maps among them holds it there and none of the
maps before blocks the path. -/
theorem descend_merge_iff {layers : List Tree} (h : ∀ t ∈ layers, t.WellKeyed) {p : List Text}
    (hp : p ≠ []) {v : Tree} (hv : v.isMap = false) :
    (merge layers).descend p = some v ↔
      ∃ earlier t later, layers = earlier ++ t :: later ∧ t.isMap = true ∧
        t.descend p = some v ∧ ∀ u ∈ earlier, u.isMap = true → ¬ u.Blocks p := by
  rw [descend_merge h hp hv, Option.bind_eq_some_iff]
  constructor
  · rintro ⟨t, hfind, htv⟩
    obtain ⟨-, earlier, later, rfl, hearlier⟩ := List.find?_eq_some_iff_append.mp hfind
    refine ⟨earlier, t, later, rfl, isMap_of_descend hp htv, htv, fun u hu => ?_⟩
    exact (settles_eq_false_iff hp).mp (by simpa using hearlier u hu)
  · rintro ⟨earlier, t, later, rfl, -, htv, hearlier⟩
    refine ⟨t, List.find?_eq_some_iff_append.mpr
      ⟨settles_of_descend htv, earlier, later, rfl, fun u hu => ?_⟩, htv⟩
    simpa using (settles_eq_false_iff hp).mpr (hearlier u hu)

end Tree

end ConfigTemplate
