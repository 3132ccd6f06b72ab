/-
What a tree holds at a path of keys.

`Tree.descend` goes down through maps only, unlike `Tree.lookup`, which goes through lists
too.  Setting a path changes what is held there and below, makes maps of what is above,
and leaves all other paths alone:

* `descend_insertPath_append`, `descend_insertPath_above`, `descend_insertPath_of_not_prefix`;
* `wellKeyed_insertPath`: and no map gets a key twice.
-/
import ConfigTemplate.Proofs.Tree.Merge
import ConfigTemplate.Tree.Insert

namespace ConfigTemplate

/-- What is put is the only entry that is new. -/
theorem Entries.mem_put {α : Type} {es : Entries α} {k : Text} {v : α} {e : Text × α}
    (h : e ∈ es.put k v) : e ∈ es ∨ e.2 = v := by
  induction es with
  | nil =>
    obtain rfl := List.mem_singleton.mp h
    exact .inr rfl
  | cons d es ih =>
    unfold put at h
    split at h
    · rcases List.mem_cons.mp h with rfl | h
      · exact .inr rfl
      · exact .inl (List.mem_cons_of_mem _ h)
    · rcases List.mem_cons.mp h with rfl | h
      · exact .inl List.mem_cons_self
      · exact (ih h).imp (List.mem_cons_of_mem _) id

namespace Tree

/-- What a tree holds at a path of keys, through maps only. -/
def descend : Tree → List Text → Option Tree
  | t, [] => some t
  | t, k :: ks => (Entries.get? t.layer k).bind (descend · ks)

@[simp] theorem descend_nil (t : Tree) : t.descend [] = some t := by
  rw [descend]

theorem descend_cons (t : Tree) (k : Text) (ks : List Text) :
    t.descend (k :: ks) = (Entries.get? t.layer k).bind (descend · ks) := by
  rw [descend]

/-- Nothing is held below what is no map. -/
theorem descend_of_not_map {t : Tree} (h : t.isMap = false) {p : List Text} (hp : p ≠ []) :
    t.descend p = none := by
  obtain ⟨k, ks, rfl⟩ := List.exists_cons_of_ne_nil hp
  rw [descend_cons, layer_of_not_map h]
  rfl

/-! ### Setting a path -/

section

variable (es : Entries Tree) (t : Tree)

theorem insertPath_cons (k : Text) {ks : List Text} (h : ks ≠ []) :
    insertPath es (k :: ks) t =
      es.put k (.map (insertPath (((es.get? k).map layer).getD []) ks t)) := by
  obtain ⟨l, ls, rfl⟩ := List.exists_cons_of_ne_nil h
  rfl

/-- The map that is made at a key holds what was held there before. -/
theorem descend_layer_get? (k : Text) {p : List Text} (hp : p ≠ []) :
    (Tree.map (((es.get? k).map layer).getD [])).descend p = (Tree.map es).descend (k :: p) := by
  obtain ⟨l, ls, rfl⟩ := List.exists_cons_of_ne_nil hp
  rw [descend_cons (.map es)]
  rcases hu : Entries.get? es k with _ | u
  · simp [descend_cons, layer, hu]
  · simp [descend_cons, layer, hu]

theorem descend_map_put_self (k : Text) (p : List Text) :
    (Tree.map (es.put k t)).descend (k :: p) = t.descend p := by
  simp [descend_cons, layer]

theorem descend_map_put_of_ne {j k : Text} (h : j ≠ k) (p : List Text) :
    (Tree.map (es.put k t)).descend (j :: p) = (Tree.map es).descend (j :: p) := by
  simp [descend_cons, layer, Entries.get?_put_of_ne es t h]

/-- The tree is held at the path that it was set at. -/
theorem descend_insertPath_append {p : List Text} (hp : p ≠ []) (q : List Text) :
    (Tree.map (insertPath es p t)).descend (p ++ q) = t.descend q := by
  induction p generalizing es with
  | nil => exact absurd rfl hp
  | cons k p ih =>
    by_cases h : p = []
    · subst h
      exact descend_map_put_self es t k q
    · rw [insertPath_cons es t k h, List.cons_append, descend_map_put_self]
      exact ih _ h

/-- There is a map at every path above. -/
theorem descend_insertPath_above (p : List Text) {q : List Text} (hq : q ≠ []) :
    ∃ fs, (Tree.map (insertPath es (p ++ q) t)).descend p = some (.map fs) := by
  induction p generalizing es with
  | nil => exact ⟨_, descend_nil _⟩
  | cons k p ih =>
    rw [List.cons_append, insertPath_cons es t k (List.append_ne_nil_of_right_ne_nil p hq),
      descend_map_put_self]
    exact ih _

/-- No path aside is changed. -/
theorem descend_insertPath_of_not_prefix {p q : List Text} (hpq : ¬ p <+: q) (hqp : ¬ q <+: p) :
    (Tree.map (insertPath es p t)).descend q = (Tree.map es).descend q := by
  induction p generalizing es q with
  | nil => exact absurd (List.nil_prefix) hpq
  | cons k p ih =>
    rcases q with _ | ⟨j, q⟩
    · exact absurd (List.nil_prefix) hqp
    · rw [List.cons_prefix_cons, not_and] at hpq hqp
      by_cases hjk : j = k
      · subst hjk
        have hp : p ≠ [] := fun h => hpq rfl (h ▸ List.nil_prefix)
        have hq : q ≠ [] := fun h => hqp rfl (h ▸ List.nil_prefix)
        rw [insertPath_cons es t j hp, descend_map_put_self, ih _ (hpq rfl) (hqp rfl),
          descend_layer_get? es j hq]
      · by_cases hp : p = []
        · subst hp
          exact descend_map_put_of_ne es t hjk q
        · rw [insertPath_cons es t k hp, descend_map_put_of_ne es _ hjk]

end

theorem wellKeyed_map_nil : (Tree.map []).WellKeyed :=
  wellKeyed_map_iff.mpr ⟨Entries.distinct_nil, fun _ h => absurd h List.not_mem_nil⟩

theorem WellKeyed.map_layer {t : Tree} (h : t.WellKeyed) : (Tree.map t.layer).WellKeyed := by
  cases t with
  | map es => exact h
  | _ => exact wellKeyed_map_nil

theorem wellKeyed_map_put {es : Entries Tree} (h : (Tree.map es).WellKeyed) (k : Text) {t : Tree}
    (ht : t.WellKeyed) : (Tree.map (es.put k t)).WellKeyed := by
  obtain ⟨hdistinct, hes⟩ := wellKeyed_map_iff.mp h
  refine wellKeyed_map_iff.mpr ⟨Entries.distinct_put k t hdistinct, fun e he => ?_⟩
  rcases Entries.mem_put he with he | he
  · exact hes e he
  · exact he ▸ ht

theorem wellKeyed_insertPath {es : Entries Tree} (h : (Tree.map es).WellKeyed) (p : List Text)
    {t : Tree} (ht : t.WellKeyed) : (Tree.map (insertPath es p t)).WellKeyed := by
  induction p generalizing es with
  | nil => exact h
  | cons k p ih =>
    by_cases hp : p = []
    · subst hp
      exact wellKeyed_map_put h k ht
    · rw [insertPath_cons es t k hp]
      refine wellKeyed_map_put h k (ih ?_)
      rcases hu : Entries.get? es k with _ | u
      · exact wellKeyed_map_nil
      · have hwell : u.WellKeyed := h.of_get?_layer hu
        exact hwell.map_layer

end Tree

end ConfigTemplate
