/-
Trees with more in them.

A tree extends another one if it has all the entries of its maps, at whatever depth, and
is the same otherwise.  Layers with less precedence only extend what there is:

* `Extends.lookup`: what a path leads to in a tree, it leads to in a tree that extends it;
* `extends_overlay`: entries laid over more give more;
* `extends_merge_append`: and so layers that are appended extend what the others are
  merged to.
-/
import ConfigTemplate.Proofs.Tree.Merge
import ConfigTemplate.Tree.Lookup

namespace ConfigTemplate

namespace Tree

/-- `Extends t u`: the tree `u` is `t` with perhaps more entries in its maps.  Lists and
scalars are the same. -/
inductive Extends : Tree → Tree → Prop
  | same {t : Tree} : Extends t t
  | map {es fs : Entries Tree} (hkeys : ∀ k, k ∈ es.keys → k ∈ fs.keys)
      (hvalues : ∀ k u v, es.get? k = some u → fs.get? k = some v → Extends u v) :
      Extends (.map es) (.map fs)

/-- Whether there is a value wherever there was one, and it extends that. -/
def ExtendsAt (old new : Option Tree) : Prop :=
  ∀ u, old = some u → ∃ v, new = some v ∧ Extends u v

theorem extendsAt_none (new : Option Tree) : ExtendsAt none new := by
  intro u hu
  cases hu

theorem extendsAt_some {u v : Tree} (h : Extends u v) : ExtendsAt (some u) (some v) := by
  rintro w hw
  obtain rfl : u = w := Option.some.inj hw
  exact ⟨v, rfl, h⟩

theorem extendsAt_refl (old : Option Tree) : ExtendsAt old old :=
  fun u hu => ⟨u, hu, .same⟩

/-- A map extends another one if it does so at every key. -/
theorem extends_map_iff {es fs : Entries Tree} :
    Extends (.map es) (.map fs) ↔ ∀ k, ExtendsAt (es.get? k) (fs.get? k) := by
  constructor
  · intro h k u hu
    cases h with
    | same => exact ⟨u, hu, .same⟩
    | map hkeys hvalues =>
      have hk : k ∈ fs.keys := hkeys k (Entries.mem_keys_iff_exists_get?.mpr ⟨u, hu⟩)
      obtain ⟨v, hv⟩ := Entries.mem_keys_iff_exists_get?.mp hk
      exact ⟨v, hv, hvalues k u v hu hv⟩
  · intro h
    refine .map (fun k hk => ?_) fun k u v hu hv => ?_
    · obtain ⟨u, hu⟩ := Entries.mem_keys_iff_exists_get?.mp hk
      obtain ⟨v, hv, -⟩ := h k u hu
      exact Entries.mem_keys_iff_exists_get?.mpr ⟨v, hv⟩
    · obtain ⟨w, hw, huw⟩ := h k u hu
      obtain rfl : w = v := Option.some.inj (hw.symm.trans hv)
      exact huw

theorem Extends.eq_of_not_map {u v : Tree} (h : Extends u v) (hu : u.isMap = false) : v = u := by
  cases h with
  | same => rfl
  | map => cases hu

theorem Extends.isMap_eq {u v : Tree} (h : Extends u v) : v.isMap = u.isMap := by
  cases h with
  | same => rfl
  | map => rfl

/-! ### Lookup -/

theorem Extends.child {t u : Tree} (h : Extends t u) (k : Text) :
    ExtendsAt (t.child k) (u.child k) := by
  cases h with
  | same => exact extendsAt_refl _
  | @map es fs hkeys hvalues => exact extends_map_iff.mp (.map hkeys hvalues) k

/-- **What a path leads to, it leads to in a tree with more in it.** -/
theorem Extends.lookup {t u : Tree} (h : Extends t u) (p : List Text) :
    ExtendsAt (t.lookup p) (u.lookup p) := by
  induction p generalizing t u with
  | nil => exact extendsAt_some h
  | cons k ks ih =>
    intro w hw
    rw [lookup_cons, Option.bind_eq_some_iff] at hw
    obtain ⟨t', ht', hw⟩ := hw
    obtain ⟨u', hu', htu⟩ := h.child k t' ht'
    rw [lookup_cons, hu', Option.bind_some]
    exact ih htu w hw

/-! ### Layers -/

/-- What a map is laid over: the entries that were there, if it was a map. -/
theorem laidOver_map {es : Entries Tree} (h : es.Distinct) (old : Option Tree) :
    laidOver old (.map es) = .map (overlay ((old.map layer).getD []) es) := by
  rcases old with _ | u
  · rw [laidOver_none, Option.map_none, Option.getD_none, overlay_nil_left h]
  · rw [Option.map_some, Option.getD_some]
    rcases hu : u.isMap with _ | _
    · rw [laidOver_map_of_not_map hu, layer_of_not_map hu, overlay_nil_left h]
    · obtain ⟨base, rfl⟩ := exists_entries_of_isMap hu
      exact laidOver_map_map base es

theorem ExtendsAt.layer {old new : Option Tree} (h : ExtendsAt old new) :
    Extends (.map ((old.map layer).getD [])) (.map ((new.map layer).getD [])) := by
  rcases old with _ | u
  · exact extends_map_iff.mpr fun k => extendsAt_none _
  · obtain ⟨v, rfl, huv⟩ := h u rfl
    cases huv with
    | same => exact .same
    | map hkeys hvalues => exact .map hkeys hvalues

/-- Entries laid over a map with more in it, if each of them laid over more gives more. -/
theorem extends_overlay_of {es base base' : Entries Tree} (hes : es.Distinct)
    (hlaid : ∀ e ∈ es, ∀ old new, ExtendsAt old new →
      Extends (laidOver old e.2) (laidOver new e.2))
    (h : Extends (.map base) (.map base')) :
    Extends (.map (overlay base es)) (.map (overlay base' es)) := by
  rw [extends_map_iff] at h ⊢
  intro k
  rw [get?_overlay hes, get?_overlay hes]
  rcases ht : Entries.get? es k with _ | t
  · exact h k
  · exact extendsAt_some (hlaid (k, t) (Entries.mem_of_get?_eq_some ht) _ _ (h k))

theorem extends_laidOver {t : Tree} (ht : t.WellKeyed) {old new : Option Tree}
    (h : ExtendsAt old new) : Extends (laidOver old t) (laidOver new t) := by
  induction t generalizing old new with
  | map es ih =>
    obtain ⟨hdistinct, hes⟩ := wellKeyed_map_iff.mp ht
    rw [laidOver_map hdistinct, laidOver_map hdistinct]
    exact extends_overlay_of hdistinct (fun e he _ _ hat => ih e he (hes e he) hat) h.layer
  | _ =>
    -- What is no map stands as it is, whatever was there.
    rw [laidOver_of_not_map rfl, laidOver_of_not_map rfl]
    exact .same

/-- **A layer laid over more gives more.** -/
theorem extends_overlay {t : Tree} (ht : t.WellKeyed) {base base' : Entries Tree}
    (h : Extends (.map base) (.map base')) :
    Extends (.map (overlay base t.layer)) (.map (overlay base' t.layer)) := by
  refine extends_overlay_of ht.distinct_layer (fun e he old new hat => ?_) h
  cases t with
  | map es => exact extends_laidOver ((wellKeyed_map_iff.mp ht).2 e he) hat
  | _ => exact absurd he List.not_mem_nil

/-- **Layers that are appended extend what the others are merged to.** -/
theorem extends_merge_append {xs : List Tree} (h : ∀ t ∈ xs, t.WellKeyed) (ys : List Tree) :
    Extends (merge xs) (merge (xs ++ ys)) := by
  -- What is appended lies below all the others, which are laid over it one after another.
  induction xs with
  | nil =>
    rw [List.nil_append, merge_nil, merge_eq_map ys]
    exact extends_map_iff.mpr fun k => extendsAt_none _
  | cons t ts ih =>
    obtain ⟨ht, hts⟩ := List.forall_mem_cons.mp h
    have hrest := ih hts
    rw [merge_eq_map ts, merge_eq_map (ts ++ ys)] at hrest
    rw [List.cons_append, merge_cons, merge_cons]
    exact extends_overlay ht hrest

end Tree

end ConfigTemplate
