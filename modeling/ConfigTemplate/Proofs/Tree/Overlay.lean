/-
Laying entries over others.

* `ext_get?`: the keys in their order and the value at each key are all there is to a
  map;
* `keys_overlay`: laying entries over others appends the keys that are new, in order;
* `get?_overlay`: and at every key that they have, they are laid over what was there;
* `overlay_nil_left`: laid over nothing they are themselves.

Design notes: entries are lists here, and putting them in turn would let a later entry
at a key win over an earlier one.  No map has a key twice, so the statements on values
ask for `Entries.Distinct`.
-/
import ConfigTemplate.Tree.Merge

namespace ConfigTemplate

/-- Nothing is dropped from a list without repetitions. -/
theorem eraseDups_of_nodup {α : Type} [BEq α] [LawfulBEq α] {l : List α} (h : l.Nodup) :
    l.eraseDups = l := by
  induction l with
  | nil => rfl
  | cons a l ih =>
    rw [List.nodup_cons] at h
    have hfilter : l.filter (fun b => !b == a) = l := by
      refine List.filter_eq_self.mpr fun b hb => ?_
      have hne : b ≠ a := fun hab => h.1 (hab ▸ hb)
      simp [hne]
    rw [List.eraseDups_cons, hfilter, ih h.2]

namespace Entries

variable {α : Type}

theorem distinct_nil : Distinct ([] : Entries α) :=
  List.nodup_nil

theorem keys_put (es : Entries α) (k : Text) (v : α) :
    (es.put k v).keys = if k ∈ es.keys then es.keys else es.keys ++ [k] := by
  split
  · next h => exact keys_put_of_mem v h
  · next h => exact keys_put_of_not_mem v h

theorem get?_put (es : Entries α) (j k : Text) (v : α) :
    (es.put k v).get? j = if k = j then some v else es.get? j := by
  split
  · next h => rw [h, get?_put_self]
  · next h => exact get?_put_of_ne es v (Ne.symm h)

/-- **A map is its keys in order and the value at each of them.** -/
theorem ext_get? {es fs : Entries α} (hdistinct : es.Distinct) (hkeys : es.keys = fs.keys)
    (hget : ∀ k, es.get? k = fs.get? k) : es = fs := by
  induction es generalizing fs with
  | nil =>
    rcases fs with _ | ⟨f, fs⟩
    · rfl
    · simp at hkeys
  | cons e es ih =>
    obtain ⟨k, v⟩ := e
    rcases fs with _ | ⟨⟨j, w⟩, fs⟩
    · simp at hkeys
    · rw [keys_cons, keys_cons, List.cons.injEq] at hkeys
      obtain ⟨hkj, hrest⟩ := hkeys
      obtain rfl : k = j := hkj
      have hnodup : k ∉ keys es ∧ Distinct es := List.nodup_cons.mp hdistinct
      have hvw : v = w := by simpa [get?_cons] using hget k
      have htail : ∀ i, get? es i = get? fs i := by
        intro i
        by_cases hi : k = i
        · -- The first key does not come back later in either list.
          rw [← hi, get?_eq_none_iff.mpr hnodup.1, get?_eq_none_iff.mpr (hrest ▸ hnodup.1)]
        · simpa [get?_cons, hi] using hget i
      rw [hvw, ih hnodup.2 hrest htail]

end Entries

namespace Tree

@[simp] theorem laidOver_none (t : Tree) : laidOver none t = t := by
  cases t <;> simp [laidOver]

theorem laidOver_of_not_map {t : Tree} (h : t.isMap = false) (old : Option Tree) :
    laidOver old t = t := by
  cases t <;> simp_all [laidOver, isMap, entries?]

theorem laidOver_map_of_not_map {u : Tree} (h : u.isMap = false) (es : Entries Tree) :
    laidOver (some u) (.map es) = .map es := by
  cases u <;> simp_all [laidOver, isMap, entries?]

@[simp] theorem laidOver_map_map (base es : Entries Tree) :
    laidOver (some (.map base)) (.map es) = .map (overlay base es) := by
  simp [laidOver]

theorem distinct_overlay {base : Entries Tree} (h : base.Distinct) (es : Entries Tree) :
    (overlay base es).Distinct := by
  induction es generalizing base with
  | nil => simpa using h
  | cons e es ih =>
    obtain ⟨k, t⟩ := e
    rw [overlay_cons]
    exact ih (Entries.distinct_put _ _ h)

/-- The keys that are there stay where they are, and new ones are appended. -/
theorem keys_overlay {base : Entries Tree} (h : base.Distinct) (es : Entries Tree) :
    (overlay base es).keys = (base.keys ++ Entries.keys es).eraseDups := by
  induction es generalizing base with
  | nil => simpa using (eraseDups_of_nodup h).symm
  | cons e es ih =>
    obtain ⟨k, t⟩ := e
    rw [overlay_cons, ih (Entries.distinct_put _ _ h), Entries.keys_put, Entries.keys_cons]
    split
    · next hk => simp [List.eraseDups_append, List.removeAll, hk]
    · simp

/-- At a key that they have, entries are laid over what was there. -/
theorem get?_overlay {es : Entries Tree} (h : es.Distinct) (base : Entries Tree) (k : Text) :
    (overlay base es).get? k =
      match es.get? k with
      | some t => some (laidOver (base.get? k) t)
      | none => base.get? k := by
  induction es generalizing base with
  | nil => simp
  | cons e es ih =>
    obtain ⟨j, t⟩ := e
    have hnodup : j ∉ Entries.keys es ∧ Entries.Distinct es := List.nodup_cons.mp h
    rw [overlay_cons, ih hnodup.2, Entries.get?_put, Entries.get?_cons]
    by_cases hjk : j = k
    · -- The key is not met a second time.
      have hnone : Entries.get? es k = none := Entries.get?_eq_none_iff.mpr (hjk ▸ hnodup.1)
      simp [hjk, hnone]
    · simp [hjk]

/-- Entries laid over nothing are themselves. -/
theorem overlay_nil_left {es : Entries Tree} (h : es.Distinct) : overlay [] es = es := by
  refine Entries.ext_get? (distinct_overlay Entries.distinct_nil es) ?_ fun k => ?_
  · rw [keys_overlay Entries.distinct_nil, Entries.keys_nil, List.nil_append,
      eraseDups_of_nodup h]
  · rw [get?_overlay h]
    rcases Entries.get? es k with _ | t
    · rfl
    · simp

end Tree

end ConfigTemplate
