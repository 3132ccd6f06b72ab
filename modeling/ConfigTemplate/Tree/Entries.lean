/-
Maps in insertion order.

A map is the list of its entries.  `Entries.put` overwrites an entry where it
stands and appends a new one, so a key keeps the position it got first:

* `get?_put_self`, `get?_put_of_ne`: what is found after a `put`;
* `keys_put_of_mem`, `keys_put_of_not_mem`: which keys there are, and in what
  order;
* `putAll_eq_append`: pairs with keys of their own are kept as they are;
* `Distinct`: no key occurs twice, which `put` keeps.
-/
import ConfigTemplate.Text.Basic

namespace ConfigTemplate

/-- The entries of a map, in insertion order. -/
abbrev Entries (α : Type) := List (Text × α)

namespace Entries

variable {α : Type}

/-- The keys, in insertion order. -/
def keys (es : Entries α) : List Text :=
  es.map Prod.fst

/-- The value at a key; of equal keys, the first one counts. -/
def get? : Entries α → Text → Option α
  | [], _ => none
  | (j, v) :: es, k => if j = k then some v else get? es k

/-- Set the value at a key: in place if the key is there, else at the end. -/
def put : Entries α → Text → α → Entries α
  | [], k, v => [(k, v)]
  | (j, w) :: es, k, v => if j = k then (j, v) :: es else (j, w) :: put es k v

/-- Put every pair in turn: a key has its first position and its last value. -/
def putAll (es : Entries α) (ps : List (Text × α)) : Entries α :=
  ps.foldl (fun es p => put es p.1 p.2) es

/-- No key occurs twice. -/
def Distinct (es : Entries α) : Prop :=
  es.keys.Nodup

@[simp] theorem keys_nil : keys ([] : Entries α) = [] := rfl

@[simp] theorem keys_cons (e : Text × α) (es : Entries α) : keys (e :: es) = e.1 :: keys es := rfl

@[simp] theorem get?_nil (k : Text) : get? ([] : Entries α) k = none := rfl

theorem get?_cons (j : Text) (v : α) (es : Entries α) (k : Text) :
    get? ((j, v) :: es) k = if j = k then some v else get? es k := rfl

theorem get?_eq_none_iff {es : Entries α} {k : Text} : es.get? k = none ↔ k ∉ es.keys := by
  induction es with
  | nil => simp
  | cons e es ih =>
    obtain ⟨j, v⟩ := e
    rw [get?_cons, keys_cons, List.mem_cons, not_or]
    by_cases h : j = k
    · simp [h]
    · simp [h, ih, Ne.symm h]

/-- The keys are those at which something is found. -/
theorem mem_keys_iff_exists_get? {es : Entries α} {k : Text} :
    k ∈ es.keys ↔ ∃ v, es.get? k = some v := by
  rcases hk : es.get? k with _ | v
  · simpa using get?_eq_none_iff.mp hk
  · refine iff_of_true (Decidable.byContradiction fun hnot => ?_) ⟨v, rfl⟩
    rw [get?_eq_none_iff.mpr hnot] at hk
    cases hk

theorem mem_of_get?_eq_some {es : Entries α} {k : Text} {v : α}
    (h : es.get? k = some v) : (k, v) ∈ es := by
  induction es with
  | nil => simp at h
  | cons e es ih =>
    obtain ⟨j, w⟩ := e
    rw [get?_cons] at h
    split at h
    · next hjk =>
      rw [hjk, Option.some.inj h]
      exact List.mem_cons_self
    · exact List.mem_cons_of_mem _ (ih h)

theorem get?_of_mem {es : Entries α} {k : Text} {v : α} (hdistinct : es.Distinct)
    (h : (k, v) ∈ es) : es.get? k = some v := by
  induction es with
  | nil => simp at h
  | cons e es ih =>
    obtain ⟨hnew, hrest⟩ : e.1 ∉ keys es ∧ Distinct es := List.nodup_cons.mp hdistinct
    rcases List.mem_cons.mp h with rfl | h
    · exact if_pos rfl
    · have hk : k ∈ keys es := List.mem_map_of_mem h
      have hne : e.1 ≠ k := fun hek => hnew (hek ▸ hk)
      rw [get?_cons, if_neg hne, ih hrest h]

@[simp] theorem get?_put_self (es : Entries α) (k : Text) (v : α) :
    (es.put k v).get? k = some v := by
  induction es with
  | nil => simp [put, get?]
  | cons e es ih =>
    obtain ⟨i, w⟩ := e
    unfold put
    split <;> simp_all [get?_cons]

theorem get?_put_of_ne (es : Entries α) {j k : Text} (v : α) (h : j ≠ k) :
    (es.put k v).get? j = es.get? j := by
  induction es with
  | nil => simp [put, get?, Ne.symm h]
  | cons e es ih =>
    obtain ⟨i, w⟩ := e
    unfold put
    split
    · next hk => simp [get?_cons, hk, Ne.symm h]
    · simp [get?_cons, ih]

/-- Putting the value that is there changes nothing. -/
theorem put_eq_self {es : Entries α} {k : Text} {v : α} (h : es.get? k = some v) :
    es.put k v = es := by
  induction es with
  | nil => simp at h
  | cons e es ih =>
    obtain ⟨j, w⟩ := e
    rw [get?_cons] at h
    unfold put
    split at h
    · next hjk => rw [if_pos hjk, Option.some.inj h]
    · next hjk => rw [if_neg hjk, ih h]

theorem keys_put_of_mem {es : Entries α} {k : Text} (v : α) (h : k ∈ es.keys) :
    (es.put k v).keys = es.keys := by
  induction es with
  | nil => simp at h
  | cons e es ih =>
    unfold put
    split
    · rfl
    · next hk =>
      rw [keys_cons, List.mem_cons] at h
      rw [keys_cons, keys_cons, ih (h.resolve_left (Ne.symm hk))]

theorem put_of_not_mem {es : Entries α} {k : Text} (v : α) (h : k ∉ es.keys) :
    es.put k v = es ++ [(k, v)] := by
  induction es with
  | nil => rfl
  | cons e es ih =>
    rw [keys_cons, List.mem_cons, not_or] at h
    unfold put
    rw [if_neg (Ne.symm h.1), ih h.2, List.cons_append]

theorem keys_put_of_not_mem {es : Entries α} {k : Text} (v : α) (h : k ∉ es.keys) :
    (es.put k v).keys = es.keys ++ [k] := by
  rw [put_of_not_mem v h, keys, List.map_append]
  rfl

theorem distinct_put {es : Entries α} (k : Text) (v : α) (h : es.Distinct) :
    (es.put k v).Distinct := by
  by_cases hk : k ∈ es.keys
  · rw [Distinct, keys_put_of_mem v hk]
    exact h
  · rw [Distinct, keys_put_of_not_mem v hk, List.nodup_append]
    refine ⟨h, by simp, fun a ha b hb => ?_⟩
    rw [List.mem_singleton] at hb
    exact fun hab => hk (hb ▸ hab ▸ ha)

/-- Pairs with different keys, none of which is there, are appended as they are. -/
theorem putAll_eq_append {es : Entries α} {ps : List (Text × α)}
    (h : (es.keys ++ ps.map Prod.fst).Nodup) : es.putAll ps = es ++ ps := by
  induction ps generalizing es with
  | nil => exact (List.append_nil es).symm
  | cons p ps ih =>
    have hnew : p.1 ∉ es.keys := fun hp =>
      (List.nodup_append.mp h).2.2 p.1 hp p.1 List.mem_cons_self rfl
    have hrest : (keys (es ++ [p]) ++ ps.map Prod.fst).Nodup := by simpa [keys] using h
    have hput : es.put p.1 p.2 = es ++ [p] := put_of_not_mem p.2 hnew
    calc es.putAll (p :: ps) = (es ++ [p]).putAll ps := by rw [← hput]; rfl
      _ = es ++ p :: ps := by rw [ih hrest, List.append_assoc, List.singleton_append]

theorem distinct_putAll {es : Entries α} (ps : List (Text × α)) (h : es.Distinct) :
    (es.putAll ps).Distinct := by
  induction ps generalizing es with
  | nil => exact h
  | cons p ps ih => exact ih (distinct_put p.1 p.2 h)

end Entries

end ConfigTemplate
