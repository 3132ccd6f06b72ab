/-
Sets of keys and the records that they were made from.

`KeySet.collect` is the set of a list of records, the first record of each key.

* `KeySet.get?_collect`: what it holds at a key is the first record of that key;
* `KeySet.collect_append`: the records of one list after those of another are the sets of both,
  one extended by the other;
* `KeySet.records_extend`: extending a set puts the records with other keys behind its own;
* `KeySet.extend_assoc`, `KeySet.extend_of_subset`: so it is associative, and what a set has
  already makes no difference to it.
-/
import ConfigTemplate.Inventory.KeySet

namespace ConfigTemplate

namespace KeySet

/-- The set of the first record of each key. -/
def collect (rs : List Record) : KeySet :=
  rs.foldl insert empty

section

variable {s t u : KeySet} {r : Record} {rs : List Record} {key : Text}

theorem mem_keys_insert : key ∈ (s.insert r).keys ↔ key ∈ s.keys ∨ key = r.key := by
  by_cases h : r.key ∈ s.keys
  · rw [insert_of_mem h]
    constructor
    · exact .inl
    · rintro (hk | rfl)
      · exact hk
      · exact h
  · simp [keys, records_insert_of_not_mem h]

theorem mem_keys_foldl_insert :
    key ∈ (rs.foldl insert s).keys ↔ key ∈ s.keys ∨ ∃ r ∈ rs, r.key = key := by
  induction rs generalizing s with
  | nil => simp
  | cons r rs ih => simp [ih, mem_keys_insert, or_assoc, eq_comm]

theorem mem_keys_extend : key ∈ (s.extend t).keys ↔ key ∈ s.keys ∨ key ∈ t.keys := by
  rw [extend, mem_keys_foldl_insert]
  simp [keys]

/-! ### What a set holds at a key -/

/-- **Every record is held at its own key**, and nothing else is. -/
theorem get?_eq_some_iff : s.get? key = some r ↔ r ∈ s.records ∧ r.key = key := by
  constructor
  · intro h
    exact ⟨List.mem_of_find?_eq_some h, by simpa using List.find?_some h⟩
  · rintro ⟨hr, rfl⟩
    -- No other record has the key, so the first one with it is this one.
    obtain ⟨before, after, hrecords⟩ := List.append_of_mem hr
    have hdistinct := s.distinct
    rw [hrecords, List.map_append, List.map_cons, List.nodup_append] at hdistinct
    have hbefore : ∀ x ∈ before, ¬ x.key = r.key := fun x hx =>
      hdistinct.2.2 x.key (List.mem_map_of_mem hx) r.key List.mem_cons_self
    rw [get?, hrecords, List.find?_append, List.find?_eq_none.mpr (by simpa using hbefore)]
    simp

theorem mem_keys_iff : key ∈ s.keys ↔ ∃ r, s.get? key = some r := by
  simp [keys, get?_eq_some_iff]

theorem get?_insert :
    (s.insert r).get? key = (s.get? key).or (if r.key = key then some r else none) := by
  by_cases h : r.key ∈ s.keys
  · rw [insert_of_mem h]
    split
    · next hk =>
      obtain ⟨x, hx⟩ := mem_keys_iff.mp (hk ▸ h)
      rw [hx, Option.some_or]
    · rw [Option.or_none]
  · simp only [get?, records_insert_of_not_mem h, List.find?_append, List.find?_cons,
      List.find?_nil]
    by_cases hk : r.key = key <;> simp [hk]

theorem get?_foldl_insert :
    (rs.foldl insert s).get? key = (s.get? key).or (rs.find? (·.key = key)) := by
  induction rs generalizing s with
  | nil => simp
  | cons r rs ih =>
    rw [List.foldl_cons, ih, get?_insert, Option.or_assoc, List.find?_cons]
    by_cases hk : r.key = key <;> simp [hk]

/-- **A collected set holds the first record of each key.** -/
theorem get?_collect (rs : List Record) (key : Text) :
    (collect rs).get? key = rs.find? (·.key = key) := by
  rw [collect, get?_foldl_insert]
  rfl

/-! ### Extending -/

theorem records_foldl_insert (hrs : (rs.map Record.key).Nodup) :
    (rs.foldl insert s).records = s.records ++ rs.filter (·.key ∉ s.keys) := by
  induction rs generalizing s with
  | nil => simp
  | cons r rs ih =>
    rw [List.map_cons, List.nodup_cons] at hrs
    rw [List.foldl_cons, ih hrs.2]
    by_cases h : r.key ∈ s.keys
    · rw [insert_of_mem h, List.filter_cons_of_neg (by simpa using h)]
    · -- No other record has the key of this one.
      have hrest : rs.filter (·.key ∉ (s.insert r).keys) = rs.filter (·.key ∉ s.keys) := by
        refine List.filter_congr fun x hx => ?_
        have hne : x.key ≠ r.key := fun hk => hrs.1 (hk ▸ List.mem_map_of_mem hx)
        simp [mem_keys_insert, hne]
      rw [hrest, records_insert_of_not_mem h, List.filter_cons_of_pos (by simpa using h),
        List.append_assoc, List.singleton_append]

/-- **Extending a set** puts the records with other keys behind its own. -/
theorem records_extend (s t : KeySet) :
    (s.extend t).records = s.records ++ t.records.filter (·.key ∉ s.keys) :=
  records_foldl_insert t.distinct

theorem extend_empty (s : KeySet) : s.extend empty = s := rfl

theorem empty_extend (s : KeySet) : empty.extend s = s := by
  refine ext ?_
  rw [records_extend]
  simp [keys]

/-- What a set has already makes no difference to it. -/
theorem extend_of_subset (h : t.keys ⊆ s.keys) : s.extend t = s := by
  refine ext ?_
  have hnone : t.records.filter (·.key ∉ s.keys) = [] :=
    List.filter_eq_nil_iff.mpr fun r hr => by simpa using h (List.mem_map_of_mem hr)
  rw [records_extend, hnone, List.append_nil]

theorem extend_self (s : KeySet) : s.extend s = s :=
  extend_of_subset fun _ hk => hk

theorem extend_extend_self (s t : KeySet) : (s.extend t).extend s = s.extend t :=
  extend_of_subset fun _ hk => mem_keys_extend.mpr (.inl hk)

theorem extend_insert : s.extend (t.insert r) = (s.extend t).insert r := by
  by_cases h : r.key ∈ t.keys
  · have hmem : r.key ∈ (s.extend t).keys := mem_keys_extend.mpr (.inr h)
    rw [insert_of_mem h, insert_of_mem hmem]
  · rw [extend, extend, records_insert_of_not_mem h, List.foldl_append]
    rfl

/-- Inserting records before extending is inserting them behind. -/
theorem extend_foldl_insert : s.extend (rs.foldl insert t) = rs.foldl insert (s.extend t) := by
  induction rs generalizing t with
  | nil => rfl
  | cons r rs ih => rw [List.foldl_cons, List.foldl_cons, ih, extend_insert]

theorem extend_assoc (s t u : KeySet) : (s.extend t).extend u = s.extend (t.extend u) :=
  extend_foldl_insert.symm

/-- **Records in a row** are the sets of the first and of the others, one extended by the
other. -/
theorem collect_append (rs rs' : List Record) :
    collect (rs ++ rs') = (collect rs).extend (collect rs') := by
  rw [collect, collect, collect, extend_foldl_insert, extend_empty, List.foldl_append]

end

end KeySet

end ConfigTemplate
