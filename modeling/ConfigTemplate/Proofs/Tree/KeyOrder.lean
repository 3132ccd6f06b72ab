/-
Entries in the order of their keys.

`Entries.Ascending` says that each key comes before the next, so that no key comes twice.

* `Ascending.ext`: such entries are settled by what they have at each key;
* `ascending_insertAll`, `get?_insertAll_nil`: pairs that each go to the place of their key are
  ascending, and at each key they have what they would have in the order in which they came;
* `sortByKey_putAll_nil`: so they are the entries of that order, sorted.
-/
import Mathlib.Data.List.Sort
import ConfigTemplate.Json.Sorted
import ConfigTemplate.Proofs.Tree.Overlay

namespace ConfigTemplate

/-! ### The order of texts -/

namespace Text

theorem le_iff_not_lt {s t : Text} : Text.le s t = true ↔ ¬ t < s := by
  rw [← le_eq_false_iff, Bool.not_eq_false]

theorem le_trans {s t u : Text} (hst : Text.le s t = true) (htu : Text.le t u = true) :
    Text.le s u = true := by
  rw [le_iff_not_lt] at hst htu ⊢
  exact List.le_trans hst htu

theorem le_total (s t : Text) : (Text.le s t || Text.le t s) = true := by
  rw [Bool.or_eq_true, le_iff_not_lt, le_iff_not_lt]
  exact List.le_total s t

end Text

namespace Entries

variable {α : Type}

/-- Whether each key comes before the next. -/
def Ascending (es : Entries α) : Prop :=
  es.keys.Pairwise (· < ·)

theorem ascending_nil : Ascending ([] : Entries α) :=
  List.Pairwise.nil

theorem Ascending.distinct {es : Entries α} (h : es.Ascending) : es.Distinct := by
  refine List.Pairwise.imp (fun {j k} (hlt : j < k) (heq : j = k) => ?_) h
  subst heq
  exact List.lt_irrefl j hlt

/-- **Ascending entries are settled by what they have at each key.** -/
theorem Ascending.ext {es fs : Entries α} (hes : es.Ascending) (hfs : fs.Ascending)
    (h : ∀ k, es.get? k = fs.get? k) : es = fs := by
  refine ext_get? hes.distinct ?_ h
  have hmem : ∀ k, k ∈ es.keys ↔ k ∈ fs.keys := fun k => by
    rw [mem_keys_iff_exists_get?, mem_keys_iff_exists_get?, h]
  have hperm : es.keys.Perm fs.keys :=
    (List.perm_ext_iff_of_nodup hes.distinct hfs.distinct).mpr hmem
  exact hperm.eq_of_pairwise (fun _ _ _ _ hjk hkj => absurd hkj (List.lt_asymm hjk)) hes hfs

/-! ### Going to the place of the key -/

theorem mem_keys_insertSorted {es : Entries α} {j k : Text} {v : α} :
    j ∈ (es.insertSorted k v).keys ↔ j = k ∨ j ∈ es.keys := by
  induction es with
  | nil => simp [insertSorted]
  | cons e es ih =>
    unfold insertSorted
    split
    · next hk => simp [hk]
    · split
      · simp [ih, or_left_comm]
      · simp

theorem ascending_insertSorted {es : Entries α} (h : es.Ascending) (k : Text) (v : α) :
    (es.insertSorted k v).Ascending := by
  induction es with
  | nil => simp [insertSorted, Ascending]
  | cons e es ih =>
    obtain ⟨hfirst, hrest⟩ := List.pairwise_cons.mp h
    unfold insertSorted
    split
    · exact h
    · next hk =>
      split
      · next hle =>
        refine List.pairwise_cons.mpr ⟨fun j hj => ?_, ih hrest⟩
        rcases mem_keys_insertSorted.mp hj with rfl | hj
        · exact Text.lt_of_le hle hk
        · exact hfirst j hj
      · next hle =>
        -- The new key comes before the first, and so before all of them.
        have hlt : k < e.1 := Text.le_eq_false_iff.mp (Bool.not_eq_true _ ▸ hle)
        refine List.pairwise_cons.mpr ⟨fun j hj => ?_, h⟩
        rcases List.mem_cons.mp hj with rfl | hj
        · exact hlt
        · exact List.lt_trans hlt (hfirst j hj)

theorem get?_insertSorted (es : Entries α) (j k : Text) (v : α) :
    (es.insertSorted k v).get? j = if k = j then some v else es.get? j := by
  induction es with
  | nil => rfl
  | cons e es ih =>
    obtain ⟨i, w⟩ := e
    unfold insertSorted
    split
    · next hik =>
      rw [get?_cons, get?_cons, hik]
      split <;> rfl
    · next hik =>
      split
      · rw [get?_cons, get?_cons, ih]
        by_cases hij : i = j
        · rw [if_pos hij, if_pos hij, if_neg fun hkj => hik (hij.trans hkj.symm)]
        · rw [if_neg hij, if_neg hij]
      · rw [get?_cons]

theorem ascending_insertAll {es : Entries α} (h : es.Ascending) (ps : List (Text × α)) :
    (es.insertAll ps).Ascending := by
  induction ps generalizing es with
  | nil => exact h
  | cons p ps ih => exact ih (ascending_insertSorted h p.1 p.2)

/-- At each key there is what would be there in another order of the entries. -/
theorem get?_insertAll {es fs : Entries α} (h : ∀ j, es.get? j = fs.get? j)
    (ps : List (Text × α)) (k : Text) : (es.insertAll ps).get? k = (fs.putAll ps).get? k := by
  induction ps generalizing es fs with
  | nil => exact h k
  | cons p ps ih =>
    exact ih fun j => by rw [get?_insertSorted, get?_put, h]

/-! ### Other values at the same keys -/

section

variable {β : Type}

theorem keys_map (f : α → β) (es : Entries α) : keys (es.map (Prod.map id f)) = es.keys := by
  simp [keys]

theorem distinct_map {f : α → β} {es : Entries α} :
    Distinct (es.map (Prod.map id f)) ↔ es.Distinct := by
  rw [Distinct, keys_map, Distinct]

theorem get?_map (f : α → β) (es : Entries α) (k : Text) :
    get? (es.map (Prod.map id f)) k = (es.get? k).map f := by
  induction es with
  | nil => rfl
  | cons e es ih =>
    obtain ⟨j, v⟩ := e
    rw [List.map_cons, Prod.map_apply, get?_cons, get?_cons, ih, id]
    split <;> rfl

end

/-! ### Sorting -/

theorem sortByKey_perm (es : Entries α) : es.sortByKey.Perm es :=
  List.mergeSort_perm _ _

theorem distinct_perm {es fs : Entries α} (h : es.Perm fs) : es.Distinct ↔ fs.Distinct :=
  (h.map Prod.fst).nodup_iff

/-- Entries in another order have the same at each key. -/
theorem get?_perm {es fs : Entries α} (h : es.Perm fs) (hes : es.Distinct) (k : Text) :
    es.get? k = fs.get? k := by
  have hfs : fs.Distinct := (distinct_perm h).mp hes
  refine Option.ext fun v => ⟨fun hv => ?_, fun hv => ?_⟩
  · exact get?_of_mem hfs (h.mem_iff.mp (mem_of_get?_eq_some hv))
  · exact get?_of_mem hes (h.mem_iff.mpr (mem_of_get?_eq_some hv))

theorem ascending_sortByKey {es : Entries α} (h : es.Distinct) : es.sortByKey.Ascending := by
  have hle : es.sortByKey.Pairwise fun e f => Text.le e.1 f.1 = true :=
    List.pairwise_mergeSort
      (fun (e f g : Text × α) (hef : Text.le e.1 f.1 = true) hfg => Text.le_trans hef hfg)
      (fun e f => Text.le_total e.1 f.1) es
  have hne : es.sortByKey.Pairwise fun e f => e.1 ≠ f.1 :=
    List.pairwise_map.mp ((distinct_perm (sortByKey_perm es)).mpr h)
  exact List.pairwise_map.mpr ((hle.and hne).imp fun hef => Text.lt_of_le hef.1 hef.2)

/-- **Pairs that go to the place of their key are sorted.** -/
theorem sortByKey_putAll_nil (ps : List (Text × α)) :
    (putAll [] ps).sortByKey = insertAll [] ps := by
  have hdistinct := distinct_putAll ps distinct_nil
  have hsorted := ascending_sortByKey hdistinct
  refine hsorted.ext (ascending_insertAll ascending_nil ps) fun k => ?_
  rw [get?_insertAll (fun _ => rfl), get?_perm (sortByKey_perm _) hsorted.distinct]

end Entries

end ConfigTemplate
