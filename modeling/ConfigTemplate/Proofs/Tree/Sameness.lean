/-
Trees that are the same but for the order of their maps, and layers that come twice.

`Tree.sameAs` compares two maps by what they have at each key, and two lists item by item.

* `sameAs_map_iff`: maps are the same if they have the same at every key;
* `sameAs_refl`, `sameAs_trans`: comparing is reflexive and transitive on trees in which no
  key comes twice;
* `sameAs_merge_repeated`: a layer that is the same as one before it can be left out;
* `sameAs_merge_eraseDups`: so layers that are made from names can be made from each name once,
  where it first comes.

Design notes: a layer that comes twice is laid over what is behind it, then under all that
stands between, and over everything again at its first place.  Key by key, the second copy
counts only if there are nothing but maps before it, and then it is laid into a map that the
first copy goes into as well.
-/
import Mathlib.Data.List.Induction
import Mathlib.Data.List.Perm.Subperm
import Mathlib.Data.List.TakeWhile
import ConfigTemplate.Proofs.Tree.Grouping

namespace ConfigTemplate

/-- The number without the sign of a floating-point zero. -/
def Number.unsignedZero : Number → Number
  | .int n h => .int n h
  | .float x => .float (if x.isZero then .zero false else x)

/-- Whether two numbers are the same.  A floating-point zero is the same with either sign,
and an integer is never the same as a floating-point number. -/
def Number.sameAs (m n : Number) : Bool :=
  m.unsignedZero == n.unsignedZero

namespace Tree

mutual

/-- Whether two trees are the same, in whatever order the entries of maps come. -/
def sameAs : Tree → Tree → Bool
  | .null, .null => true
  | .bool a, .bool b => a == b
  | .number m, .number n => m.sameAs n
  | .string s, .string t => s == t
  | .list ts, .list us => sameItems ts us
  | .map es, .map fs => es.length == fs.length && sameEntries es fs
  | _, _ => false

/-- Whether two lists have as many items, and the same ones in the same order. -/
def sameItems : List Tree → List Tree → Bool
  | [], [] => true
  | t :: ts, u :: us => t.sameAs u && sameItems ts us
  | _, _ => false

/-- Whether all entries are found among others. -/
def sameEntries : List (Text × Tree) → Entries Tree → Bool
  | [], _ => true
  | (k, t) :: es, fs => (fs.get? k).any (fun u => t.sameAs u) && sameEntries es fs

end

theorem sameItems_iff {ts us : List Tree} :
    sameItems ts us = true ↔ List.Forall₂ (fun t u => t.sameAs u = true) ts us := by
  induction ts generalizing us with
  | nil => cases us <;> simp [sameItems]
  | cons t ts ih => cases us <;> simp [sameItems, ih]

theorem sameEntries_iff {es : List (Text × Tree)} {fs : Entries Tree} :
    sameEntries es fs = true ↔ ∀ e ∈ es, ∃ u, fs.get? e.1 = some u ∧ e.2.sameAs u = true := by
  induction es with
  | nil => simp [sameEntries]
  | cons e es ih =>
    obtain ⟨k, t⟩ := e
    rw [sameEntries, Bool.and_eq_true, ih, List.forall_mem_cons, Option.any_eq_true]

/-- Whether there are values in both places that are the same, or none in either. -/
def SameAt (old new : Option Tree) : Prop :=
  Option.Rel (fun t u => t.sameAs u = true) old new

theorem sameAt_none_iff {new : Option Tree} : SameAt none new ↔ new = none := by
  constructor
  · rintro ⟨⟩
    rfl
  · rintro rfl
    exact .none

theorem sameAt_some_iff {t : Tree} {new : Option Tree} :
    SameAt (some t) new ↔ ∃ u, new = some u ∧ t.sameAs u = true := by
  constructor
  · rintro (h | _)
    exact ⟨_, rfl, h⟩
  · rintro ⟨u, rfl, h⟩
    exact .some h

/-- **Maps are the same if they have the same at every key.** -/
theorem sameAs_map_iff {es fs : Entries Tree} (hes : es.Distinct) (hfs : fs.Distinct) :
    (Tree.map es).sameAs (.map fs) = true ↔ ∀ k, SameAt (es.get? k) (fs.get? k) := by
  rw [sameAs, Bool.and_eq_true, beq_iff_eq, sameEntries_iff]
  constructor
  · rintro ⟨hlength, hsame⟩ k
    rcases ht : es.get? k with _ | t
    · -- As there are as many keys, none is left over on the other side.
      have hsub : es.keys ⊆ fs.keys := by
        intro j hj
        obtain ⟨e, he, rfl⟩ := List.mem_map.mp hj
        obtain ⟨u, hu, -⟩ := hsame e he
        exact Entries.mem_keys_iff_exists_get?.mpr ⟨u, hu⟩
      have hperm : es.keys.Perm fs.keys :=
        (hes.subperm hsub).perm_of_length_le (by simp [Entries.keys, hlength])
      rw [sameAt_none_iff, Entries.get?_eq_none_iff, ← hperm.mem_iff]
      exact Entries.get?_eq_none_iff.mp ht
    · exact sameAt_some_iff.mpr (hsame (k, t) (Entries.mem_of_get?_eq_some ht))
  · intro hsame
    have hkeys : ∀ k, k ∈ es.keys ↔ k ∈ fs.keys := by
      intro k
      have hk := hsame k
      rw [Entries.mem_keys_iff_exists_get?, Entries.mem_keys_iff_exists_get?]
      rcases ht : es.get? k with _ | t
      · rw [ht, sameAt_none_iff] at hk
        simp [hk]
      · rw [ht, sameAt_some_iff] at hk
        obtain ⟨u, hu, -⟩ := hk
        simp [hu]
    have hperm : es.keys.Perm fs.keys := (List.perm_ext_iff_of_nodup hes hfs).mpr hkeys
    refine ⟨by simpa [Entries.keys] using hperm.length_eq, fun e he => ?_⟩
    rw [← sameAt_some_iff, ← Entries.get?_of_mem hes he]
    exact hsame e.1

/-- Two maps with their entries in other orders. -/
example : (Tree.map [("a".toList, .null), ("b".toList, .list [])]).sameAs
    (.map [("b".toList, .list []), ("a".toList, .null)]) = true := by
  decide

/-! ### Comparing trees -/

theorem isMap_eq_of_sameAs {t u : Tree} (h : t.sameAs u = true) : t.isMap = u.isMap := by
  cases t <;> cases u <;> simp_all [sameAs, isMap, entries?]

theorem sameAt_refl {old : Option Tree} (h : ∀ t, old = some t → t.sameAs t = true) :
    SameAt old old := by
  cases old with
  | none => exact .none
  | some t => exact .some (h t rfl)

theorem sameAs_refl {t : Tree} (h : t.WellKeyed) : t.sameAs t = true := by
  induction t with
  | list ts ih =>
    have hts := wellKeyedItems_iff.mp h
    rw [sameAs, sameItems_iff, List.forall₂_same]
    exact fun t ht => ih t ht (hts t ht)
  | map es ih =>
    obtain ⟨hdistinct, hes⟩ := wellKeyed_map_iff.mp h
    rw [sameAs_map_iff hdistinct hdistinct]
    intro k
    apply sameAt_refl
    intro t ht
    have hmem := Entries.mem_of_get?_eq_some ht
    exact ih (k, t) hmem (hes (k, t) hmem)
  | _ => simp [sameAs, Number.sameAs]

theorem SameAt.trans {old mid new : Option Tree} (h : SameAt old mid) (h' : SameAt mid new)
    (htrans : ∀ t u v, old = some t → mid = some u → new = some v → t.sameAs u = true →
      u.sameAs v = true → t.sameAs v = true) : SameAt old new := by
  cases h with
  | none => exact h'
  | some htu =>
    cases h' with
    | some huv => exact .some (htrans _ _ _ rfl rfl rfl htu huv)

theorem sameItems_trans {ts us vs : List Tree} (h : sameItems ts us = true)
    (h' : sameItems us vs = true)
    (htrans : ∀ t ∈ ts, ∀ u ∈ us, ∀ v ∈ vs, t.sameAs u = true → u.sameAs v = true →
      t.sameAs v = true) : sameItems ts vs = true := by
  rw [sameItems_iff] at h h' ⊢
  induction h generalizing vs with
  | nil => exact h'
  | cons htu _ ih =>
    cases h' with
    | cons huv h' =>
      refine .cons (htrans _ (by simp) _ (by simp) _ (by simp) htu huv) (ih h' ?_)
      intro t ht u hu v hv
      exact htrans t (.tail _ ht) u (.tail _ hu) v (.tail _ hv)

theorem sameAs_trans {t u v : Tree} (ht : t.WellKeyed) (hu : u.WellKeyed) (hv : v.WellKeyed)
    (htu : t.sameAs u = true) (huv : u.sameAs v = true) : t.sameAs v = true := by
  induction t generalizing u v with
  | null =>
    cases u with
    | null => exact huv
    | _ => simp [sameAs] at htu
  | bool a =>
    cases u with
    | bool b =>
      obtain rfl : a = b := by simpa [sameAs] using htu
      exact huv
    | _ => simp [sameAs] at htu
  | number m =>
    cases u with
    | number n =>
      cases v with
      | number k =>
        simp only [sameAs, Number.sameAs, beq_iff_eq] at htu huv ⊢
        exact htu.trans huv
      | _ => simp [sameAs] at huv
    | _ => simp [sameAs] at htu
  | string s =>
    cases u with
    | string s' =>
      obtain rfl : s = s' := by simpa [sameAs] using htu
      exact huv
    | _ => simp [sameAs] at htu
  | list ts ih =>
    cases u with
    | list us =>
      cases v with
      | list vs =>
        rw [sameAs] at htu huv ⊢
        refine sameItems_trans htu huv fun t hmem u hmem' v hmem'' => ?_
        exact ih t hmem (wellKeyedItems_iff.mp ht t hmem) (wellKeyedItems_iff.mp hu u hmem')
          (wellKeyedItems_iff.mp hv v hmem'')
      | _ => simp [sameAs] at huv
    | _ => simp [sameAs] at htu
  | map es ih =>
    cases u with
    | map fs =>
      cases v with
      | map gs =>
        have hes : Entries.Distinct es := ht.distinct_layer
        have hfs : Entries.Distinct fs := hu.distinct_layer
        have hgs : Entries.Distinct gs := hv.distinct_layer
        rw [sameAs_map_iff hes hfs] at htu
        rw [sameAs_map_iff hfs hgs] at huv
        rw [sameAs_map_iff hes hgs]
        intro k
        refine (htu k).trans (huv k) fun t u v hget hget' hget'' => ?_
        have hmem := Entries.mem_of_get?_eq_some hget
        exact ih (k, t) hmem (ht.of_get?_layer hget) (hu.of_get?_layer hget')
          (hv.of_get?_layer hget'')
      | _ => simp [sameAs] at huv
    | _ => simp [sameAs] at htu

/-! ### Layers that come twice -/

theorem valuesAt_append (xs ys : List Tree) (k : Text) :
    valuesAt (xs ++ ys) k = valuesAt xs k ++ valuesAt ys k :=
  List.filterMap_append

theorem mem_valuesAt {layers : List Tree} {t u : Tree} {k : Text} (ht : t ∈ layers)
    (hu : Entries.get? t.layer k = some u) : u ∈ valuesAt layers k :=
  List.mem_filterMap.mpr ⟨t, ht, hu⟩

/-- A layer that is no map can be left out. -/
theorem merge_append_not_map (earlier : List Tree) {u : Tree} (hu : u.isMap = false)
    (later : List Tree) : merge (earlier ++ u :: later) = merge (earlier ++ later) := by
  rw [← merge_filter_isMap, ← merge_filter_isMap (earlier ++ later), List.filter_append,
    List.filter_cons_of_neg (by simp [hu]), List.filter_append]

/-- What values come to if one of them is the same as one before it: it does not count behind
a value that is no map, and behind nothing but maps it can be left out of their merge. -/
theorem sameAt_winner_repeated {front later : List Tree} {t u : Tree} (ht : t ∈ front)
    (hkind : u.isMap = t.isMap) (hfront : ∀ v ∈ front, v.WellKeyed)
    (hmerge : ∀ rest, rest <+: later →
      (merge (front ++ u :: rest)).sameAs (merge (front ++ rest)) = true) :
    SameAt (winner (front ++ u :: later)) (winner (front ++ later)) := by
  obtain ⟨v, vs, rfl⟩ := List.exists_cons_of_ne_nil (List.ne_nil_of_mem ht)
  obtain ⟨hv, hvs⟩ := List.forall_mem_cons.mp hfront
  rw [List.cons_append, List.cons_append, winner, winner]
  by_cases hmap : v.isMap = true
  · rw [if_pos hmap, if_pos hmap]
    by_cases hall : ∀ w ∈ vs, w.isMap = true
    · have hu : u.isMap = true := by
        rw [hkind]
        rcases List.mem_cons.mp ht with rfl | ht
        · exact hmap
        · exact hall t ht
      rw [List.takeWhile_append_of_pos hall, List.takeWhile_append_of_pos hall,
        List.takeWhile_cons_of_pos hu]
      exact .some (hmerge _ (List.takeWhile_prefix _))
    · -- The maps before the first value that is none are the same in both.
      have hlength : (vs.takeWhile isMap).length ≠ vs.length := fun h =>
        hall (List.takeWhile_eq_self_iff.mp ((List.takeWhile_prefix isMap).eq_of_length h))
      rw [List.takeWhile_append, if_neg hlength, List.takeWhile_append, if_neg hlength]
      refine .some (sameAs_refl (wellKeyed_merge fun w hw => ?_))
      exact hfront w (List.cons_subset_cons v (List.takeWhile_prefix _).subset hw)
  · rw [if_neg hmap, if_neg hmap]
    exact .some (sameAs_refl hv)

/-- Trees that are the same have the same entries. -/
theorem sameAt_get?_layer {t u : Tree} (ht : t.WellKeyed) (hu : u.WellKeyed)
    (h : t.sameAs u = true) (k : Text) :
    SameAt (Entries.get? t.layer k) (Entries.get? u.layer k) := by
  have hkind := isMap_eq_of_sameAs h
  rcases hmap : t.isMap with _ | _
  · rw [layer_of_not_map hmap, layer_of_not_map (hkind.symm.trans hmap)]
    exact .none
  · obtain ⟨es, rfl⟩ := exists_entries_of_isMap hmap
    obtain ⟨fs, rfl⟩ := exists_entries_of_isMap (hkind.symm.trans hmap)
    exact (sameAs_map_iff (wellKeyed_map_iff.mp ht).1 (wellKeyed_map_iff.mp hu).1).mp h k

theorem append_subset_append_cons (earlier : List Tree) (u : Tree) (later : List Tree) :
    earlier ++ later ⊆ earlier ++ u :: later :=
  ((List.sublist_cons_self u later).append_left earlier).subset

/-- **A layer that is the same as one before it can be left out.** -/
theorem sameAs_merge_repeated {earlier later : List Tree} {t u : Tree} (ht : t ∈ earlier)
    (htu : t.sameAs u = true) (hkeyed : ∀ s ∈ earlier ++ u :: later, s.WellKeyed) :
    (merge (earlier ++ u :: later)).sameAs (merge (earlier ++ later)) = true := by
  induction t generalizing earlier u later with
  | map es ih =>
    have hrest := fun s hs => hkeyed s (append_subset_append_cons earlier u later hs)
    rw [merge_eq_map (earlier ++ u :: later), merge_eq_map (earlier ++ later),
      sameAs_map_iff (distinct_merge _) (distinct_merge _)]
    intro k
    have hsame := sameAt_get?_layer (hrest _ (List.mem_append_left _ ht)) (hkeyed u (by simp)) htu k
    rw [get?_merge hkeyed, get?_merge hrest, valuesAt_append, valuesAt_append]
    rcases hv : Entries.get? (Tree.map es).layer k with _ | v
    · rw [hv, sameAt_none_iff] at hsame
      rw [valuesAt_cons_none hsame, ← valuesAt_append, ← get?_merge hrest]
      exact sameAt_refl fun w hw => sameAs_refl ((wellKeyed_merge hrest).of_get?_layer hw)
    · rw [hv, sameAt_some_iff] at hsame
      obtain ⟨w, hw, hvw⟩ := hsame
      rw [valuesAt_cons_some hw]
      -- The values at the key are layers again, one of which comes twice.
      have hvalues : ∀ x ∈ valuesAt earlier k ++ w :: valuesAt later k, x.WellKeyed := by
        intro x hx
        rw [← valuesAt_cons_some hw, ← valuesAt_append] at hx
        exact wellKeyed_of_mem_valuesAt hkeyed hx
      have hmem := Entries.mem_of_get?_eq_some hv
      apply sameAt_winner_repeated (mem_valuesAt ht hv) (isMap_eq_of_sameAs hvw).symm
      · exact fun x hx => hvalues x (List.mem_append_left _ hx)
      · intro rest hprefix
        have hcons : w :: rest <+: w :: valuesAt later k := List.cons_prefix_cons.mpr ⟨rfl, hprefix⟩
        apply ih (k, v) hmem (mem_valuesAt ht hv) hvw
        exact fun x hx => hvalues x (((List.prefix_append_right_inj _).mpr hcons).subset hx)
  | _ =>
    -- What is no map contributes nothing.
    have hu : u.isMap = false := (isMap_eq_of_sameAs htu).symm
    rw [merge_append_not_map earlier hu]
    apply sameAs_refl (wellKeyed_merge _)
    exact fun s hs => hkeyed s (append_subset_append_cons earlier u later hs)

/-- **Layers made from names** can be made from each name once, where it first comes. -/
theorem sameAs_merge_eraseDups {names : List Text} {f : Text → Tree} {earlier later : List Tree}
    (hkeyed : ∀ t ∈ earlier ++ names.map f ++ later, t.WellKeyed) :
    (merge (earlier ++ names.map f ++ later)).sameAs
      (merge (earlier ++ names.eraseDups.map f ++ later)) = true := by
  induction names using List.reverseRecOn generalizing later with
  | nil => exact sameAs_refl (wellKeyed_merge hkeyed)
  | append_singleton names n ih =>
    have hsplit : earlier ++ (names ++ [n]).map f ++ later =
        earlier ++ names.map f ++ f n :: later := by simp
    rw [hsplit] at hkeyed ⊢
    rw [List.eraseDups_append]
    by_cases hn : n ∈ names
    · have hdups : names.eraseDups ++ ([n].removeAll names).eraseDups = names.eraseDups := by
        simp [List.removeAll, hn]
      have hmem : f n ∈ earlier ++ names.map f :=
        List.mem_append_right _ (List.mem_map_of_mem hn)
      have hrest : ∀ t ∈ earlier ++ names.map f ++ later, t.WellKeyed := fun t ht =>
        hkeyed t (append_subset_append_cons _ (f n) later ht)
      have honce : ∀ t ∈ earlier ++ names.eraseDups.map f ++ later, t.WellKeyed := by
        intro t ht
        apply hrest t
        simpa using ht
      rw [hdups]
      exact sameAs_trans (wellKeyed_merge hkeyed) (wellKeyed_merge hrest) (wellKeyed_merge honce)
        (sameAs_merge_repeated hmem (sameAs_refl (hkeyed (f n) (by simp))) hkeyed) (ih hrest)
    · have hdups : names.eraseDups ++ ([n].removeAll names).eraseDups = names.eraseDups ++ [n] := by
        simp [List.removeAll, hn, List.eraseDups_cons]
      rw [hdups]
      simpa using ih hkeyed

end Tree

end ConfigTemplate
