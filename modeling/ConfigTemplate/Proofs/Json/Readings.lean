/-
The two readings of a JSON document.

`Tree.ofJsonText` keeps the order of the document.  `SortedJson.read` keeps every object in
the order of its keys, and `Tree.ofSortedJson` converts what it has read.

* `wellKeyed_ofJson`: in a tree that is read no key comes twice;
* `ofSortedJson_build`: what is converted is the tree that is read, sorted;
* `readings_agree`: so both readings refuse the same texts, with the same fault, and else they
  come to trees that are the same but for the order of maps.
-/
import ConfigTemplate.Proofs.Json.Building
import ConfigTemplate.Proofs.Text.Encoding
import ConfigTemplate.Proofs.Tree.Sorted

namespace ConfigTemplate

namespace Entries

variable {α β : Type} (f : α → β)

theorem put_map (es : Entries α) (k : Text) (v : α) :
    put (es.map (Prod.map id f)) k (f v) = (es.put k v).map (Prod.map id f) := by
  induction es with
  | nil => rfl
  | cons e es ih =>
    rw [List.map_cons, put, put, ih, Prod.map_fst, id]
    split <;> rfl

theorem putAll_map (es : Entries α) (ps : List (Text × α)) :
    putAll (es.map (Prod.map id f)) (ps.map (Prod.map id f)) =
      (es.putAll ps).map (Prod.map id f) := by
  induction ps generalizing es with
  | nil => rfl
  | cons p ps ih => exact (congrArg (putAll · _) (put_map f es p.1 p.2)).trans (ih _)

theorem insertSorted_map (es : Entries α) (k : Text) (v : α) :
    insertSorted (es.map (Prod.map id f)) k (f v) = (es.insertSorted k v).map (Prod.map id f) := by
  induction es with
  | nil => rfl
  | cons e es ih =>
    rw [List.map_cons, insertSorted, insertSorted, ih, Prod.map_fst, id]
    split
    · rfl
    · split <;> rfl

theorem insertAll_map (es : Entries α) (ps : List (Text × α)) :
    insertAll (es.map (Prod.map id f)) (ps.map (Prod.map id f)) =
      (es.insertAll ps).map (Prod.map id f) := by
  induction ps generalizing es with
  | nil => rfl
  | cons p ps ih => exact (congrArg (insertAll · _) (insertSorted_map f es p.1 p.2)).trans (ih _)

end Entries

namespace Json.Builder

variable {α : Type} (b : Builder α)

theorem buildItems_eq (js : List Json) : b.buildItems js = js.map b.build := by
  induction js with
  | nil => rfl
  | cons j js ih => rw [buildItems, ih, List.map_cons]

theorem buildMembers_eq (ms : List (Text × Json)) :
    b.buildMembers ms = ms.map (Prod.map id b.build) := by
  induction ms with
  | nil => rfl
  | cons m ms ih => rw [buildMembers, ih, List.map_cons, Prod.map, id]

end Json.Builder

namespace Tree

theorem ofJsonItems_eq (js : List Json) : ofJsonItems js = js.map ofJson := by
  induction js with
  | nil => rfl
  | cons j js ih => rw [ofJsonItems, ih, List.map_cons]

theorem ofJsonMembers_eq (ms : List (Text × Json)) :
    ofJsonMembers ms = ms.map (Prod.map id ofJson) := by
  induction ms with
  | nil => rfl
  | cons m ms ih => rw [ofJsonMembers, ih, List.map_cons, Prod.map, id]

theorem ofSortedItems_eq (ds : List SortedJson) : ofSortedItems ds = ds.map ofSortedJson := by
  induction ds with
  | nil => rfl
  | cons d ds ih => rw [ofSortedItems, ih, List.map_cons]

theorem ofSortedMembers_eq (ms : List (Text × SortedJson)) :
    ofSortedMembers ms = ms.map (Prod.map id ofSortedJson) := by
  induction ms with
  | nil => rfl
  | cons m ms ih => rw [ofSortedMembers, ih, List.map_cons, Prod.map, id]

/-- **In a tree that is read no key comes twice.** -/
theorem wellKeyed_ofJson (j : Json) : (ofJson j).WellKeyed := by
  induction j with
  | array items ih =>
    rw [ofJson, ofJsonItems_eq]
    exact wellKeyedItems_iff.mpr (List.forall_mem_map.mpr ih)
  | object members ih =>
    rw [ofJson, ofJsonMembers_eq]
    refine wellKeyed_map_iff.mpr ⟨Entries.distinct_putAll _ Entries.distinct_nil, fun e he => ?_⟩
    obtain ⟨before, after, hsplit, -⟩ := Entries.last_of_mem_putAll he
    have hmem : e ∈ members.map (Prod.map id ofJson) := by simp [hsplit]
    obtain ⟨m, hm, rfl⟩ := List.mem_map.mp hmem
    exact ih m hm
  | _ => trivial

/-- **What is converted is the tree that is read, sorted.** -/
theorem ofSortedJson_build (j : Json) :
    ofSortedJson (SortedJson.builder.build j) = ofJsonSorted j := by
  induction j with
  | array items ih =>
    show Tree.list (ofSortedItems (SortedJson.builder.buildItems items)) = _
    rw [ofJsonSorted, ofJson, sorted, ofSortedItems_eq, Json.Builder.buildItems_eq, ofJsonItems_eq,
      sortedItems_eq, List.map_map, List.map_map]
    exact congrArg Tree.list (List.map_congr_left ih)
  | object members ih =>
    -- Both sides are what the members, each converted, come to at the places of their keys.
    have hmembers : members.map (Prod.map id (ofSortedJson ∘ SortedJson.builder.build)) =
        members.map (Prod.map id (sorted ∘ ofJson)) :=
      List.map_congr_left fun m hm => Prod.ext rfl (ih m hm)
    have hleft : ofSortedMembers (Entries.insertAll [] (SortedJson.builder.buildMembers members)) =
        Entries.insertAll [] (members.map (Prod.map id (sorted ∘ ofJson))) := by
      rw [ofSortedMembers_eq, Json.Builder.buildMembers_eq, ← Entries.insertAll_map, List.map_map,
        Prod.map_comp_map, ← hmembers]
      rfl
    have hright : sortedEntries (Entries.putAll [] (ofJsonMembers members)) =
        Entries.putAll [] (members.map (Prod.map id (sorted ∘ ofJson))) := by
      rw [sortedEntries_eq, ofJsonMembers_eq, ← Entries.putAll_map, List.map_map,
        Prod.map_comp_map]
      rfl
    have hascending := Entries.ascending_insertAll Entries.ascending_nil
      (members.map (Prod.map id (sorted ∘ ofJson)))
    have hnodup := hascending.distinct
    rw [Entries.Distinct, Entries.keys] at hnodup
    show Tree.map (Entries.putAll [] (ofSortedMembers
      (Entries.insertAll [] (SortedJson.builder.buildMembers members)))) = _
    rw [ofJsonSorted, ofJson, sorted, hright, Entries.sortByKey_putAll_nil, hleft,
      Entries.putAll_eq_append (by simpa using hnodup), List.nil_append]
  | _ => rfl

end Tree

/-- A name that comes twice has its last value in both readings, at its first place in one. -/
example : let j := Json.object [("b".toList, .null), ("a".toList, .null), ("b".toList, .bool true)]
    Tree.ofJson j = .map [("b".toList, .bool true), ("a".toList, .null)] ∧
    Tree.ofSortedJson (SortedJson.builder.build j) =
      .map [("a".toList, .null), ("b".toList, .bool true)] :=
  ⟨by cbv, by cbv⟩

/-- **The two readings of a document agree.**  They refuse the same texts, with the same
fault.  A text that is read gives the same tree in both, but for the order of maps: the one
that is converted has every map in the order of the bytes of its keys.  So there is the same at
every path, both are as truthy, and they have the same environment variables if no two scalars
have one name. -/
theorem readings_agree (source : Text) :
    (∀ fault, SortedJson.read source = .error fault ↔ Tree.ofJsonText source = .error fault) ∧
    ∀ t, Tree.ofJsonText source = .ok t → ∃ d, SortedJson.read source = .ok d ∧
      Tree.ofSortedJson d = t.sorted ∧
      t.sameAs (Tree.ofSortedJson d) = true ∧
      (∀ entries, Tree.Within (.map entries) (Tree.ofSortedJson d) →
        (Entries.keys entries).Pairwise fun j k => Utf8.encode j < Utf8.encode k) ∧
      (∀ path, Tree.SameAt (t.lookup path) ((Tree.ofSortedJson d).lookup path)) ∧
      (Tree.ofSortedJson d).isTruthy = t.isTruthy ∧
      ((t.named.map Prod.fst).Nodup →
        (Tree.ofSortedJson d).environment.Perm t.environment) := by
  have hread : SortedJson.read source = (Json.read source).map SortedJson.builder.build :=
    Json.readWith_eq_map_read SortedJson.builder source
  rw [hread, Tree.ofJsonText]
  cases Json.read source with
  | error f => simp [Except.map]
  | ok j =>
    refine ⟨by simp [Except.map], ?_⟩
    rintro _ ⟨rfl⟩
    have hkeyed := Tree.wellKeyed_ofJson j
    refine ⟨_, rfl, Tree.ofSortedJson_build j, ?_⟩
    rw [Tree.ofSortedJson_build, Tree.ofJsonSorted]
    refine ⟨Tree.sameAs_sorted hkeyed, ?_, Tree.sameAt_lookup_sorted hkeyed,
      Tree.isTruthy_sorted _, Tree.environment_sorted_perm⟩
    intro entries hwithin
    have hascending := Tree.ascending_of_within_sorted hkeyed hwithin
    exact List.Pairwise.imp Utf8.encode_lt_encode_iff.mpr hascending

end ConfigTemplate
