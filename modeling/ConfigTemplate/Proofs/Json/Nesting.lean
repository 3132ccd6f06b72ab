/-
How deep the containers of a tree nest.

* `Tree.nesting`: how many lists and maps stand in one another, at most;
* `Tree.builder`, `Tree.ofJsonText_eq_readWith`: a tree can be built while its document is read;
* `Tree.nesting_le_of_ofJsonText`: what is read nests no deeper than the reader goes.
-/
import ConfigTemplate.Proofs.Json.Readings

namespace ConfigTemplate

namespace Tree

mutual

/-- How many lists and maps stand in one another in a tree, at most. -/
def nesting : Tree → Nat
  | .list items => nestingItems items + 1
  | .map entries => nestingEntries entries + 1
  | _ => 0

/-- The deepest nesting of the items of a list. -/
def nestingItems : List Tree → Nat
  | [] => 0
  | t :: ts => max t.nesting (nestingItems ts)

/-- The deepest nesting of the entries of a map. -/
def nestingEntries : List (Text × Tree) → Nat
  | [] => 0
  | (_, t) :: es => max t.nesting (nestingEntries es)

end

theorem nestingItems_le_iff {ts : List Tree} {d : Nat} :
    nestingItems ts ≤ d ↔ ∀ t ∈ ts, t.nesting ≤ d := by
  induction ts with
  | nil => simp [nestingItems]
  | cons t ts ih => rw [nestingItems, Nat.max_le, ih, List.forall_mem_cons]

theorem nestingEntries_le_iff {es : List (Text × Tree)} {d : Nat} :
    nestingEntries es ≤ d ↔ ∀ e ∈ es, e.2.nesting ≤ d := by
  induction es with
  | nil => simp [nestingEntries]
  | cons e es ih => rw [nestingEntries, Nat.max_le, ih, List.forall_mem_cons]

theorem nesting_list_le_iff {items : List Tree} {d : Nat} :
    (Tree.list items).nesting ≤ d + 1 ↔ ∀ t ∈ items, t.nesting ≤ d := by
  rw [nesting, Nat.add_le_add_iff_right, nestingItems_le_iff]

theorem nesting_map_le_iff {entries : List (Text × Tree)} {d : Nat} :
    (Tree.map entries).nesting ≤ d + 1 ↔ ∀ e ∈ entries, e.2.nesting ≤ d := by
  rw [nesting, Nat.add_le_add_iff_right, nestingEntries_le_iff]

/-! ### Building a tree while it is read -/

/-- The builder of the tree that a document stands for, in the order of the document. -/
def builder : Json.Builder Tree :=
  ⟨.null, .bool, .number, .string, .list, fun members => .map (Entries.putAll [] members)⟩

theorem build_builder (j : Json) : builder.build j = ofJson j := by
  induction j with
  | array items ih =>
    show Tree.list (builder.buildItems items) = _
    rw [ofJson, ofJsonItems_eq, Json.Builder.buildItems_eq, List.map_congr_left ih]
  | object members ih =>
    have hmembers : members.map (Prod.map id builder.build) = members.map (Prod.map id ofJson) :=
      List.map_congr_left fun m hm => Prod.ext rfl (ih m hm)
    show Tree.map (Entries.putAll [] (builder.buildMembers members)) = _
    rw [ofJson, ofJsonMembers_eq, Json.Builder.buildMembers_eq, hmembers]
  | _ => rfl

/-- **A document is read as the tree that is built while reading it.** -/
theorem ofJsonText_eq_readWith (s : Text) : ofJsonText s = Json.readWith builder s := by
  rw [ofJsonText, Json.readWith_eq_map_read, funext build_builder]

end Tree

namespace Json

theorem eq_of_readWord {α : Type} {a b : α} {word s rest : Text}
    (h : readWord a word s = .ok (b, rest)) : b = a := by
  induction word generalizing s with
  | nil =>
    cases h
    rfl
  | cons w ws ih =>
    cases s with
    | nil => simp [readWord, refuse] at h
    | cons c s =>
      rw [readWord] at h
      split at h
      · exact ih h
      · simp [refuse] at h

/-- What is built nests no deeper than the reader may go: for all three readers at once. -/
theorem nesting_le_of_from (fuel : Nat) :
    (∀ depth s t rest, valueFrom Tree.builder fuel depth s = .ok (t, rest) → t.nesting ≤ depth) ∧
    (∀ depth first s ts rest, itemsFrom Tree.builder fuel depth first s = .ok (ts, rest) →
      ∀ t ∈ ts, t.nesting ≤ depth) ∧
    ∀ depth first s ms rest, membersFrom Tree.builder fuel depth first s = .ok (ms, rest) →
      ∀ m ∈ ms, m.2.nesting ≤ depth := by
  induction fuel with
  | zero =>
    refine ⟨?_, ?_, ?_⟩ <;> intros <;> simp_all [valueFrom, itemsFrom, membersFrom, refuse]
  | succ fuel ih =>
    obtain ⟨ihvalue, ihitems, ihmembers⟩ := ih
    refine ⟨fun depth s t rest h => ?_, fun depth first s ts rest h => ?_,
      fun depth first s ms rest h => ?_⟩
    · rw [valueFrom] at h
      split at h
      · simp [refuse] at h
      next c s _ =>
      -- Scalars come first, by their first characters.
      split at h
      · rw [eq_of_readWord h]
        exact Nat.zero_le _
      split at h
      · rw [eq_of_readWord h]
        exact Nat.zero_le _
      split at h
      · rw [eq_of_readWord h]
        exact Nat.zero_le _
      split at h
      · obtain ⟨_, -, h⟩ := Fault.bind_eq_ok_iff.mp h
        cases h
        exact Nat.zero_le _
      split at h
      · obtain ⟨_, -, h⟩ := Fault.bind_eq_ok_iff.mp h
        cases h
        exact Nat.zero_le _
      split at h
      · obtain ⟨_, -, h⟩ := Fault.bind_eq_ok_iff.mp h
        cases h
        exact Nat.zero_le _
      split at h
      · cases depth with
        | zero => simp [refuse] at h
        | succ depth =>
          obtain ⟨⟨items, u⟩, hitems, h⟩ := Fault.bind_eq_ok_iff.mp h
          cases h
          exact Tree.nesting_list_le_iff.mpr (ihitems _ _ _ _ _ hitems)
      split at h
      · cases depth with
        | zero => simp [refuse] at h
        | succ depth =>
          obtain ⟨⟨members, u⟩, hmembers, h⟩ := Fault.bind_eq_ok_iff.mp h
          cases h
          refine Tree.nesting_map_le_iff.mpr fun e he => ?_
          obtain ⟨before, after, hsplit, -⟩ := Entries.last_of_mem_putAll he
          exact ihmembers _ _ _ _ _ hmembers e (by simp [hsplit])
      · simp [refuse] at h
    · rw [itemsFrom] at h
      obtain ⟨next, -, h⟩ := Fault.bind_eq_ok_iff.mp h
      cases next with
      | inr u =>
        cases h
        simp
      | inl u =>
        obtain ⟨⟨t, v⟩, hvalue, h⟩ := Fault.bind_eq_ok_iff.mp h
        obtain ⟨⟨items, w⟩, hitems, h⟩ := Fault.bind_eq_ok_iff.mp h
        cases h
        exact List.forall_mem_cons.mpr ⟨ihvalue _ _ _ _ hvalue, ihitems _ _ _ _ _ hitems⟩
    · rw [membersFrom] at h
      obtain ⟨next, -, h⟩ := Fault.bind_eq_ok_iff.mp h
      cases next with
      | inr u =>
        cases h
        simp
      | inl u =>
        obtain ⟨⟨name, v⟩, -, h⟩ := Fault.bind_eq_ok_iff.mp h
        obtain ⟨w, -, h⟩ := Fault.bind_eq_ok_iff.mp h
        obtain ⟨⟨t, x⟩, hvalue, h⟩ := Fault.bind_eq_ok_iff.mp h
        obtain ⟨⟨members, y⟩, hmembers, h⟩ := Fault.bind_eq_ok_iff.mp h
        cases h
        exact List.forall_mem_cons.mpr ⟨ihvalue _ _ _ _ hvalue, ihmembers _ _ _ _ _ hmembers⟩

end Json

/-- **What is read nests no deeper than the reader goes.** -/
theorem Tree.nesting_le_of_ofJsonText {s : Text} {t : Tree} (h : ofJsonText s = .ok t) :
    t.nesting ≤ Json.maxDepth := by
  rw [ofJsonText_eq_readWith] at h
  obtain ⟨⟨u, rest⟩, hvalue, h⟩ := Json.Fault.bind_eq_ok_iff.mp h
  obtain ⟨_, -, h⟩ := Json.Fault.bind_eq_ok_iff.mp h
  cases h
  exact (Json.nesting_le_of_from _).1 _ _ _ _ hvalue

/-- In a tree that is read no key comes twice. -/
theorem Tree.wellKeyed_of_ofJsonText {s : Text} {t : Tree} (h : ofJsonText s = .ok t) :
    t.WellKeyed := by
  rw [ofJsonText] at h
  cases hread : Json.read s with
  | error f => simp [hread, Except.map] at h
  | ok j =>
    rw [hread] at h
    cases h
    exact wellKeyed_ofJson j

end ConfigTemplate
