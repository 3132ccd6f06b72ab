/-
The scalars of a tree.

`Tree.children` lists what stands directly in a list or a map, each tree with the
segment that leads to it.  `Leaf t path v` says that the scalar `v` stands in `t`, under
the segments `path`.

* `mem_leaves_iff`: `Tree.leaves` lists the scalars, each with its path;
* `nodup_leaves`: no path comes twice;
* `Leaf.lookup_eq`: and a scalar is found where its path leads.

Design notes: positions in lists are read back as numbers of 64 bits, so that a list
with more positions than that has items that no path leads to.  `Addressable` rules such
lists out.
-/
import Mathlib.Data.List.Nodup
import ConfigTemplate.Tree.Environment
import ConfigTemplate.Tree.Lookup

namespace ConfigTemplate

namespace Tree

/-- Whether a tree is neither a list nor a map. -/
def isScalar : Tree → Bool
  | .list _ | .map _ => false
  | _ => true

/-- What stands directly in a tree, with the segments that lead there. -/
def children : Tree → List (Text × Tree)
  | .list items => items.zipIdx.map fun p => (Decimal.natText p.2, p.1)
  | .map entries => entries
  | _ => []

/-- Whether a tree is another one or stands in it, at whatever depth. -/
inductive Within : Tree → Tree → Prop
  | self {t : Tree} : Within t t
  | child {t u v : Tree} {k : Text} (hk : (k, u) ∈ t.children) (h : Within v u) : Within v t

/-- `Leaf t path v`: the scalar `v` stands in `t`, under the segments `path`. -/
inductive Leaf : Tree → List Text → Tree → Prop
  | scalar {t : Tree} (h : t.isScalar = true) : Leaf t [] t
  | child {t u v : Tree} {k : Text} {path : List Text} (hk : (k, u) ∈ t.children)
      (h : Leaf u path v) : Leaf t (k :: path) v

/-- Whether every position of every list is a number of at most 64 bits, as in any list
that fits into memory. -/
def Addressable (t : Tree) : Prop :=
  ∀ items, Within (.list items) t → items.length ≤ Nat.pow 2 64

theorem mem_children_list_iff {items : List Tree} {u : Tree} {k : Text} :
    (k, u) ∈ children (.list items) ↔ ∃ i, k = Decimal.natText i ∧ items[i]? = some u := by
  rw [children, List.mem_map]
  constructor
  · rintro ⟨⟨w, i⟩, hi, heq⟩
    obtain ⟨rfl, rfl⟩ := Prod.mk.inj heq
    exact ⟨i, rfl, List.mk_mem_zipIdx_iff_getElem?.mp hi⟩
  · rintro ⟨i, rfl, hi⟩
    exact ⟨(u, i), List.mk_mem_zipIdx_iff_getElem?.mpr hi, rfl⟩

/-- Induction over trees by what stands directly in them. -/
theorem inductChildren {motive : Tree → Prop}
    (h : ∀ t, (∀ e ∈ t.children, motive e.2) → motive t) (t : Tree) : motive t := by
  induction t with
  | null => exact h _ (by simp [children])
  | bool b => exact h _ (by simp [children])
  | number n => exact h _ (by simp [children])
  | string s => exact h _ (by simp [children])
  | list items ih =>
    refine h _ fun e he => ?_
    obtain ⟨i, -, hi⟩ := mem_children_list_iff.mp he
    exact ih e.2 (List.mem_of_getElem? hi)
  | map entries ih => exact h _ ih

theorem children_of_isScalar {t : Tree} (h : t.isScalar = true) : t.children = [] := by
  cases t <;> simp_all [isScalar, children]

theorem isScalar_eq_false_of_mem {t : Tree} {e : Text × Tree} (h : e ∈ t.children) :
    t.isScalar = false := by
  rcases hs : t.isScalar with _ | _
  · rfl
  · simp [children_of_isScalar hs] at h

theorem within_iff {t v : Tree} :
    Within v t ↔ v = t ∨ ∃ e ∈ t.children, Within v e.2 := by
  constructor
  · intro h
    cases h with
    | self => exact .inl rfl
    | child hk h => exact .inr ⟨_, hk, h⟩
  · rintro (rfl | ⟨e, he, h⟩)
    · exact .self
    · exact .child he h

theorem addressable_iff {t : Tree} :
    t.Addressable ↔ (∀ items, t = .list items → items.length ≤ Nat.pow 2 64) ∧
      ∀ e ∈ t.children, e.2.Addressable := by
  constructor
  · intro h
    exact ⟨fun items ht => h items (ht ▸ .self), fun e he items hi => h items (.child he hi)⟩
  · rintro ⟨htop, hbelow⟩ items hi
    rcases within_iff.mp hi with heq | ⟨e, he, hi⟩
    · exact htop items heq.symm
    · exact hbelow e he items hi

theorem addressable_of_isScalar {t : Tree} (h : t.isScalar = true) : t.Addressable := by
  refine addressable_iff.mpr ⟨?_, by simp [children_of_isScalar h]⟩
  rintro items rfl
  simp [isScalar] at h

theorem WellKeyed.child {t u : Tree} {k : Text} (h : t.WellKeyed) (hk : (k, u) ∈ t.children) :
    u.WellKeyed := by
  cases t with
  | list items =>
    obtain ⟨i, -, hi⟩ := mem_children_list_iff.mp hk
    exact wellKeyedItems_iff.mp h u (List.mem_of_getElem? hi)
  | map entries => exact wellKeyedEntries_iff.mp h.2 (k, u) hk
  | _ => simp [children] at hk

/-! ### Leaves -/

theorem leaves_of_isScalar {t : Tree} (h : t.isScalar = true) : t.leaves = [([], t)] := by
  cases t <;> simp_all [isScalar, leaves]

theorem leavesItems_eq (n : Nat) (ts : List Tree) :
    leavesItems n ts =
      (ts.zipIdx n).flatMap fun p =>
        p.1.leaves.map fun l => (Decimal.natText p.2 :: l.1, l.2) := by
  induction ts generalizing n with
  | nil => rfl
  | cons t ts ih => rw [leavesItems, ih, List.zipIdx_cons, List.flatMap_cons]

theorem leavesEntries_eq (es : List (Text × Tree)) :
    leavesEntries es = es.flatMap fun e => e.2.leaves.map fun l => (e.1 :: l.1, l.2) := by
  induction es with
  | nil => rfl
  | cons e es ih =>
    obtain ⟨k, t⟩ := e
    rw [leavesEntries, ih, List.flatMap_cons]

/-- The scalars of a list or a map are those of its children, under one more segment. -/
theorem leaves_eq_flatMap {t : Tree} (h : t.isScalar = false) :
    t.leaves = t.children.flatMap fun e => e.2.leaves.map fun l => (e.1 :: l.1, l.2) := by
  cases t with
  | list items => rw [leaves, leavesItems_eq, children, List.flatMap_map]
  | map entries => rw [leaves, leavesEntries_eq, children]
  | _ => simp [isScalar] at h

/-- **The leaves of a tree are its scalars**, each with its path. -/
theorem mem_leaves_iff {t v : Tree} {path : List Text} :
    (path, v) ∈ t.leaves ↔ Leaf t path v := by
  constructor
  · intro h
    induction t using inductChildren generalizing path with
    | h t ih =>
      rcases hs : t.isScalar with _ | _
      · rw [leaves_eq_flatMap hs, List.mem_flatMap] at h
        obtain ⟨⟨k, u⟩, hk, h⟩ := h
        obtain ⟨⟨p, w⟩, hl, heq⟩ := List.mem_map.mp h
        obtain ⟨rfl, rfl⟩ := Prod.mk.inj heq
        exact .child hk (ih (k, u) hk hl)
      · rw [leaves_of_isScalar hs, List.mem_singleton] at h
        obtain ⟨rfl, rfl⟩ := Prod.mk.inj h
        exact .scalar hs
  · intro h
    induction h with
    | scalar hs =>
      rw [leaves_of_isScalar hs]
      exact List.mem_singleton_self _
    | @child t u v k path hk _ ih =>
      rw [leaves_eq_flatMap (isScalar_eq_false_of_mem hk), List.mem_flatMap]
      exact ⟨(k, u), hk, List.mem_map_of_mem ih⟩

theorem Leaf.isScalar {t v : Tree} {path : List Text} (h : Leaf t path v) :
    v.isScalar = true := by
  induction h with
  | scalar hs => exact hs
  | child _ _ ih => exact ih

theorem Leaf.path_ne_nil {t v : Tree} {path : List Text} (h : Leaf t path v)
    (ht : t.isScalar = false) : path ≠ [] := by
  cases h with
  | scalar hs => simp [hs] at ht
  | child => simp

/-! ### Paths -/

/-- The segments of children are all different. -/
theorem distinct_children {t : Tree} (h : t.WellKeyed) : Entries.Distinct t.children := by
  cases t with
  | list items =>
    have hkeys : Entries.keys (children (.list items)) =
        (List.range' 0 items.length).map Decimal.natText := by
      rw [Entries.keys, children, List.map_map, ← List.zipIdx_map_snd, List.map_map]
      rfl
    rw [Entries.Distinct, hkeys]
    exact List.Nodup.map (fun _ _ => Decimal.natText_injective) List.nodup_range'
  | map entries => exact h.1
  | _ => exact List.nodup_nil

/-- **No path leads to two leaves.** -/
theorem nodup_leaves {t : Tree} (h : t.WellKeyed) : (t.leaves.map Prod.fst).Nodup := by
  induction t using inductChildren with
  | h t ih =>
    rcases hs : t.isScalar with _ | _
    · have hpaths : t.leaves.map Prod.fst =
          t.children.flatMap fun e => (e.2.leaves.map Prod.fst).map (e.1 :: ·) := by
        rw [leaves_eq_flatMap hs, List.map_flatMap]
        simp only [List.map_map, Function.comp_def]
      rw [hpaths, List.nodup_flatMap]
      constructor
      · intro e he
        have hchild := ih e he (h.child he)
        exact hchild.map fun _ _ heq => (List.cons.inj heq).2
      · -- Paths of different children begin with different segments.
        have hdistinct := List.pairwise_map.mp (distinct_children h)
        refine hdistinct.imp fun {e f} hne p hp hq => ?_
        obtain ⟨p, -, rfl⟩ := List.mem_map.mp hp
        obtain ⟨q, -, hpq⟩ := List.mem_map.mp hq
        exact hne (List.cons.inj hpq).1.symm
    · rw [leaves_of_isScalar hs]
      exact List.nodup_singleton _

/-- A child is found by its segment. -/
theorem child_of_mem_children {t u : Tree} {k : Text} (hkeyed : t.WellKeyed)
    (hsize : t.Addressable) (h : (k, u) ∈ t.children) : t.child k = some u := by
  cases t with
  | list items =>
    obtain ⟨i, rfl, hi⟩ := mem_children_list_iff.mp h
    have hlt : i < items.length := (List.getElem?_eq_some_iff.mp hi).1
    have hlen : items.length ≤ Nat.pow 2 64 := hsize items .self
    rw [child, Decimal.readIndex_natText (by omega), Option.bind_some, hi]
  | map entries => exact Entries.get?_of_mem hkeyed.1 h
  | _ => simp [children] at h

/-- **A leaf is found where its path leads.** -/
theorem Leaf.lookup_eq {t v : Tree} {path : List Text} (h : Leaf t path v)
    (hkeyed : t.WellKeyed) (hsize : t.Addressable) : t.lookup path = some v := by
  induction h with
  | scalar _ => rfl
  | child hk _ ih =>
    rw [lookup_cons, child_of_mem_children hkeyed hsize hk, Option.bind_some]
    exact ih (hkeyed.child hk) ((addressable_iff.mp hsize).2 _ hk)

end Tree

end ConfigTemplate
