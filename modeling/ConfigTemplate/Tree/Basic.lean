/-
Configuration trees.

A `Tree` is a scalar, a list, or a map with its entries in insertion order.
`Tree.induct` is induction over trees, with one hypothesis for each child, and
`Tree.WellKeyed` says that no map in the tree has a key twice.
-/
import ConfigTemplate.Number
import ConfigTemplate.Tree.Entries

namespace ConfigTemplate

/-- A configuration tree.  A list is entered by position and a map by key. -/
inductive Tree where
  | null
  | bool (b : Bool)
  | number (n : Number)
  | string (s : Text)
  | list (items : List Tree)
  | map (entries : List (Text × Tree))

namespace Tree

/-- Induction over trees: a property holds of a list or map if it holds of every
child. -/
@[induction_eliminator]
theorem induct {motive : Tree → Prop} (null : motive .null) (bool : ∀ b, motive (.bool b))
    (number : ∀ n, motive (.number n)) (string : ∀ s, motive (.string s))
    (list : ∀ items, (∀ t ∈ items, motive t) → motive (.list items))
    (map : ∀ entries, (∀ e ∈ entries, motive (Prod.snd e)) → motive (.map entries)) (t : Tree) :
    motive t :=
  Tree.rec (motive_1 := motive) (motive_2 := fun ts => ∀ t ∈ ts, motive t)
    (motive_3 := fun es => ∀ e ∈ es, motive (Prod.snd e)) (motive_4 := fun e => motive e.2)
    null bool number string (fun _ ih => list _ ih) (fun _ ih => map _ ih)
    (fun _ h => absurd h List.not_mem_nil)
    (fun _ _ ht hts _ h => (List.mem_cons.mp h).elim (fun h => h ▸ ht) (hts _))
    (fun _ h => absurd h List.not_mem_nil)
    (fun _ _ he hes _ h => (List.mem_cons.mp h).elim (fun h => h ▸ he) (hes _))
    (fun _ _ h => h) t

mutual

/-- No map in the tree has a key twice. -/
def WellKeyed : Tree → Prop
  | .null | .bool _ | .number _ | .string _ => True
  | .list items => WellKeyedItems items
  | .map entries => Entries.Distinct entries ∧ WellKeyedEntries entries

/-- No map in the items of a list has a key twice. -/
def WellKeyedItems : List Tree → Prop
  | [] => True
  | t :: ts => t.WellKeyed ∧ WellKeyedItems ts

/-- No map below the entries of a map has a key twice. -/
def WellKeyedEntries : List (Text × Tree) → Prop
  | [] => True
  | (_, t) :: es => t.WellKeyed ∧ WellKeyedEntries es

end

theorem wellKeyedItems_iff {ts : List Tree} : WellKeyedItems ts ↔ ∀ t ∈ ts, t.WellKeyed := by
  induction ts with
  | nil => simp [WellKeyedItems]
  | cons t ts ih => simp [WellKeyedItems, ih]

theorem wellKeyedEntries_iff {es : List (Text × Tree)} :
    WellKeyedEntries es ↔ ∀ e ∈ es, e.2.WellKeyed := by
  induction es with
  | nil => simp [WellKeyedEntries]
  | cons e es ih =>
    obtain ⟨k, t⟩ := e
    rw [WellKeyedEntries, ih, List.forall_mem_cons]

/-- The entries of a map. -/
def entries? : Tree → Option (Entries Tree)
  | .map es => some es
  | _ => none

/-- Whether a tree is a map, so that others merge with it. -/
def isMap (t : Tree) : Bool :=
  t.entries?.isSome

/-- Whether a section over the tree is entered: null, `false`, zero, the empty
text and the empty list are not, and everything else is, the empty map too. -/
def isTruthy : Tree → Bool
  | .null => false
  | .bool b => b
  | .number n => !n.isZero
  | .string s => !s.isEmpty
  | .list items => !items.isEmpty
  | .map _ => true

end Tree

end ConfigTemplate
