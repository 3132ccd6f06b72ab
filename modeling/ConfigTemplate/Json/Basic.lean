/-
JSON documents.

`Json` is a document as it is written: an object lists all its members, repeated
names too.  There are two readings of it as a configuration tree:

* `Tree.ofJson` keeps the order of the document, a repeated name having its first
  position and its last value;
* `Tree.ofJsonSorted` sorts every map by key, again with the last value.

`Json.induct` is induction over documents, with one hypothesis for each child.
-/
import ConfigTemplate.Tree.Basic

namespace ConfigTemplate

/-- A JSON document as it is written. -/
inductive Json where
  | null
  | bool (b : Bool)
  | number (n : Number)
  | string (s : Text)
  | array (items : List Json)
  | object (members : List (Text × Json))

/-- Induction over documents: a property holds of an array or object if it holds of
every child. -/
@[induction_eliminator]
theorem Json.induct {motive : Json → Prop} (null : motive .null) (bool : ∀ b, motive (.bool b))
    (number : ∀ n, motive (.number n)) (string : ∀ s, motive (.string s))
    (array : ∀ items, (∀ j ∈ items, motive j) → motive (.array items))
    (object : ∀ members, (∀ m ∈ members, motive (Prod.snd m)) → motive (.object members))
    (j : Json) : motive j :=
  Json.rec (motive_1 := motive) (motive_2 := fun js => ∀ j ∈ js, motive j)
    (motive_3 := fun ms => ∀ m ∈ ms, motive (Prod.snd m)) (motive_4 := fun m => motive m.2)
    null bool number string (fun _ ih => array _ ih) (fun _ ih => object _ ih)
    (fun _ h => absurd h List.not_mem_nil)
    (fun _ _ hj hjs _ h => (List.mem_cons.mp h).elim (fun h => h ▸ hj) (hjs _))
    (fun _ h => absurd h List.not_mem_nil)
    (fun _ _ hm hms _ h => (List.mem_cons.mp h).elim (fun h => h ▸ hm) (hms _))
    (fun _ _ h => h) j

namespace Entries

variable {α : Type}

/-- The entries in the order of their keys.  The sort is stable, so equal keys stay as they are. -/
def sortByKey (es : Entries α) : Entries α :=
  es.mergeSort fun e f => Text.le e.1 f.1

end Entries

namespace Tree

mutual

/-- The tree that a document stands for, in the order of the document. -/
def ofJson : Json → Tree
  | .null => .null
  | .bool b => .bool b
  | .number n => .number n
  | .string s => .string s
  | .array items => .list (ofJsonItems items)
  | .object members => .map (Entries.putAll [] (ofJsonMembers members))

/-- The trees of the items of an array. -/
def ofJsonItems : List Json → List Tree
  | [] => []
  | j :: js => ofJson j :: ofJsonItems js

/-- The trees of the members of an object, each under its name; repeated names are kept. -/
def ofJsonMembers : List (Text × Json) → List (Text × Tree)
  | [] => []
  | (k, j) :: ms => (k, ofJson j) :: ofJsonMembers ms

end

mutual

/-- The tree with every map in order of its keys. -/
def sorted : Tree → Tree
  | .list items => .list (sortedItems items)
  | .map entries => .map (Entries.sortByKey (sortedEntries entries))
  | t => t

/-- The items of a list with every map in them sorted. -/
def sortedItems : List Tree → List Tree
  | [] => []
  | t :: ts => sorted t :: sortedItems ts

/-- The entries of a map, not yet sorted, with every map below them sorted. -/
def sortedEntries : List (Text × Tree) → List (Text × Tree)
  | [] => []
  | (k, t) :: es => (k, sorted t) :: sortedEntries es

end

/-- The tree that a document stands for, with every map in order of its keys. -/
def ofJsonSorted (j : Json) : Tree :=
  (ofJson j).sorted

end Tree

end ConfigTemplate
