/-
Anchors of YAML documents.

Anchors get numbers in the order of the document: the number of names known before.
A name that is given again gets such a number too, which a later name may get as
well, and the last node with a number is the one that references to it mean.

* `Node.numbered?`: the node with numbers for names, which refuses a reference to a
  name that is not known before it;
* `Node.anchored`: the nodes that have a number, in the order of the document;
* `Node.size`: how many marks of nodes and of ends of collections there are.
-/
import ConfigTemplate.Yaml.Node

namespace ConfigTemplate

namespace Yaml

/-- A computation that knows the numbers of names, and may refuse. -/
abbrev Numbering := StateT (Entries Nat) Option

/-- Give the anchor of a node its number. -/
def Properties.number (about : Properties Text) : Numbering (Properties Nat) := do
  match about.anchor with
  | .none => pure ⟨.none, about.tag⟩
  | .some name =>
    let known ← get
    set (known.put name known.length)
    pure ⟨.some known.length, about.tag⟩

namespace Node

mutual

/-- Give the anchors in a node their numbers. -/
def number : Node Text → Numbering (Node Nat)
  | .reference name => do
    let known ← get
    let n ← known.get? name
    pure (.reference n)
  | .scalar about style text => do
    let about ← about.number
    pure (.scalar about style text)
  | .sequence about items => do
    let about ← about.number
    let items ← numberItems items
    pure (.sequence about items)
  | .mapping about entries => do
    let about ← about.number
    let entries ← numberEntries entries
    pure (.mapping about entries)

/-- Give the anchors in the items of a sequence their numbers, from the first item on. -/
def numberItems : List (Node Text) → Numbering (List (Node Nat))
  | [] => pure []
  | item :: items => do
    let item ← number item
    let items ← numberItems items
    pure (item :: items)

/-- Give the anchors in the entries of a mapping their numbers, in a key before its value. -/
def numberEntries : List (Node Text × Node Text) → Numbering (List (Node Nat × Node Nat))
  | [] => pure []
  | (key, value) :: entries => do
    let key ← number key
    let value ← number value
    let entries ← numberEntries entries
    pure ((key, value) :: entries)

end

/-- The node with numbers for the names of anchors. -/
def numbered? (n : Node Text) : Option (Node Nat) :=
  (number n).run' []

/-- A node under its number, if it has one. -/
def underAnchor (about : Properties Nat) (n : Node Nat) : List (Nat × Node Nat) :=
  about.anchor.toList.map (·, n)

mutual

/-- The nodes that have a number, in the order of the document. -/
def anchored : Node Nat → List (Nat × Node Nat)
  | .reference _ => []
  | .scalar about style text => underAnchor about (.scalar about style text)
  | .sequence about items => underAnchor about (.sequence about items) ++ anchoredItems items
  | .mapping about entries => underAnchor about (.mapping about entries) ++ anchoredEntries entries

/-- The nodes that have a number among and in the items of a sequence. -/
def anchoredItems : List (Node Nat) → List (Nat × Node Nat)
  | [] => []
  | item :: items => anchored item ++ anchoredItems items

/-- The nodes that have a number among and in the keys and values of a mapping. -/
def anchoredEntries : List (Node Nat × Node Nat) → List (Nat × Node Nat)
  | [] => []
  | (key, value) :: entries => anchored key ++ anchored value ++ anchoredEntries entries

end

mutual

/-- How many marks there are of nodes and of ends of collections. -/
def size {α : Type} : Node α → Nat
  | .reference _ => 1
  | .scalar _ _ _ => 1
  | .sequence _ items => sizeItems items + 2
  | .mapping _ entries => sizeEntries entries + 2

/-- The marks of the items of a sequence. -/
def sizeItems {α : Type} : List (Node α) → Nat
  | [] => 0
  | item :: items => size item + sizeItems items

/-- The marks of the keys and values of a mapping. -/
def sizeEntries {α : Type} : List (Node α × Node α) → Nat
  | [] => 0
  | (key, value) :: entries => size key + size value + sizeEntries entries

end

end Node

end Yaml

end ConfigTemplate
