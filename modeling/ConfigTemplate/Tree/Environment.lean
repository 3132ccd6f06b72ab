/-
The environment variables of a configuration.

Every scalar of a tree is published under the segments of its path joined by
underscores, once with each of two prefixes.  Where two paths give one name, the
name stays where it was first and takes the last value.  A tree that is a scalar
itself has no name to publish.
-/
import ConfigTemplate.Json.Printer

namespace ConfigTemplate

namespace Tree

mutual

/-- The scalars of a tree with their paths, in document order. -/
def leaves : Tree → List (List Text × Tree)
  | .list items => leavesItems 0 items
  | .map entries => leavesEntries entries
  | t => [([], t)]

/-- The scalars of list items, the first of which is at position `n`. -/
def leavesItems (n : Nat) : List Tree → List (List Text × Tree)
  | [] => []
  | t :: ts => (leaves t).map (fun l => (Decimal.natText n :: l.1, l.2)) ++ leavesItems (n + 1) ts

/-- The scalars of the entries of a map, behind their keys. -/
def leavesEntries : List (Text × Tree) → List (List Text × Tree)
  | [] => []
  | (k, t) :: es => (leaves t).map (fun l => (k :: l.1, l.2)) ++ leavesEntries es

end

/-- The prefixes of environment variables, in the order of publication. -/
def environmentPrefixes : List Text :=
  ["quill_".toList, "q_".toList]

/-- The name of a path without its prefix. -/
def environmentName (path : List Text) : Text :=
  List.intercalate ['_'] path

/-- The variables of one scalar. -/
def leafVariables (path : List Text) (leaf : Tree) : List (Text × Text) :=
  if path = [] then []
  else environmentPrefixes.map fun p => (p ++ environmentName path, leaf.text)

/-- The environment variables of a tree, in order. -/
def environment (t : Tree) : Entries Text :=
  Entries.putAll [] (t.leaves.flatMap fun l => leafVariables l.1 l.2)

end Tree

end ConfigTemplate
