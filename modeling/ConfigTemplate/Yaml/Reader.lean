/-
Reading YAML documents.

`Tree.ofYamlText?` is the tree that a YAML document stands for, if it is one and
every part of it has a place in trees: keys are strings, numbers are finite, and
no tag is a name of the document's own.  Of a key that is there twice, the first
position and the last value count.

Design notes: references may make a small document stand for a large tree, or for
an endless one.  Collections nest at most `maxDepth` deep, and at most
`maxReferences` references are followed for each mark of the document.
-/
import ConfigTemplate.Yaml.Anchor
import ConfigTemplate.Yaml.Layout
import ConfigTemplate.Yaml.Schema

namespace ConfigTemplate

namespace Yaml

/-- How deep collections may nest, references followed. -/
def maxDepth : Nat := 128

/-- How many references are followed for each mark of a document. -/
def maxReferences : Nat := 100

/-- A computation that may still follow a number of references, and may refuse. -/
abbrev Following := StateT Nat Option

namespace Node

/-- The node itself, or the one that it refers to. -/
def target (anchors : List (Nat × Node Nat)) : Node Nat → Following (Node Nat)
  | .reference n => do
    match ← get with
    | 0 => failure
    | left + 1 =>
      set left
      let node ← anchors.lookup n
      pure node
  | node => pure node

/-- The tree of a node, in which collections nest at most `depth` deep. -/
def toTree (anchors : List (Nat × Node Nat)) : (depth : Nat) → Node Nat → Following Tree
  | depth, node => do
    match ← target anchors node, depth with
    | .scalar about style text, _ =>
      let tree ← ofScalar? about.tag style text
      pure tree
    | .sequence about items, depth + 1 => do
      guard (!isLocal about.tag)
      let trees ← items.mapM (toTree anchors depth)
      pure (.list trees)
    | .mapping about entries, depth + 1 => do
      guard (!isLocal about.tag)
      let pairs ← entries.mapM fun (key, value) => do
        match ← toTree anchors depth key with
        | .string name =>
          let tree ← toTree anchors depth value
          pure (name, tree)
        | _ => failure
      pure (.map (Entries.putAll [] pairs))
    | _, _ => failure

/-- The tree of the node of a document. -/
def toTree? (n : Node Text) : Option Tree := do
  let root ← n.numbered?
  (toTree root.anchored.reverse maxDepth root).run' (maxReferences * root.size)

end Node

/-- The node of a document, if there is one, or `none` when the text is no document. -/
def read? (s : Text) : Option (Option (Node Text)) := do
  guard (s.all isAllowed)
  let tokens ← Token.ofText? (unifyBreaks s)
  Node.ofTokens? tokens

end Yaml

/-- The tree that a YAML document stands for.  A text without a document stands for
null. -/
def Tree.ofYamlText? (s : Text) : Option Tree := do
  match ← Yaml.read? s with
  | none => some .null
  | some node => node.toTree?

end ConfigTemplate
