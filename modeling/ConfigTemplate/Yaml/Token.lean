/-
Tokens of YAML documents.

A document is read in two steps, and the tokens stand between them.  Indentation
is already told apart in them: a block collection has a token where it begins and
`blockEnd` where it ends, and a key that shows only at its colon has its `key`
token in front.
-/
import ConfigTemplate.Text.Utf8

namespace ConfigTemplate

namespace Yaml

/-- How a scalar is written. -/
inductive Style where
  | plain
  | quoted
  | block
  deriving DecidableEq, Repr

/-- A token of a document. -/
inductive Token where
  /-- The directive that names the version. -/
  | version (major minor : Nat)
  /-- The directive that says what the tags after a handle begin with. -/
  | handle (name : Text) (start : Bytes)
  | documentStart
  | documentEnd
  | blockSequence
  | blockMapping
  | blockEnd
  | entry
  | key
  | value
  | sequenceOpen
  | sequenceClose
  | mappingOpen
  | mappingClose
  | comma
  /-- A reference to an anchor. -/
  | alias (name : Text)
  /-- A name for the node that follows. -/
  | anchor (name : Text)
  /-- A tag, as a handle and the rest. -/
  | tag (handle : Text) (suffix : Bytes)
  | scalar (style : Style) (text : Text)
  deriving DecidableEq, Repr

end Yaml

end ConfigTemplate
