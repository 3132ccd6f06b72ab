/-
Writing trees as JSON.

`Tree.pretty` puts every item and entry on a line of its own, two blanks further
in than its container, and `Tree.compact` writes no white space at all.  A
container without children is a pair of brackets in both.  `Tree.text` is what a
template receives for a value: a text is itself and null is empty.
-/
import ConfigTemplate.Tree.Basic

namespace ConfigTemplate

namespace Json

/-- The written form of one character of a string. -/
def escape (c : Char) : Text :=
  if c = '"' then ['\\', '"']
  else if c = '\\' then ['\\', '\\']
  else if c = '\n' then ['\\', 'n']
  else if c = '\r' then ['\\', 'r']
  else if c = '\t' then ['\\', 't']
  else if c = '\x08' then ['\\', 'b']
  else if c = '\x0c' then ['\\', 'f']
  else if c.toNat < 0x20 then
    ['\\', 'u', '0', '0', Nat.digitChar (c.toNat / 16), Nat.digitChar (c.toNat % 16)]
  else [c]

/-- A string with its quotes. -/
def quote (s : Text) : Text :=
  '"' :: s.flatMap escape ++ ['"']

/-- A truth value as it is written, in documents and rendered text alike. -/
def boolText : Bool → Text
  | true => "true".toList
  | false => "false".toList

/-- Null as it is written in documents. -/
def nullText : Text :=
  "null".toList

/-- A line break and the indentation of a child at depth `n`. -/
def newline (n : Nat) : Text :=
  '\n' :: List.replicate (2 * n) ' '

end Json

namespace Tree

open Json

mutual

/-- The tree as JSON on one line, without blanks. -/
def compact : Tree → Text
  | .null => nullText
  | .bool b => boolText b
  | .number n => n.text
  | .string s => quote s
  | .list items => '[' :: compactItems items ++ [']']
  | .map entries => '\x7b' :: compactEntries entries ++ ['\x7d']

/-- The items of an array, with commas between them. -/
def compactItems : List Tree → Text
  | [] => []
  | [t] => t.compact
  | t :: ts => t.compact ++ ',' :: compactItems ts

/-- The members of an object, with commas between them. -/
def compactEntries : List (Text × Tree) → Text
  | [] => []
  | [(k, t)] => quote k ++ ':' :: t.compact
  | (k, t) :: es => quote k ++ ':' :: t.compact ++ ',' :: compactEntries es

end

mutual

/-- The tree as JSON with a line for each child, at depth `n`. -/
def prettyAt (n : Nat) : Tree → Text
  | .null => nullText
  | .bool b => boolText b
  | .number m => m.text
  | .string s => quote s
  | .list [] => ['[', ']']
  | .list (t :: ts) =>
    '[' :: newline (n + 1) ++ prettyAt (n + 1) t ++ prettyItems (n + 1) ts ++ newline n ++ [']']
  | .map [] => ['\x7b', '\x7d']
  | .map ((k, t) :: es) =>
    '\x7b' :: newline (n + 1) ++ quote k ++ ':' :: ' ' :: prettyAt (n + 1) t ++
      prettyEntries (n + 1) es ++ newline n ++ ['\x7d']

/-- The items after the first, each after a comma and on its own line. -/
def prettyItems (n : Nat) : List Tree → Text
  | [] => []
  | t :: ts => ',' :: newline n ++ prettyAt n t ++ prettyItems n ts

/-- The entries after the first, each after a comma and on its own line. -/
def prettyEntries (n : Nat) : List (Text × Tree) → Text
  | [] => []
  | (k, t) :: es =>
    ',' :: newline n ++ quote k ++ ':' :: ' ' :: prettyAt n t ++ prettyEntries n es

end

/-- The tree as JSON with a line for each child. -/
def pretty (t : Tree) : Text :=
  t.prettyAt 0

/-- The text that a template receives for a tree. -/
def text : Tree → Text
  | .null => []
  | .bool b => boolText b
  | .number n => n.text
  | .string s => s
  | t => t.pretty

end Tree

end ConfigTemplate
