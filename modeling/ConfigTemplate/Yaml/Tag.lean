/-
Names, tags and directives of YAML documents.

* `readName`: the name of an anchor or of a reference to one;
* `readTag`: a tag, as a handle and a suffix; the handle is empty when the suffix is
  the whole tag;
* `readDirective`: a line that names the version, or a handle and what it stands for.

A tag is bytes and not text, because a percent sign with two hexadecimal digits
stands for any byte.  Such bytes come in runs that have the lengths of characters,
but need not be characters.  A null byte ends what a suffix, or what a handle stands
for, is taken to be.
-/
import ConfigTemplate.Decimal.Numeral
import ConfigTemplate.Yaml.Cursor
import ConfigTemplate.Yaml.Token

namespace ConfigTemplate

namespace Yaml

/-- The characters of the names of anchors and handles. -/
def isNameChar (c : Char) : Bool :=
  c.isAlphanum || c == '_' || c == '-'

/-- Read the name of an anchor, which a gap or an indicator must follow. -/
def readName (s : Text) : Option (Text × Text) :=
  let name := s.takeWhile isNameChar
  let rest := s.dropWhile isNameChar
  if name ≠ [] ∧ (atGap rest ∨ startsIn ['?', ':', ',', ']', '\x7d', '%', '@', '\x60'] rest) then
    some (name, rest)
  else none

/-- The characters of tags.  A tag that is written out may have commas and brackets. -/
def isTagChar (written : Bool) (c : Char) : Bool :=
  isNameChar c || [';', '/', '?', ':', '@', '&', '=', '+', '$', '.', '%', '!', '~', '*', '\'', '(',
    ')'].contains c || (written && [',', '[', ']'].contains c)

/-- How many bytes must follow a byte that stands first in a run, if it may. -/
def followers (b : UInt8) : Option Nat :=
  if b < 0x80 then some 0
  else if b < 0xC0 then none
  else if b < 0xE0 then some 1
  else if b < 0xF0 then some 2
  else if b < 0xF8 then some 3
  else none

/-- The bytes of a text in which some are written as a percent sign and two
hexadecimal digits; `left` bytes of the last run are still to come. -/
def percentBytes : (left : Nat) → Text → Option Bytes
  | 0, [] => some []
  | left, '%' :: a :: b :: s => do
    let n ← Decimal.radixValue 16 [a, b]
    let byte := n.toUInt8
    let left ← match left with
      | 0 => followers byte
      | left + 1 => if 0x80 ≤ byte && byte < 0xC0 then some left else none
    let bytes ← percentBytes left s
    some (byte :: bytes)
  | 0, c :: s => do
    guard (c ≠ '%')
    let bytes ← percentBytes 0 s
    some (Utf8.encode [c] ++ bytes)
  | _ + 1, _ => none

/-- The bytes up to the first null byte. -/
def beforeNull (bytes : Bytes) : Bytes :=
  bytes.takeWhile (· != 0)

/-- Read the characters of a tag, if any, as the bytes that they stand for. -/
def readTagBytes (written : Bool) (s : Text) : Option (Bytes × Text) := do
  let bytes ← percentBytes 0 (s.takeWhile (isTagChar written))
  some (beforeNull bytes, s.dropWhile (isTagChar written))

/-- Read the characters of a tag, of which there is at least one. -/
def readTagBytes₁ (written : Bool) (s : Text) : Option (Bytes × Text) := do
  guard (s.takeWhile (isTagChar written) ≠ [])
  readTagBytes written s

/-- Read an exclamation mark, the name after it, and whether a second mark closes the
name. -/
def readHandle : Text → Option ((Text × Bool) × Text)
  | '!' :: s =>
    let name := s.takeWhile isNameChar
    match s.dropWhile isNameChar with
    | '!' :: rest => some ((name, true), rest)
    | rest => some ((name, false), rest)
  | _ => none

/-- The exclamation mark as a byte. -/
def exclamation : UInt8 := 0x21

/-- Read a tag, from its exclamation mark on.  The mark alone is the whole tag. -/
def readTag (flow : Bool) (s : Text) : Option ((Text × Bytes) × Text) := do
  let (tag, rest) ← match s with
    | '!' :: '<' :: s => do
      let (bytes, rest) ← readTagBytes₁ true s
      guard (startsIn ['>'] rest)
      some (([], bytes), rest.drop 1)
    | s => do
      let ((name, closed), rest) ← readHandle s
      if closed then
        let (bytes, rest) ← readTagBytes₁ false rest
        some (('!' :: name ++ ['!'], bytes), rest)
      else
        let (bytes, rest) ← readTagBytes false rest
        let suffix := Utf8.encode name ++ bytes
        some (if suffix = [] then ([], [exclamation]) else (['!'], suffix), rest)
  guard (atGap rest || (flow && startsIn [','] rest))
  some (tag, rest)

/-! ### Directives -/

/-- Read one of the two numbers of a version. -/
def readVersionNumber (s : Text) : Option (Nat × Text) :=
  let ds := s.takeWhile Char.isDigit
  if ds ≠ [] ∧ ds.length ≤ 9 then some (Decimal.digitsValue ds, s.dropWhile Char.isDigit) else none

/-- Read the version of a directive. -/
def readVersion (s : Text) : Option (Token × Text) := do
  let (major, rest) ← readVersionNumber (s.dropWhile isWhite)
  guard (startsIn ['.'] rest)
  let (minor, rest) ← readVersionNumber (rest.drop 1)
  some (.version major minor, rest)

/-- Read a handle and what the tags with it begin with. -/
def readHandleStart (s : Text) : Option (Token × Text) := do
  let ((name, closed), rest) ← readHandle (s.dropWhile isWhite)
  guard (closed || name = [])
  guard (startsIn [' ', '\t'] rest)
  let (start, rest) ← readTagBytes₁ true (rest.dropWhile isWhite)
  guard (atGap rest)
  some (.handle ('!' :: name ++ (if closed then ['!'] else [])) start, rest)

/-- Read a directive after its percent sign, with the end of its line. -/
def readDirective (s : Text) : Option (Token × Text) := do
  let name := s.takeWhile isNameChar
  let rest := s.dropWhile isNameChar
  guard (atGap rest)
  let (token, rest) ← if name = "YAML".toList then readVersion rest
    else if name = "TAG".toList then readHandleStart rest
    else none
  let rest ← endLine rest
  some (token, rest)

end Yaml

end ConfigTemplate
