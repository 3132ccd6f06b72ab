/-
Faults of JSON documents.

A fault is a cause and a place.  A reader knows only what is left of the
document, so a fault holds that rest, and `Fault.position` finds line and column
from it and the whole document.  Columns count the bytes since the last newline.
-/
import ConfigTemplate.Text.Extender
import ConfigTemplate.Text.Printable
import ConfigTemplate.Text.Utf8
import ConfigTemplate.Json.Printer

namespace ConfigTemplate

namespace Json

/-- What stands in a document where something else was wanted. -/
inductive Found where
  | null
  | bool (b : Bool)
  | number (n : Number)
  | string (s : Text)
  | sequence
  | map

/-- Why a document is refused. -/
inductive Cause where
  | eofInValue
  | eofInList
  | eofInObject
  | eofInString
  | expectedValue
  | expectedWord
  | expectedColon
  | expectedCommaOrBracket
  | expectedCommaOrBrace
  | trailingComma
  | trailingCharacters
  | keyNotString
  | invalidNumber
  | numberOutOfRange
  | invalidEscape
  | loneSurrogate
  | unpairedSurrogate
  | controlCharacter
  | tooDeep
  | wrongType (found : Found) (wanted : Text)
  | duplicateField (name : Text)

/-- A cause, with the rest of the document and how many bytes of it the reader
had passed. -/
structure Fault where
  cause : Cause
  rest : Text
  passed : Nat

/-- A character of a string as a message shows it.  One that would not be seen, or not
alone, is shown by its number. -/
def showChar (c : Char) : Text :=
  if c = '"' then ['\\', '"']
  else if c = '\\' then ['\\', '\\']
  else if c = '\n' then ['\\', 'n']
  else if c = '\r' then ['\\', 'r']
  else if c = '\t' then ['\\', 't']
  else if c = '\x00' then ['\\', '0']
  else if Text.isExtender c || !Text.isPrintable c then
    '\\' :: 'u' :: '\x7b' :: Nat.toDigits 16 c.toNat ++ ['\x7d']
  else [c]

/-- What was found, as the message of a wrong type describes it. -/
def Found.message : Found → Text
  | .null => "null".toList
  | .bool b => "boolean \x60".toList ++ boolText b ++ ['\x60']
  | .number (.int n h) => "integer \x60".toList ++ (Number.int n h).text ++ ['\x60']
  | .number (.float x) => "floating point \x60".toList ++ (Number.float x).text ++ ['\x60']
  | .string s => "string \"".toList ++ s.flatMap showChar ++ ['"']
  | .sequence => "sequence".toList
  | .map => "map".toList

/-- The wording of a cause, without the place. -/
def Cause.message : Cause → Text
  | eofInValue => "EOF while parsing a value".toList
  | eofInList => "EOF while parsing a list".toList
  | eofInObject => "EOF while parsing an object".toList
  | eofInString => "EOF while parsing a string".toList
  | expectedValue => "expected value".toList
  | expectedWord => "expected ident".toList
  | expectedColon => "expected \x60:\x60".toList
  | expectedCommaOrBracket => "expected \x60,\x60 or \x60]\x60".toList
  | expectedCommaOrBrace => "expected \x60,\x60 or \x60\x7d\x60".toList
  | trailingComma => "trailing comma".toList
  | trailingCharacters => "trailing characters".toList
  | keyNotString => "key must be a string".toList
  | invalidNumber => "invalid number".toList
  | numberOutOfRange => "number out of range".toList
  | invalidEscape => "invalid escape".toList
  | loneSurrogate => "lone leading surrogate in hex escape".toList
  | unpairedSurrogate => "unexpected end of hex escape".toList
  | controlCharacter =>
    "control character (\\u0000-\\u001F) found while parsing a string".toList
  | tooDeep => "recursion limit exceeded".toList
  | wrongType found wanted =>
    "invalid type: ".toList ++ found.message ++ ", expected ".toList ++ wanted
  | duplicateField name => "duplicate field \x60".toList ++ name ++ ['\x60']

/-- Line and column after the first `index` bytes. -/
def positionAfter (bytes : Bytes) (index : Nat) : Nat × Nat :=
  let before := bytes.take index
  (1 + before.count 10, (before.reverse.takeWhile (· != 10)).length)

/-- The line and the column of a fault of the document `source`. -/
def Fault.position (f : Fault) (source : Text) : Nat × Nat :=
  positionAfter (Utf8.encode source) (source.byteLength - f.rest.byteLength + f.passed)

/-- A fault of the document `source` in words. -/
def Fault.message (f : Fault) (source : Text) : Text :=
  let (line, column) := f.position source
  f.cause.message ++ " at line ".toList ++ Decimal.natText line ++ " column ".toList ++
    Decimal.natText column

end Json

end ConfigTemplate
