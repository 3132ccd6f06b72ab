/-
Reading JSON documents.

A `Builder` says what becomes of the parts of a document while it is read, and
`Json.readWith` reads a whole document with one.  `Json.read` keeps the document as
it is written, and `Tree.ofJsonText` is the tree that it stands for.  Arrays and
objects nest at most `maxDepth` deep.

Design notes: `valueFrom`, `itemsFrom` and `membersFrom` call one another at most
twice for each character, so twice the length of the document is fuel enough for
all of them.  Depth is spent at an opening bracket, before the bracket is read.
-/
import ConfigTemplate.Json.Basic
import ConfigTemplate.Json.Literal

namespace ConfigTemplate

namespace Json

/-- How deep arrays and objects may nest. -/
def maxDepth : Nat := 127

/-- What follows a comma in a list that `close` ends: anything but its end. -/
def afterComma (close : Char) (s : Text) : Except Fault Text :=
  match skipSpace s with
  | [] => refuse .eofInValue []
  | c :: t => if c = close then refuse .trailingComma (c :: t) else .ok (c :: t)

/-- Go to the next item of an array, or past its end: the text from the item on,
or the text after the bracket. -/
def nextItem (first : Bool) (s : Text) : Except Fault (Text ⊕ Text) :=
  match skipSpace s with
  | [] => refuse .eofInList []
  | c :: t =>
    if c = ']' then .ok (.inr t)
    else if first then .ok (.inl (c :: t))
    else if c = ',' then (afterComma ']' t).map .inl
    else refuse .expectedCommaOrBracket (c :: t)

/-- Read a name whose quote comes next. -/
def readName : Text → Except Fault (Parsed Text)
  | '"' :: s => readString s
  | s => refuse .keyNotString s

/-- Go to the next member of an object, or past its end: the text from its name
on, or the text after the brace. -/
def nextMember (first : Bool) (s : Text) : Except Fault (Text ⊕ Text) :=
  match skipSpace s with
  | [] => refuse .eofInObject []
  | c :: t =>
    if c = '\x7d' then .ok (.inr t)
    else if first then .ok (.inl (c :: t))
    else if c = ',' then (afterComma '\x7d' t).map .inl
    else refuse .expectedCommaOrBrace (c :: t)

/-- Read the colon after a name. -/
def readColon (s : Text) : Except Fault Text :=
  match skipSpace s with
  | [] => refuse .eofInObject []
  | c :: t => if c = ':' then .ok t else refuse .expectedColon (c :: t)

/-- What becomes of the parts of a document.  The children of a container come in the
order of the document. -/
structure Builder (α : Type) where
  null : α
  bool : Bool → α
  number : Number → α
  string : Text → α
  array : List α → α
  object : List (Text × α) → α

/-- The document as it is written. -/
def Builder.document : Builder Json :=
  ⟨.null, .bool, .number, .string, .array, .object⟩

section

variable {α : Type} (b : Builder α)

mutual

/-- Read a value, in which containers nest at most `depth` deep. -/
def valueFrom : (fuel : Nat) → (depth : Nat) → Text → Except Fault (Parsed α)
  | 0, _, s => refuse .tooDeep s
  | fuel + 1, depth, s =>
    match skipSpace s with
    | [] => refuse .eofInValue []
    | c :: t =>
      if c = 'n' then readWord b.null ['u', 'l', 'l'] t
      else if c = 't' then readWord (b.bool true) ['r', 'u', 'e'] t
      else if c = 'f' then readWord (b.bool false) ['a', 'l', 's', 'e'] t
      else if c = '-' then do
        let (n, rest) ← readNumber true t
        .ok (b.number n, rest)
      else if c.isDigit then do
        let (n, rest) ← readNumber false (c :: t)
        .ok (b.number n, rest)
      else if c = '"' then do
        let (k, rest) ← readString t
        .ok (b.string k, rest)
      else if c = '[' then
        match depth with
        | 0 => refuse .tooDeep (c :: t)
        | depth + 1 => do
          let (items, rest) ← itemsFrom fuel depth true t
          .ok (b.array items, rest)
      else if c = '\x7b' then
        match depth with
        | 0 => refuse .tooDeep (c :: t)
        | depth + 1 => do
          let (members, rest) ← membersFrom fuel depth true t
          .ok (b.object members, rest)
      else refuse .expectedValue (c :: t)

/-- Read the items of an array up to its closing bracket; `first` tells that none was read yet. -/
def itemsFrom : (fuel : Nat) → (depth : Nat) → (first : Bool) → Text →
    Except Fault (Parsed (List α))
  | 0, _, _, s => refuse .tooDeep s
  | fuel + 1, depth, first, s => do
    match ← nextItem first s with
    | .inr rest => .ok ([], rest)
    | .inl t =>
      let (item, rest) ← valueFrom fuel depth t
      let (items, rest) ← itemsFrom fuel depth false rest
      .ok (item :: items, rest)

/-- Read the members of an object up to its closing brace; `first` tells that none was read yet. -/
def membersFrom : (fuel : Nat) → (depth : Nat) → (first : Bool) → Text →
    Except Fault (Parsed (List (Text × α)))
  | 0, _, _, s => refuse .tooDeep s
  | fuel + 1, depth, first, s => do
    match ← nextMember first s with
    | .inr rest => .ok ([], rest)
    | .inl t =>
      let (name, rest) ← readName t
      let rest ← readColon rest
      let (value, rest) ← valueFrom fuel depth rest
      let (members, rest) ← membersFrom fuel depth false rest
      .ok ((name, value) :: members, rest)

end

/-- Read a value in which arrays and objects nest at most `depth` deep, and give it to a builder. -/
def readValueWith (depth : Nat) (s : Text) : Except Fault (Parsed α) :=
  valueFrom b (2 * s.length + 2) depth s

/-- Nothing but white space may follow a document. -/
def readEnd (s : Text) : Except Fault Unit :=
  match skipSpace s with
  | [] => .ok ()
  | t => refuse .trailingCharacters t

/-- Read a whole document with a builder.  Nothing but white space may follow its value. -/
def readWith (s : Text) : Except Fault α := do
  let (a, rest) ← readValueWith b maxDepth s
  readEnd rest
  .ok a

end

/-- Read a value as it is written. -/
def readValue (depth : Nat) (s : Text) : Except Fault (Parsed Json) :=
  readValueWith .document depth s

/-- Read a whole document as it is written. -/
def read (s : Text) : Except Fault Json :=
  readWith .document s

end Json

/-- The tree that a JSON document stands for. -/
def Tree.ofJsonText (s : Text) : Except Json.Fault Tree :=
  (Json.read s).map Tree.ofJson

end ConfigTemplate
