/-
What a remote sends.

A payload is an object with the fields `name` and `settings`, either of which may
be absent, or an array of the two.  Other fields are passed over: `skipValue` reads
them with less care than values that are kept, since it takes numbers of any size
and any depth of nesting.

Design notes: `skipFrom` keeps the brackets that are open in a list and spends fuel
at every value; a value has at least one character.
-/
import ConfigTemplate.Json.Reader

namespace ConfigTemplate

/-- A configuration as a remote sends it. -/
structure Payload where
  name : Text
  settings : Tree

namespace Payload

/-- The payload as JSON on one line. -/
def compact (p : Payload) : Text :=
  (Tree.map [("name".toList, .string p.name), ("settings".toList, p.settings)]).compact

end Payload

namespace Json

/-! ### Passing over values -/

/-- Pass over an escape, after its backslash: the number of its characters. -/
def skipEscape : Text → Except Fault Nat
  | [] => refuse .eofInString []
  | 'u' :: s => do
    let _ ← readHex s
    .ok 5
  | c :: s =>
    if c ∈ ['"', '\\', '/', 'b', 'f', 'n', 'r', 't'] then .ok 1
    else refuse .invalidEscape (c :: s)

/-- Pass over the characters of a string up to its closing quote; the first `skip`
belong to an escape. -/
def skipStringFrom : (skip : Nat) → Text → Except Fault Text
  | _, [] => refuse .eofInString []
  | skip + 1, _ :: s => skipStringFrom skip s
  | 0, c :: s =>
    if c = '"' then .ok s
    else if c = '\\' then do
      let used ← skipEscape s
      skipStringFrom used s
    else if c.toNat < 0x20 then refuseBefore .controlCharacter (c :: s)
    else skipStringFrom 0 s

/-- Pass over an exponent behind its letter, which has at least one digit. -/
def skipExponent (s : Text) : Except Fault Text :=
  let (_, t) := exponentSign s
  match t with
  | [] => refuse .invalidNumber []
  | c :: t => if c.isDigit then .ok (t.dropWhile Char.isDigit) else refuse .invalidNumber (c :: t)

/-- Pass over what may follow the digits before the point. -/
def skipTail : Text → Except Fault Text
  | '.' :: s =>
    match s with
    | [] => refuse .invalidNumber []
    | c :: t =>
      if c.isDigit then
        match t.dropWhile Char.isDigit with
        | 'e' :: u | 'E' :: u => skipExponent u
        | u => .ok u
      else refuse .invalidNumber (c :: t)
  | 'e' :: s | 'E' :: s => skipExponent s
  | s => .ok s

/-- Pass over a number behind its minus sign, whatever its size. -/
def skipNumber : Text → Except Fault Text
  | [] => refuse .invalidNumber []
  | s => do
    let (_, rest) ← readWhole s
    skipTail rest

/-- Pass over the ends of containers after a value: what is open then, and the text
from the next value on, or `none` when nothing is open. -/
def skipEnds (fuel : Nat) (begun : Bool) (opened : List Char) (s : Text) :
    Except Fault (Option (List Char) × Text) :=
  match fuel, opened with
  | 0, _ => .ok (none, s)
  | _, [] => .ok (none, s)
  | fuel + 1, o :: outer =>
    let close := if o = '[' then ']' else '\x7d'
    match skipSpace s with
    | [] => refuse (if o = '[' then .eofInList else .eofInObject) []
    | c :: t =>
      if c = close then skipEnds fuel true outer t
      else if begun then
        if c = ',' then .ok (some opened, t)
        else refuse (if o = '[' then .expectedCommaOrBracket else .expectedCommaOrBrace) (c :: t)
      else .ok (some opened, c :: t)

/-- Pass over the name of a member and the colon behind it. -/
def skipName (s : Text) : Except Fault Text :=
  match skipSpace s with
  | [] => refuse .eofInObject []
  | '"' :: t => do
    let rest ← skipStringFrom 0 t
    readColon rest
  | t => refuse .keyNotString t

/-- Pass over values until nothing is open. -/
def skipFrom : (fuel : Nat) → (opened : List Char) → Text → Except Fault Text
  | 0, _, s => .ok s
  | fuel + 1, opened, s =>
    let after (begun : Bool) (opened : List Char) (s : Text) : Except Fault Text := do
      match ← skipEnds (s.length + 1) begun opened s with
      | (none, rest) => .ok rest
      | (some opened, rest) =>
        let rest ← if opened.head? = some '\x7b' then skipName rest else .ok rest
        skipFrom fuel opened rest
    match skipSpace s with
    | [] => refuse .eofInValue []
    | c :: t =>
      if c = 'n' then do
        let (_, rest) ← readWord () ['u', 'l', 'l'] t
        after true opened rest
      else if c = 't' then do
        let (_, rest) ← readWord () ['r', 'u', 'e'] t
        after true opened rest
      else if c = 'f' then do
        let (_, rest) ← readWord () ['a', 'l', 's', 'e'] t
        after true opened rest
      else if c = '-' then do
        let rest ← skipNumber t
        after true opened rest
      else if c.isDigit then do
        let rest ← skipNumber (c :: t)
        after true opened rest
      else if c = '"' then do
        let rest ← skipStringFrom 0 t
        after true opened rest
      else if c = '[' || c = '\x7b' then after false (c :: opened) t
      else refuse .expectedValue (c :: t)

/-- Pass over a value, however deep it nests. -/
def skipValue (s : Text) : Except Fault Text :=
  skipFrom (s.length + 1) [] s

/-! ### Values of the wrong type -/

/-- Refuse the value that comes next, which is not what was wanted.  A scalar is
read first, so its own faults come first. -/
def refuseType {α : Type} (wanted : Text) (s : Text) : Except Fault α :=
  let wrong (found : Found) (rest : Text) : Except Fault α :=
    refuseBefore (.wrongType found wanted) rest
  match skipSpace s with
  | [] => refuse .eofInValue []
  | c :: t =>
    if c = 'n' then do
      let (found, rest) ← readWord .null ['u', 'l', 'l'] t
      wrong found rest
    else if c = 't' then do
      let (found, rest) ← readWord (.bool true) ['r', 'u', 'e'] t
      wrong found rest
    else if c = 'f' then do
      let (found, rest) ← readWord (.bool false) ['a', 'l', 's', 'e'] t
      wrong found rest
    else if c = '-' then do
      let (n, rest) ← readNumber true t
      wrong (.number n) rest
    else if c.isDigit then do
      let (n, rest) ← readNumber false (c :: t)
      wrong (.number n) rest
    else if c = '"' then do
      let (k, rest) ← readString t
      wrong (.string k) rest
    else if c = '[' then wrong .sequence (c :: t)
    else if c = '\x7b' then wrong .map (c :: t)
    else refuse .expectedValue (c :: t)

/-- Read a value that has to be a string. -/
def readText (s : Text) : Except Fault (Parsed Text) :=
  match skipSpace s with
  | '"' :: t => readString t
  | t => refuseType "a string".toList t

/-! ### The fields of a payload -/

/-- The fields of a payload that were read so far. -/
structure Fields where
  name : Option Text
  settings : Option Json

/-- The payload of the fields; one that is absent is empty. -/
def Fields.payload (f : Fields) : Payload :=
  ⟨f.name.getD [], (f.settings.map Tree.ofJson).getD .null⟩

/-- Refuse a second field of a name.  White space and the end of the object, if
they come next, are passed first. -/
def refuseSecond {α : Type} (field : Text) (s : Text) : Except Fault α :=
  let rest := match skipSpace s with
    | '\x7d' :: t => t
    | t => t
  refuseBefore (.duplicateField field) rest

/-- Read the members of a payload, in which containers nest at most `depth` deep. -/
def fieldsFrom : (fuel : Nat) → (depth : Nat) → (first : Bool) → Fields → Text →
    Except Fault (Parsed Fields)
  | 0, _, _, f, s => .ok (f, s)
  | fuel + 1, depth, first, f, s => do
    match ← nextMember first s with
    | .inr rest => .ok (f, rest)
    | .inl t =>
      let (field, rest) ← readName t
      if field = "name".toList then
        if f.name.isSome then refuseSecond field rest
        else
          let rest ← readColon rest
          let (name, rest) ← readText rest
          fieldsFrom fuel depth false { f with name := some name } rest
      else if field = "settings".toList then
        if f.settings.isSome then refuseSecond field rest
        else
          let rest ← readColon rest
          let (settings, rest) ← readValue depth rest
          fieldsFrom fuel depth false { f with settings := some settings } rest
      else
        let rest ← readColon rest
        let rest ← skipValue rest
        fieldsFrom fuel depth false f rest

/-- Nothing but the closing bracket may follow the two items of a payload. -/
def readClosing (s : Text) : Except Fault Text :=
  match skipSpace s with
  | [] => refuse .eofInList []
  | ']' :: t => .ok t
  | ',' :: t =>
    match skipSpace t with
    | ']' :: u => refuse .trailingComma (']' :: u)
    | u => refuse .trailingCharacters u
  | t => refuse .trailingCharacters t

/-- Read a payload that is an array: its name and then its settings, either of which may be
missing at the end. -/
def readItems (depth : Nat) (s : Text) : Except Fault (Parsed Fields) := do
  match ← nextItem true s with
  | .inr rest => .ok (⟨none, none⟩, rest)
  | .inl t =>
    let (name, rest) ← readText t
    match ← nextItem false rest with
    | .inr rest => .ok (⟨some name, none⟩, rest)
    | .inl t =>
      let (settings, rest) ← readValue depth t
      let rest ← readClosing rest
      .ok (⟨some name, some settings⟩, rest)

/-- Read the fields of a payload, which is an object or an array. -/
def readFields (s : Text) : Except Fault (Parsed Fields) :=
  match skipSpace s with
  | '[' :: t => readItems (maxDepth - 1) t
  | '\x7b' :: t => fieldsFrom (t.length + 1) (maxDepth - 1) true ⟨none, none⟩ t
  | t => refuseType "struct RemoteConfig".toList t

end Json

/-- Read the whole text that a remote sent. -/
def Payload.read (s : Text) : Except Json.Fault Payload := do
  let (fields, rest) ← Json.readFields s
  Json.readEnd rest
  .ok fields.payload

end ConfigTemplate
