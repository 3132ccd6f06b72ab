/-
Strings and numerals of JSON.

Each reader takes what is left of a document and returns what it read with the
rest, or a fault.  `readString` starts after the opening quote, `readNumber` after
the minus sign, if there is one.  Of the digits of a numeral with a fraction or an
exponent only the leading ones count, as many as make 64 bits.

Design notes: `stringFrom` counts the characters of an escape that it still has
to pass over, so it is plain recursion on the text.
-/
import ConfigTemplate.Json.Fault

namespace ConfigTemplate

namespace Json

/-- A part of a document, with the rest. -/
abbrev Parsed (α : Type) := α × Text

/-- A fault at the first character of `rest`, which the reader had looked at. -/
def refuse {α : Type} (cause : Cause) (rest : Text) : Except Fault α :=
  .error ⟨cause, rest, 1⟩

/-- A fault before the first character of `rest`. -/
def refuseBefore {α : Type} (cause : Cause) (rest : Text) : Except Fault α :=
  .error ⟨cause, rest, 0⟩

/-- White space of JSON, which is less than `Text.isBlank` takes. -/
def isSpace (c : Char) : Bool :=
  c = ' ' || c = '\n' || c = '\t' || c = '\r'

/-- What is left after white space. -/
def skipSpace (s : Text) : Text :=
  s.dropWhile isSpace

/-- Read the rest of a word of which the first letter is known. -/
def readWord {α : Type} (a : α) : Text → Text → Except Fault (Parsed α)
  | [], s => .ok (a, s)
  | _ :: _, [] => refuse .eofInValue []
  | w :: ws, c :: s => if c = w then readWord a ws s else refuse .expectedWord (c :: s)

/-! ### Strings -/

/-- The four hexadecimal digits of an escape.  Four bytes are taken whatever they
are, and then looked at. -/
def readHex (s : Text) : Except Fault Nat :=
  if s.byteLength < 4 then refuse .eofInString []
  else match Decimal.radixValue 16 (s.take 4) with
    | some n => .ok n
    | none => .error ⟨.invalidEscape, s, 4⟩

/-- The first halves of surrogate pairs. -/
def isLeading (n : Nat) : Bool :=
  0xD800 ≤ n && n ≤ 0xDBFF

/-- The second halves of surrogate pairs. -/
def isTrailing (n : Nat) : Bool :=
  0xDC00 ≤ n && n ≤ 0xDFFF

/-- The character of a numeric escape, of which the first number is known, and
the number of characters read after it: a leading surrogate needs a second escape. -/
def readPair (n : Nat) (s : Text) : Except Fault (Char × Nat) :=
  if isTrailing n then refuseBefore .loneSurrogate s
  else if isLeading n then
    match s with
    | [] => refuse .eofInString []
    | '\\' :: t =>
      match t with
      | [] => refuse .eofInString []
      | 'u' :: u => do
        let m ← readHex u
        if isTrailing m then
          .ok (Char.ofNat (0x10000 + (n - 0xD800) * 0x400 + (m - 0xDC00)), 6)
        else refuseBefore .loneSurrogate (u.drop 4)
      | t => refuse .unpairedSurrogate t
    | s => refuse .unpairedSurrogate s
  else .ok (Char.ofNat n, 0)

/-- The character of an escape, and the number of characters after the backslash. -/
def readEscape : Text → Except Fault (Char × Nat)
  | [] => refuse .eofInString []
  | '"' :: _ => .ok ('"', 1)
  | '\\' :: _ => .ok ('\\', 1)
  | '/' :: _ => .ok ('/', 1)
  | 'b' :: _ => .ok ('\x08', 1)
  | 'f' :: _ => .ok ('\x0c', 1)
  | 'n' :: _ => .ok ('\n', 1)
  | 'r' :: _ => .ok ('\r', 1)
  | 't' :: _ => .ok ('\t', 1)
  | 'u' :: s => do
    let n ← readHex s
    let (c, used) ← readPair n (s.drop 4)
    .ok (c, 5 + used)
  | s => refuse .invalidEscape s

/-- The characters of a string up to its closing quote; the first `skip` belong to
an escape read before. -/
def stringFrom : (skip : Nat) → Text → Except Fault (Parsed Text)
  | _, [] => refuse .eofInString []
  | skip + 1, _ :: s => stringFrom skip s
  | 0, c :: s =>
    if c = '"' then .ok ([], s)
    else if c = '\\' then do
      let (d, used) ← readEscape s
      let (ds, rest) ← stringFrom used s
      .ok (d :: ds, rest)
    else if c.toNat < 0x20 then refuse .controlCharacter (c :: s)
    else do
      let (ds, rest) ← stringFrom 0 s
      .ok (c :: ds, rest)

/-- Read a string whose opening quote is read. -/
def readString (s : Text) : Except Fault (Parsed Text) :=
  stringFrom 0 s

/-! ### Numerals -/

/-- The digits before the point.  A zero stands alone. -/
def readWhole : Text → Except Fault (Parsed Text)
  | [] => refuse .eofInValue []
  | c :: s =>
    if c = '0' then
      match s with
      | d :: t => if d.isDigit then refuse .invalidNumber (d :: t) else .ok (['0'], d :: t)
      | [] => .ok (['0'], [])
    else if c.isDigit then .ok (c :: s.takeWhile Char.isDigit, s.dropWhile Char.isDigit)
    else refuse .invalidNumber (c :: s)

/-- The digits after the point, of which there is at least one. -/
def readFraction (s : Text) : Except Fault (Parsed Text) :=
  match s.takeWhile Char.isDigit, s.dropWhile Char.isDigit with
  | [], [] => refuse .eofInValue []
  | [], rest => refuse .invalidNumber rest
  | ds, rest => .ok (ds, rest)

/-- The greatest exponent that is counted exactly. -/
def maxExponent : Nat :=
  Nat.pow 2 31 - 1

/-- The digits of an exponent from the one on that takes it beyond `maxExponent`. -/
def excess (n : Nat) : Text → Text
  | [] => []
  | c :: s =>
    let m := 10 * n + (c.toNat - '0'.toNat)
    if maxExponent < m then c :: s else excess m s

/-- Whether an exponent is negative, and what follows its sign. -/
def exponentSign : Text → Bool × Text
  | '+' :: s => (false, s)
  | '-' :: s => (true, s)
  | s => (false, s)

/-- Read the exponent of a numeral after its letter, with its digits known. -/
def readExponent (negative : Bool) (x : Decimal.Significand) (s : Text) :
    Except Fault (Parsed Number) :=
  let (below, t) := exponentSign s
  match t.takeWhile Char.isDigit, t.dropWhile Char.isDigit with
  | [], [] => refuse .eofInValue []
  | [], rest => refuse .invalidNumber rest
  | ds, rest =>
    let e := Decimal.digitsValue ds
    if e ≤ maxExponent then
      match Number.ofSignificand? negative (x.shift (if below then -e else e)) with
      | some n => .ok (n, rest)
      | none => refuseBefore .numberOutOfRange rest
    else if below || x.isZero then
      .ok (.float (Binary64.zero negative), rest)
    else refuse .numberOutOfRange (excess 0 t)

/-- Read a number behind its minus sign, if it has one.  Only digits make an integer, and a
fraction or an exponent makes a binary64 number. -/
def readNumber (negative : Bool) (s : Text) : Except Fault (Parsed Number) := do
  let (whole, rest) ← readWhole s
  let outcome (n : Option Number) (rest : Text) : Except Fault (Parsed Number) :=
    match n with
    | some n => .ok (n, rest)
    | none => refuseBefore .numberOutOfRange rest
  match rest with
  | '.' :: t => do
    let (fraction, rest) ← readFraction t
    let x := Decimal.Significand.ofParts whole fraction
    match rest with
    | 'e' :: u | 'E' :: u => readExponent negative x u
    | _ => outcome (Number.ofSignificand? negative x) rest
  | 'e' :: t | 'E' :: t => readExponent negative (.ofParts whole []) t
  | _ => outcome (Number.ofDigits? negative whole) rest

end Json

end ConfigTemplate
