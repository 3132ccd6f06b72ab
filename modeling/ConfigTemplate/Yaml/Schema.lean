/-
What the scalars of YAML documents stand for.

A plain scalar without a tag is null, a truth value or a number if it is spelled
like one, and a string otherwise.  A quoted or block scalar is a string.  A tag of
the common kinds overrides both, and then the spelling must fit.

* `readInteger`: integers, in decimal or with a letter for the base;
* `readFloat`: numbers with a fraction or an exponent;
* `ofPlain?` and `ofScalar?`: the trees of scalars.
-/
import ConfigTemplate.Tree.Basic
import ConfigTemplate.Yaml.Tag

namespace ConfigTemplate

namespace Yaml

/-- The words for null, the empty text not among them. -/
def isNullWord (s : Text) : Bool :=
  ["null".toList, "Null".toList, "NULL".toList, ['~']].contains s

/-- The truth value that a word stands for. -/
def readBool (s : Text) : Option Bool :=
  if ["true".toList, "True".toList, "TRUE".toList].contains s then some true
  else if ["false".toList, "False".toList, "FALSE".toList].contains s then some false
  else none

/-- The words for what is beyond the finite numbers. -/
def isInfinite (s : Text) : Bool :=
  [".inf".toList, ".Inf".toList, ".INF".toList, "+.inf".toList, "+.Inf".toList, "+.INF".toList,
    "-.inf".toList, "-.Inf".toList, "-.INF".toList, ".nan".toList, ".NaN".toList,
    ".NAN".toList].contains s

/-- Whether digits begin with a zero that is not all of them. -/
def hasLeadingZero : Text → Bool
  | '0' :: d :: ds => (d :: ds).all Char.isDigit
  | _ => false

/-- The text without its sign, and whether that is a minus. -/
def splitSign : Text → Bool × Text
  | '-' :: s => (true, s)
  | '+' :: s => (false, s)
  | s => (false, s)

/-- The number that a run of digits spells, of which there is at least one. -/
def readDigits (base : Nat) (ds : Text) : Option Nat :=
  if ds = [] then none else Decimal.radixValue base ds

/-- The number that digits without a sign spell, in the base that their first letters tell. -/
def readMagnitude : Text → Option Nat
  | '0' :: 'x' :: ds => readDigits 16 ds
  | '0' :: 'o' :: ds => readDigits 8 ds
  | '0' :: 'b' :: ds => readDigits 2 ds
  | ds => if hasLeadingZero ds then none else readDigits 10 ds

/-- The integer of at most 128 bits that a text spells. -/
def readInteger (s : Text) : Option Int := do
  let (negative, ds) := splitSign s
  let n ← readMagnitude ds
  if negative then
    if n ≤ Nat.pow 2 127 then some (-n) else none
  else if n < Nat.pow 2 128 then some n else none

/-- The exponent that a text spells, with a sign or without. -/
def readExponent (s : Text) : Option Int :=
  let (negative, ds) := splitSign s
  (readDigits 10 ds).map fun (n : Nat) => if negative then -n else n

/-- The finite number that a numeral spells, with a fraction and an exponent or
without. -/
def readFloat (s : Text) : Option Number := do
  let (negative, digits) := splitSign s
  let whole := digits.takeWhile Char.isDigit
  let rest := digits.dropWhile Char.isDigit
  let (fraction, rest) := match rest with
    | '.' :: t => (t.takeWhile Char.isDigit, t.dropWhile Char.isDigit)
    | t => ([], t)
  guard (whole ++ fraction ≠ [])
  let exponent ← match rest with
    | [] => some 0
    | 'e' :: t | 'E' :: t => readExponent t
    | _ => none
  Number.ofDecimal? negative whole fraction exponent

/-! ### Trees -/

/-- The tree of a plain scalar without a tag.  A number that no number of a tree is,
infinite or an integer of more than 64 bits, is refused. -/
def ofPlain? (s : Text) : Option Tree :=
  if s = [] ∨ isNullWord s then some .null
  else match readBool s, readInteger s with
    | some b, _ => some (.bool b)
    | none, some n => (Number.ofInt? n).map .number
    | none, none =>
      if hasLeadingZero (splitSign s).2 then some (.string s)
      else if isInfinite s then none
      else match readFloat s with
        | some x => some (.number x)
        | none => some (.string s)

/-- The tag of a common kind of thing. -/
def commonTag (kind : String) : Bytes :=
  Utf8.encode ("tag:yaml.org,2002:".toList ++ kind.toList)

/-- Whether a tag is one of the document's own, which begin with an exclamation mark. -/
def isOwn (tag : Bytes) : Bool :=
  tag.head? == some exclamation

/-- Whether a tag has a meaning only to the document: it is one of its own, and a
name. -/
def isLocal : Option Bytes → Bool
  | some tag => isOwn tag && (Utf8.decode? tag).isSome
  | none => false

/-- The tree of a scalar.  A tag of the document's own that is no name is as good as
none. -/
def ofScalar? (tag : Option Bytes) (style : Style) (s : Text) : Option Tree :=
  match tag with
  | none => if style = .plain then ofPlain? s else some (.string s)
  | some t =>
    if isLocal tag then none
    else if isOwn t && style == .plain then ofPlain? s
    else if t = commonTag "bool" then (readBool s).map .bool
    else if t = commonTag "int" then ((readInteger s).bind Number.ofInt?).map .number
    else if t = commonTag "float" then (readFloat s).map .number
    else if t = commonTag "null" then (if isNullWord s then some .null else none)
    else some (.string s)

end Yaml

end ConfigTemplate
