/-
Scalars of YAML documents.

Three readers, one for each way to write a scalar.  Each goes through the text
once, character by character, and returns the content and what follows it.

* `readPlain`: without quotes; also tells whether the scalar was followed by a line
  break, after which a key may begin;
* `readQuoted`: in single or double quotes;
* `readBlock`: literal or folded lines, told apart by their indentation.

A plain scalar and a block scalar end by indentation.  `margin` is the first column
that is further in than the innermost block collection around the scalar.
-/
import ConfigTemplate.Decimal.Numeral
import ConfigTemplate.Yaml.Cursor

namespace ConfigTemplate

namespace Yaml

/-! ### Plain scalars -/

/-- Whether an indicator that ends a plain scalar comes next. -/
def endsPlain (flow : Bool) : Text → Bool
  | [] => true
  | ':' :: s => atGap s
  | c :: _ => flow && [',', '[', ']', '\x7b', '\x7d'].contains c

/-- Whether a colon comes next that could or could not end a plain scalar of a flow
collection. -/
def isUnclear : Text → Bool
  | ':' :: s => startsIn [',', '?', '[', ']', '\x7b', '\x7d'] s
  | _ => false

/-- The content of a plain scalar, of which `gap` is read but may not belong to it. -/
def plainFrom (flow : Bool) (margin : Nat) :
    (column : Nat) → Gap → Text → Option ((Text × Bool) × Text)
  | _, gap, [] => some (([], gap.isBroken), [])
  | column, gap, c :: s =>
    if isBreak c then plainFrom flow margin 0 (gap.add c) s
    else if isWhite c then
      if gap.isBroken && c == '\t' && column < margin then none
      else plainFrom flow margin (column + 1) (gap.add c) s
    else if !gap.isEmpty &&
        (c == '#' || (!flow && column < margin) || (column == 0 && isMarker (c :: s))) then
      some (([], gap.isBroken), c :: s)
    else if flow && isUnclear (c :: s) then none
    else if endsPlain flow (c :: s) then some (([], gap.isBroken), c :: s)
    else do
      let ((content, broken), rest) ← plainFrom flow margin (column + 1) .empty s
      some ((gap.text ++ c :: content, broken), rest)

/-- Read a plain scalar: its content, and whether a line ended after it. -/
def readPlain (flow : Bool) (margin column : Nat) (s : Text) : Option ((Text × Bool) × Text) :=
  plainFrom flow margin column .empty s

/-! ### Quoted scalars -/

/-- The character whose number stands in `width` hexadecimal digits. -/
def numbered (width : Nat) (s : Text) : Option (Char × Nat) := do
  let ds := s.take width
  guard (ds.length = width)
  let n ← Decimal.radixValue 16 ds
  if h : n.isValidChar then some (Char.ofNatAux n h, 1 + width) else none

/-- The character of an escape, and the number of characters after the backslash. -/
def escape : Text → Option (Char × Nat)
  | '0' :: _ => some ('\x00', 1)
  | 'a' :: _ => some ('\x07', 1)
  | 'b' :: _ => some ('\x08', 1)
  | 't' :: _ | '\t' :: _ => some ('\t', 1)
  | 'n' :: _ => some ('\n', 1)
  | 'v' :: _ => some ('\x0b', 1)
  | 'f' :: _ => some ('\x0c', 1)
  | 'r' :: _ => some ('\r', 1)
  | 'e' :: _ => some ('\x1b', 1)
  | ' ' :: _ => some (' ', 1)
  | '"' :: _ => some ('"', 1)
  | '/' :: _ => some ('/', 1)
  | '\\' :: _ => some ('\\', 1)
  | 'N' :: _ => some ('\u0085', 1)
  | '_' :: _ => some ('\u00a0', 1)
  | 'L' :: _ => some ('\u2028', 1)
  | 'P' :: _ => some ('\u2029', 1)
  | 'x' :: s => numbered 2 s
  | 'u' :: s => numbered 4 s
  | 'U' :: s => numbered 8 s
  | _ => none

/-- What stands next in a quoted scalar. -/
inductive Piece where
  | close
  /-- A character, written with `used` more after its first. -/
  | char (c : Char) (used : Nat)
  /-- An escaped line break. -/
  | joint

/-- The piece of a quoted scalar that begins with the character `c`. -/
def piece (double : Bool) (c : Char) (s : Text) : Option Piece :=
  if double then
    if c = '"' then some .close
    else if c ≠ '\\' then some (.char c 0)
    else match s with
      | [] => none
      | d :: _ => if isBreak d then some .joint else (escape s).map fun e => .char e.1 e.2
  else if c ≠ '\'' then some (.char c 0)
  else match s with
    | '\'' :: _ => some (.char '\'' 1)
    | _ => some .close

/-- The content of a quoted scalar up to its closing quote.  The first `skip`
characters belong to a piece read before; `first` tells whether a line begins here. -/
def quotedFrom (double : Bool) : (skip : Nat) → (first : Bool) → Gap → Text → Option (Text × Text)
  | _, _, _, [] => none
  | skip + 1, first, gap, _ :: s => quotedFrom double skip first gap s
  | 0, first, gap, c :: s =>
    if isBreak c || isWhite c then quotedFrom double 0 (isBreak c) (gap.add c) s
    else if first && isMarker (c :: s) then none
    else match piece double c s with
      | none => none
      | some .close => some (gap.text, s)
      | some (.char d used) => do
        let (content, rest) ← quotedFrom double used false .empty s
        some (gap.text ++ d :: content, rest)
      | some .joint => do
        let (content, rest) ← quotedFrom double 1 true (.broken [] []) s
        some (gap.text ++ content, rest)

/-- Read a quoted scalar whose opening quote is read. -/
def readQuoted (double : Bool) (s : Text) : Option (Text × Text) :=
  quotedFrom double 0 false .empty s

/-! ### Block scalars -/

/-- What becomes of the line breaks at the end of a block scalar. -/
inductive Chomp where
  | strip
  | clip
  | keep

namespace Chomp

/-- The indicator of a way to end. -/
def ofChar? (c : Char) : Option Chomp :=
  if c = '-' then some strip else if c = '+' then some keep else none

/-- The end of a block scalar, of the last break and the empty lines after it. -/
def ending : Chomp → (lead more : Text) → Text
  | strip, _, _ => []
  | clip, lead, _ => lead
  | keep, lead, more => lead ++ more

end Chomp

/-- The number of an indentation indicator, if a digit comes next. -/
def readIncrement : Text → Option (Option Nat × Text)
  | [] => some (none, [])
  | c :: s =>
    if c = '0' then none
    else if c.isDigit then some (some (c.toNat - '0'.toNat), s)
    else some (none, c :: s)

/-- The indicators of a block scalar, in either order. -/
def readIndicators (s : Text) : Option ((Chomp × Option Nat) × Text) :=
  match s.head?.bind Chomp.ofChar? with
  | some chomp => do
    let (increment, rest) ← readIncrement (s.drop 1)
    some ((chomp, increment), rest)
  | none => do
    let (increment, rest) ← readIncrement s
    match increment, rest.head?.bind Chomp.ofChar? with
    | some n, some chomp => some ((chomp, some n), rest.drop 1)
    | _, _ => some ((.clip, increment), rest)

/-- The widest indentation of the empty lines here and of the first line after them.
A tab is refused. -/
def widestIndent : (column widest : Nat) → Text → Option Nat
  | column, widest, [] => some (max column widest)
  | column, widest, c :: s =>
    if c = ' ' then widestIndent (column + 1) widest s
    else if c = '\t' then none
    else if isBreak c then widestIndent 0 (max column widest) s
    else some (max column widest)

mutual

/-- The content of a block scalar from the indentation of a line on.  `lead` is the
break before the line and `more` are those of the empty lines since; `dented` tells
whether the last line of text began with white space. -/
def blockIndent (folded : Bool) (chomp : Chomp) (indent : Nat) (column : Nat) (dented : Bool)
    (lead more : Text) : Text → Option (Text × Text)
  | [] => some (chomp.ending lead more, [])
  | c :: s =>
    if column < indent && c == ' ' then
      blockIndent folded chomp indent (column + 1) dented lead more s
    else if column < indent && c == '\t' then none
    else if isBreak c then blockIndent folded chomp indent 0 dented lead (more ++ [c]) s
    else if column < indent then some (chomp.ending lead more, c :: s)
    else do
      let (content, rest) ← blockLine folded chomp indent (isWhite c) s
      let joint := if folded && !dented && !isWhite c then foldBreaks lead more else lead ++ more
      some (joint ++ c :: content, rest)

/-- The content of a block scalar from the middle of a line on. -/
def blockLine (folded : Bool) (chomp : Chomp) (indent : Nat) (dented : Bool) :
    Text → Option (Text × Text)
  | [] => some (chomp.ending [] [], [])
  | c :: s =>
    if isBreak c then blockIndent folded chomp indent 0 dented [c] [] s
    else do
      let (content, rest) ← blockLine folded chomp indent dented s
      some (c :: content, rest)

end

/-- Read a block scalar whose first indicator is read. -/
def readBlock (folded : Bool) (margin : Nat) (s : Text) : Option (Text × Text) := do
  let ((chomp, increment), rest) ← readIndicators s
  let lines ← endLine rest
  let indent ← match increment with
    | some n => some (margin - 1 + n)
    | none => (widestIndent 0 0 lines).map (max · (max margin 1))
  blockIndent folded chomp indent 0 false [] [] lines

end Yaml

end ConfigTemplate
