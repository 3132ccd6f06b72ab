/-
The layout of YAML documents.

A `Layout` is the state of reading tokens: how far the document is read, which
block collections are open, and which token may yet turn out to begin a key.
`Token.ofText?` reads the tokens of a whole document.

A key may stand without an indicator of its own.  It is known for a key only at
the colon after it, so a token that could begin one is remembered as a
`PendingKey`, and the `key` token goes in front of it later.  Such a key lies on
one line and is at most `maxKeyLength` bytes long.

Design notes: every step takes at least one character, so the length of the
document bounds the number of steps.  A step that does not apply, such as a block
collection within a flow collection, leaves the state as it is; one that is
refused gives `none`.
-/
import ConfigTemplate.Yaml.Scalar
import ConfigTemplate.Yaml.Tag

namespace ConfigTemplate

namespace Yaml

/-- How many bytes a key without an indicator may have. -/
def maxKeyLength : Nat := 1024

/-- A token that begins a key if a colon follows: its place in the document and
among the tokens.  In a block mapping the next key is required to be one. -/
structure PendingKey where
  required : Bool
  position : Nat
  line : Nat
  column : Nat
  offset : Nat

/-- How far the tokens of a document are read. -/
structure Layout where
  cursor : Cursor
  tokens : List Token := []
  /-- The columns of the open block collections, innermost first. -/
  columns : List Nat := []
  keyAllowed : Bool := true
  /-- The key that may have begun, outside of any flow collection that is open since. -/
  pending : Option PendingKey := none
  /-- The keys that may have begun before each open flow collection, innermost first. -/
  outer : List (Option PendingKey) := []

namespace Layout

/-- Whether a flow collection is open, in which columns mean nothing. -/
def inFlow (k : Layout) : Bool :=
  !k.outer.isEmpty

/-- The first column further in than the innermost block collection. -/
def margin (k : Layout) : Nat :=
  match k.columns with
  | [] => 0
  | column :: _ => column + 1

/-- One more token behind the others. -/
def emit (k : Layout) (t : Token) : Layout :=
  { k with tokens := k.tokens ++ [t] }

/-- Go on to `rest`, an end of the document. -/
def moveTo (k : Layout) (rest : Text) : Layout :=
  { k with cursor := k.cursor.moveTo rest }

/-- Say whether a key may begin at the next token. -/
def allowKey (k : Layout) (allowed : Bool) : Layout :=
  { k with keyAllowed := allowed }

/-! ### Block collections -/

/-- Open a block collection at a column, with its token at a position among the
tokens.  It is open already if the column is not further in. -/
def openBlock (k : Layout) (column position : Nat) (t : Token) : Layout :=
  if k.inFlow || column < k.margin then k
  else { k with columns := column :: k.columns, tokens := k.tokens.insertIdx position t }

/-- Open a block collection here, which only a place where a key may begin admits. -/
def openBlockHere (k : Layout) (t : Token) : Option Layout :=
  if k.inFlow then some k
  else if k.keyAllowed then some (k.openBlock k.cursor.column k.tokens.length t)
  else none

/-- Close the block collections that are further in than a column allows. -/
def closeBlocks (k : Layout) (isOpen : Nat → Bool) : Layout :=
  if k.inFlow then k
  else
    let columns := k.columns.dropWhile (!isOpen ·)
    let closed := k.columns.length - columns.length
    { k with columns := columns, tokens := k.tokens ++ List.replicate closed .blockEnd }

/-! ### Pending keys -/

/-- Give up the pending key, which is refused where a key is required. -/
def dropKey (k : Layout) : Option Layout :=
  match k.pending with
  | some p => if p.required then none else some { k with pending := none }
  | none => some k

/-- Remember that a key may begin here. -/
def saveKey (k : Layout) : Option Layout := do
  if k.keyAllowed then
    let k ← k.dropKey
    let required := !k.inFlow && k.margin == k.cursor.column + 1
    some { k with
      pending := some ⟨required, k.tokens.length, k.cursor.line, k.cursor.column, k.cursor.offset⟩ }
  else some k

/-- Whether a pending key would be too long, were it to end here. -/
def isStale (k : Layout) (p : PendingKey) : Bool :=
  p.line < k.cursor.line || p.offset + maxKeyLength < k.cursor.offset

/-- A pending key, unless it has become too long. -/
def refreshKey (k : Layout) : Option PendingKey → Option (Option PendingKey)
  | some p => if k.isStale p then (if p.required then none else some none) else some (some p)
  | none => some none

/-- Give up all pending keys that have become too long. -/
def refreshKeys (k : Layout) : Option Layout := do
  let pending ← k.refreshKey k.pending
  let outer ← k.outer.mapM k.refreshKey
  some { k with pending := pending, outer := outer }

/-! ### Between tokens -/

/-- Pass over white space, comments and line breaks.  Outside of flow collections a
key may begin on the next line, and a tab is no white space where one may.  `first`
and `comment` tell whether a line and a comment begin before the text. -/
def passGap (flow : Bool) : (allowed first comment : Bool) → Text → Bool × Text
  | allowed, _, _, [] => (allowed, [])
  | allowed, first, comment, c :: s =>
    if isBreak c then passGap flow (allowed || !flow) true false s
    else if comment then passGap flow allowed false true s
    else if c == '#' then passGap flow allowed false true s
    else if c == ' ' || (c == '\t' && (flow || !allowed)) || (first && c == '\uFEFF') then
      passGap flow allowed false false s
    else (allowed, c :: s)

/-- Go to the next token, and close the block collections that end before it. -/
def next (k : Layout) : Option Layout := do
  let (allowed, rest) :=
    passGap k.inFlow k.keyAllowed (k.cursor.column == 0) false k.cursor.rest
  let k ← ((k.moveTo rest).allowKey allowed).refreshKeys
  some (k.closeBlocks (· ≤ k.cursor.column))

/-! ### Tokens -/

/-- Close everything at the end of a document. -/
def finish (k : Layout) : Option Layout :=
  (k.closeBlocks fun _ => false).dropKey

/-- Read a directive, which ends the document before it. -/
def directive (k : Layout) (s : Text) : Option Layout := do
  let k ← k.finish
  let (t, rest) ← readDirective s
  some (((k.allowKey false).emit t).moveTo rest)

/-- Read the marker between or after documents, of three characters. -/
def marker (k : Layout) (t : Token) : Option Layout := do
  let k ← k.finish
  some (((k.allowKey false).emit t).moveTo (k.cursor.rest.drop 3))

/-- Open a flow collection, which may begin a key as a whole.  Keys may begin in it. -/
def openFlow (k : Layout) (t : Token) (rest : Text) : Option Layout := do
  let k ← k.saveKey
  let k := { k with pending := none, outer := k.pending :: k.outer, keyAllowed := true }
  some ((k.emit t).moveTo rest)

/-- Close a flow collection; the key pending before it is pending again. -/
def closeFlow (k : Layout) (t : Token) (rest : Text) : Option Layout := do
  let k ← k.dropKey
  let k := match k.outer with
    | pending :: outer => { k with pending := pending, outer := outer }
    | [] => k
  some (((k.allowKey false).emit t).moveTo rest)

/-- Read a comma, behind which a key may begin. -/
def comma (k : Layout) (rest : Text) : Option Layout := do
  let k ← k.dropKey
  some (((k.allowKey true).emit .comma).moveTo rest)

/-- Read the indicator of an item, which opens a block sequence if none is open here. -/
def entry (k : Layout) (rest : Text) : Option Layout := do
  let k ← k.openBlockHere .blockSequence
  let k ← k.dropKey
  some (((k.allowKey true).emit .entry).moveTo rest)

/-- Read the indicator of a key, which opens a block mapping if none is open here. -/
def key (k : Layout) (rest : Text) : Option Layout := do
  let k ← k.openBlockHere .blockMapping
  let k ← k.dropKey
  some (((k.allowKey (!k.inFlow)).emit .key).moveTo rest)

/-- Read the indicator of a value, which tells that the pending key is one. -/
def value (k : Layout) (rest : Text) : Option Layout := do
  let k ← match k.pending with
    | some p =>
      let k := { k with tokens := k.tokens.insertIdx p.position .key, pending := none }
      some ((k.openBlock p.column p.position .blockMapping).allowKey false)
    | none => (k.openBlockHere .blockMapping).map (·.allowKey (!k.inFlow))
  some ((k.emit .value).moveTo rest)

/-- Add a token that may begin a key. -/
def content (k : Layout) (allowed : Bool) (t : Token) (rest : Text) : Option Layout := do
  let k ← k.saveKey
  some (((k.allowKey allowed).emit t).moveTo rest)

/-- Read a block scalar behind its indicator.  It is no key, and one may begin behind it. -/
def block (k : Layout) (folded : Bool) (s : Text) : Option Layout := do
  let k ← k.dropKey
  let (text, rest) ← readBlock folded k.margin s
  some (((k.allowKey true).emit (.scalar .block text)).moveTo rest)

/-- Whether a plain scalar may begin with the character `c`. -/
def beginsPlain (flow : Bool) (c : Char) (s : Text) : Bool :=
  if c == '-' then !startsIn [' ', '\t'] s
  else if c == '?' || c == ':' then !flow && !atGap s
  else !isWhite c && !isBreak c && !(([',', '[', ']', '\x7b', '\x7d', '#', '&', '*', '!', '|',
    '>', '\'', '"', '%', '@', '\x60'] : Text).contains c)

/-- Read the token that begins with the character `c`. -/
def read (k : Layout) (c : Char) (s : Text) : Option Layout :=
  let first := k.cursor.column == 0
  if first && c == '%' then k.directive s
  else if first && isMarker (c :: s) then
    k.marker (if c = '-' then .documentStart else .documentEnd)
  else if c = '[' then k.openFlow .sequenceOpen s
  else if c = '\x7b' then k.openFlow .mappingOpen s
  else if c = ']' then k.closeFlow .sequenceClose s
  else if c = '\x7d' then k.closeFlow .mappingClose s
  else if c = ',' then k.comma s
  else if c == '-' && atGap s then k.entry s
  else if c == '?' && (k.inFlow || atGap s) then k.key s
  else if c == ':' && (k.inFlow || atGap s) then k.value s
  else if c = '*' then do
    let (name, rest) ← readName s
    k.content false (.alias name) rest
  else if c = '&' then do
    let (name, rest) ← readName s
    k.content false (.anchor name) rest
  else if c = '!' then do
    let ((handle, suffix), rest) ← readTag k.inFlow (c :: s)
    k.content false (.tag handle suffix) rest
  else if c == '|' && !k.inFlow then k.block false s
  else if c == '>' && !k.inFlow then k.block true s
  else if c = '\'' then do
    let (text, rest) ← readQuoted false s
    k.content false (.scalar .quoted text) rest
  else if c = '"' then do
    let (text, rest) ← readQuoted true s
    k.content false (.scalar .quoted text) rest
  else if beginsPlain k.inFlow c s then do
    let ((text, broken), rest) ← readPlain k.inFlow k.margin k.cursor.column (c :: s)
    k.content broken (.scalar .plain text) rest
  else none

/-- Read tokens to the end of the document, in at most `fuel` steps. -/
def readAll : (fuel : Nat) → Layout → Option Layout
  | 0, _ => none
  | fuel + 1, k => do
    let k ← k.next
    match k.cursor.rest with
    | [] => k.finish
    | c :: s => readAll fuel (← k.read c s)

end Layout

/-- The tokens of a whole document, if they can all be read. -/
def Token.ofText? (s : Text) : Option (List Token) :=
  (Layout.readAll (s.length + 1) { cursor := Cursor.start s }).map (·.tokens)

end Yaml

end ConfigTemplate
