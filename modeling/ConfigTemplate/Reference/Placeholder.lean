/-
Placeholders.

A placeholder is a path between double braces, and it may have further
placeholders in its path.  `placeholder?` recognises the one that a text begins
with.  The outermost may have a sigil in front of its path; the tags of sections
have no references in theirs.

Design notes: the interior is read by a machine with a stack of `Level`s, one for
each pair of braces that is open.  It never looks back, so reading is recursion
on the text, and nothing is a placeholder that nests deeper than `maxNesting`.
-/
import ConfigTemplate.Reference.Token

namespace ConfigTemplate

namespace Placeholder

/-- How many braces may be open at once. -/
def maxNesting : Nat := 8

/-- The characters of a path between braces, apart from the braces of nested references. -/
def isPathChar (c : Char) : Bool :=
  c.isAlphanum || c = '.' || c = '-' || c = '_' || c = ' ' || c = '\t'

/-- The blanks that a path may have around it.  They are path characters too. -/
def isPad (c : Char) : Bool :=
  c = ' ' || c = '\t'

/-- What has been read of the interior of an open pair of braces. -/
structure Level where
  pad : Text
  /-- The path as written so far. -/
  path : Text
  /-- The end of the path that is plain text. -/
  pending : Text
  /-- The parts of the path before that. -/
  parts : List Part

namespace Level

/-- A level of which nothing was read yet. -/
def empty : Level := ⟨[], [], [], []⟩

/-- One more character of plain text.  Blanks before the path are not part of it. -/
def push (l : Level) (c : Char) : Level :=
  if l.path.isEmpty && isPad c then { l with pad := l.pad ++ [c] }
  else { l with path := l.path ++ [c], pending := l.pending ++ [c] }

/-- The parts with the plain text at the end. -/
def allParts (l : Level) : List Part :=
  if l.pending.isEmpty then l.parts else l.parts ++ [.text l.pending]

/-- The path of closed braces, which is not blank. -/
def path? (l : Level) : Option Path :=
  let raw := l.path.trim
  if raw.isEmpty then none else some ⟨raw, l.allParts⟩

/-- The closed braces as written. -/
def text (l : Level) : Text :=
  '\x7b' :: '\x7b' :: (l.pad ++ l.path ++ ['\x7d', '\x7d'])

/-- One more reference, written as `text`. -/
def pushRef (l : Level) (p : Path) (text : Text) : Level :=
  { l with path := l.path ++ text, pending := [], parts := l.allParts ++ [.ref p] }

end Level

/-- Read on in the innermost open braces `l`, which stand in the levels `outer`:
the outermost level when its braces close, or `none` where no placeholder goes on
so. -/
def interior : (outer : List Level) → (l : Level) → Text → Option Level
  | _, _, [] => none
  | outer, l, c :: s =>
    if isPathChar c then interior outer (l.push c) s
    else match c, s with
      | '\x7b', '\x7b' :: s =>
        if outer.length + 1 < maxNesting then interior (l :: outer) .empty s else none
      | '\x7d', '\x7d' :: s =>
        match outer, l.path? with
        | [], _ => some l
        | o :: outer, some p => interior outer (o.pushRef p l.text) s
        | _ :: _, none => none
      | _, _ => none

/-- The sigil of a placeholder and what it makes of it. -/
def sigil? (c : Char) : Option Kind :=
  if c = '#' then some .opening
  else if c = '^' then some .inverted
  else if c = '/' then some .closing
  else if c = '&' then some .ampersand
  else none

/-- The kind that a placeholder has without a sigil. -/
def plainKind (p : Path) : Kind :=
  if p.isNested then .composed else .name

/-- Whether a placeholder of this kind may have references in its path. -/
def mayNest : Kind → Bool
  | .opening | .inverted | .closing => false
  | _ => true

/-- The placeholder with the text `lead` between its braces and its interior. -/
def lexeme? (lead : Text) (kind : Path → Kind) (l : Level) : Option Lexeme :=
  l.path?.bind fun p =>
    if p.isNested && !mayNest (kind p) then none
    else some ⟨kind p, p, '\x7b' :: '\x7b' :: (lead ++ l.pad ++ l.path ++ ['\x7d', '\x7d'])⟩

end Placeholder

open Placeholder in
/-- The placeholder that a text begins with. -/
def placeholder? : Recogniser
  | '\x7b' :: '\x7b' :: s =>
    let pad := s.takeWhile isPad
    match s.dropWhile isPad with
    | [] => none
    | c :: t =>
      match sigil? c with
      | some kind => (interior [] .empty t).bind (lexeme? (pad ++ [c]) fun _ => kind)
      | none => (interior [] .empty (c :: t)).bind (lexeme? pad plainKind)
  | _ => none

/-- The placeholders of a text. -/
def placeholders (s : Text) : Segments :=
  scan placeholder? s

/-- The placeholders of a text that is line `n`. -/
def placeholdersOnLine (s : Text) (n : Nat) : List Token :=
  (placeholders s).tokens.map (·.onLine n)

end ConfigTemplate
