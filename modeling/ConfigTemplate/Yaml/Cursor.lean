/-
Places in a YAML document.

A document is read with its line breaks made alike: `unifyBreaks` writes a newline
for each carriage return, carriage return with newline, and next-line character.
The separators U+2028 and U+2029 break lines too but stay what they are.

* `Cursor`: what is left of the document, on which line and in which column that
  begins, and how many bytes of the line are before it;
* `Gap`: the white space and the line breaks between two runs of a scalar, which
  `Gap.text` folds.
-/
import ConfigTemplate.Text.Basic

namespace ConfigTemplate

namespace Yaml

/-- The characters that a document may hold. -/
def isAllowed (c : Char) : Bool :=
  let n := c.toNat
  n == 0x9 || n == 0xA || n == 0xD || (0x20 ≤ n && n ≤ 0x7E) || n == 0x85 ||
    (0xA0 ≤ n && n ≤ 0xFFFD) || 0x10000 ≤ n

/-- The text with one character for each line break. -/
def unifyBreaks : Text → Text
  | [] => []
  | '\r' :: '\n' :: s => '\n' :: unifyBreaks s
  | c :: s => (if c = '\r' || c = '\u0085' then '\n' else c) :: unifyBreaks s

/-- The characters that end a line, once the breaks are made alike. -/
def isBreak (c : Char) : Bool :=
  c == '\n' || c == '\u2028' || c == '\u2029'

/-- The white space within a line. -/
def isWhite (c : Char) : Bool :=
  c == ' ' || c == '\t'

/-- Whether a word is over here: the text is, or white space or a line break follows. -/
def atGap : Text → Bool
  | [] => true
  | c :: _ => isWhite c || isBreak c

/-- Whether a text begins with one of the characters. -/
def startsIn (cs : Text) : Text → Bool
  | [] => false
  | c :: _ => cs.contains c

/-- Whether a line that begins here is the marker between or after documents. -/
def isMarker : Text → Bool
  | '-' :: '-' :: '-' :: s => atGap s
  | '.' :: '.' :: '.' :: s => atGap s
  | _ => false

/-- What follows the line that ends here, after white space and a comment. -/
def endLine (s : Text) : Option Text :=
  let t := s.dropWhile isWhite
  let t := if startsIn ['#'] t then t.dropWhile (!isBreak ·) else t
  match t with
  | [] => some []
  | c :: u => if isBreak c then some u else none

/-- A place in a document: what is left, the number of lines before, and the numbers
of characters and of bytes before on the same line. -/
structure Cursor where
  rest : Text
  line : Nat
  column : Nat
  offset : Nat

namespace Cursor

/-- The beginning of a document. -/
def start (s : Text) : Cursor :=
  ⟨s, 0, 0, 0⟩

/-- The place `n` characters on. -/
def skip : Nat → Cursor → Cursor
  | 0, k => k
  | _ + 1, ⟨[], line, column, offset⟩ => ⟨[], line, column, offset⟩
  | n + 1, ⟨c :: s, line, column, offset⟩ =>
    if isBreak c then skip n ⟨s, line + 1, 0, 0⟩
    else skip n ⟨s, line, column + 1, offset + c.utf8Size⟩

/-- The place where `rest`, an end of the document, is left. -/
def moveTo (k : Cursor) (rest : Text) : Cursor :=
  k.skip (k.rest.length - rest.length)

theorem skip_rest (n : Nat) (k : Cursor) : (k.skip n).rest = k.rest.drop n := by
  induction n generalizing k with
  | zero => rfl
  | succ n ih =>
    obtain ⟨_ | ⟨c, s⟩, line, column, offset⟩ := k
    · rfl
    · unfold skip
      split <;> exact ih _

/-- Moving to an end of the text gets there. -/
theorem moveTo_rest {k : Cursor} {s t : Text} (h : k.rest = s ++ t) : (k.moveTo t).rest = t := by
  simp [moveTo, skip_rest, h]

end Cursor

/-! ### Folding -/

/-- A line break and the breaks of the empty lines after it, folded: a newline joins
two lines by a blank, and empty lines stand for themselves. -/
def foldBreaks (lead more : Text) : Text :=
  if lead = ['\n'] then (if more = [] then [' '] else more) else lead ++ more

/-- What stands between two runs of a scalar: white space, or a first line break,
which may be escaped, and the breaks after it. -/
inductive Gap where
  | white (s : Text)
  | broken (lead more : Text)

namespace Gap

/-- A gap of nothing. -/
def empty : Gap :=
  white []

/-- Whether there is neither white space nor a line break. -/
def isEmpty : Gap → Bool
  | white [] => true
  | _ => false

/-- Whether a line ends in the gap. -/
def isBroken : Gap → Bool
  | white _ => false
  | broken _ _ => true

/-- The gap with one more character.  White space beside a line break is lost. -/
def add : Gap → Char → Gap
  | white s, c => if isBreak c then broken [c] [] else white (s ++ [c])
  | broken lead more, c => if isBreak c then broken lead (more ++ [c]) else broken lead more

/-- What a gap puts into a scalar. -/
def text : Gap → Text
  | white s => s
  | broken lead more => foldBreaks lead more

end Gap

end Yaml

end ConfigTemplate
