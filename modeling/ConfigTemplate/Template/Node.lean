/-
Parsed templates.

A template is literal text, references and sections, the body of a section being
nodes again.  `Template.parse` builds it from the segments of a text: literal
text lands in the body that is open where it stands, and every closing tag has to
name the section that is open.
-/
import ConfigTemplate.Decimal.Numeral
import ConfigTemplate.Reference.Placeholder

namespace ConfigTemplate

/-- A piece of a template. -/
inductive Node where
  | text (s : Text)
  /-- A reference that is replaced by its value. -/
  | reference (t : Token)
  /-- A section, with its opening tag. -/
  | block (tag : Token) (body : List Node)

/-- Why a template is not parsed, or not rendered. -/
inductive Fault where
  /-- A reference leads nowhere. -/
  | missing (path : Text)
  /-- A closing tag where no section is open. -/
  | unopened (name : Text) (line : Nat)
  /-- A closing tag that does not name the section that is open. -/
  | mismatched (opened closed : Text) (line : Nat)
  /-- A section that is open at the end. -/
  | unclosed (name : Text) (line : Nat)
  deriving DecidableEq, Repr

namespace Fault

/-- A name between double quotes, with nothing escaped in it. -/
def quoted (name : Text) : Text :=
  '"' :: name ++ ['"']

/-- The wording of a fault in a template of no known file. -/
def summary : Fault → Text
  | missing path => "Missing configuration value: ".toList ++ path
  | unopened name line => onLine line ("Unopened section ".toList ++ quoted name)
  | mismatched opened closed line =>
    onLine line ("Unclosed section ".toList ++ quoted opened ++ " (found ".toList ++
      quoted closed ++ [')'])
  | unclosed name line => onLine line ("Unclosed section ".toList ++ quoted name)
where
  onLine (line : Nat) (s : Text) : Text :=
    "Parse error on line ".toList ++ Decimal.natText line ++ ": ".toList ++ s

/-- The wording of a fault, with the file of the template if it is known. -/
def message (f : Fault) (file : Option Text) : Text :=
  match file with
  | none => f.summary
  | some path => f.summary ++ " in ".toList ++ path

end Fault

namespace Node

mutual

/-- Whether two nodes are equal. -/
def decEq : (m n : Node) → Decidable (m = n)
  | .text s, .text t => decidable_of_iff' (s = t) (.of_eq (text.injEq s t))
  | .reference t, .reference u => decidable_of_iff' (t = u) (.of_eq (reference.injEq t u))
  | .block t ms, .block u ns =>
    have := decEqAll ms ns
    decidable_of_iff' (t = u ∧ ms = ns) (.of_eq (block.injEq t ms u ns))
  | .text _, .reference _ | .text _, .block .. | .reference _, .text _ | .reference _, .block ..
  | .block .., .text _ | .block .., .reference _ => .isFalse nofun

/-- Whether two bodies have equal nodes. -/
def decEqAll : (ms ns : List Node) → Decidable (ms = ns)
  | [], [] => .isTrue rfl
  | m :: ms, n :: ns =>
    have := decEq m n
    have := decEqAll ms ns
    decidable_of_iff' (m = n ∧ ms = ns) (.of_eq (List.cons.injEq m ms n ns))
  | [], _ :: _ | _ :: _, [] => .isFalse nofun

end

instance : DecidableEq Node := decEq

/-- Literal text as nodes: none if there is no text. -/
def literal (s : Text) : List Node :=
  if s.isEmpty then [] else [text s]

/-- The name of the section that a tag opens or closes. -/
def name (tag : Token) : Text :=
  tag.path.raw

/-- Build nodes from segments.  `outer` holds the tags of the sections that are
open, innermost first, each with the nodes before it; `body` holds the nodes of
the innermost section. -/
def build (outer : List (Token × List Node)) (body : List Node) :
    Segments → Except Fault (List Node)
  | .last s =>
    match outer with
    | [] => .ok (body ++ literal s)
    | (tag, _) :: _ => .error (.unclosed (name tag) tag.line)
  | .before gap t rest =>
    let body := body ++ literal gap
    match t.kind with
    | .opening | .inverted => build ((t, body) :: outer) [] rest
    | .closing =>
      match outer with
      | [] => .error (.unopened (name t) t.line)
      | (tag, before) :: outer =>
        if name tag = name t then build outer (before ++ [block tag body]) rest
        else .error (.mismatched (name tag) (name t) t.line)
    | _ => build outer (body ++ [reference t]) rest

end Node

/-- A template that was parsed. -/
structure Template where
  nodes : List Node
  deriving DecidableEq

/-- Parse a template.  Only its sections can be malformed. -/
def Template.parse (s : Text) : Except Fault Template := do
  let nodes ← Node.build [] [] (placeholders s)
  .ok ⟨nodes⟩

end ConfigTemplate
