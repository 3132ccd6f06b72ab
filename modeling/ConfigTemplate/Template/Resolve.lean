/-
Resolving references.

The references nested in a path are resolved first, from left to right, and the
text of each value is spliced into the path around it.  The spliced path, without
the blanks around it, is then looked up.  `Missing` names the first path that
leads nowhere.
-/
import ConfigTemplate.Reference.Path
import ConfigTemplate.Template.Context
import ConfigTemplate.Json.Printer

namespace ConfigTemplate

/-- The dotted path that leads nowhere. -/
structure Missing where
  path : Text
  deriving DecidableEq, Repr

namespace Context

/-- The tree at a dotted path, which must be there. -/
def find (frames : Context) (path : Text) : Except Missing Tree :=
  match frames.lookup path with
  | some t => .ok t
  | none => .error ⟨path⟩

mutual

/-- The dotted path that a path stands for. -/
def resolvePath (frames : Context) : Path → Except Missing Text
  | ⟨_, parts⟩ => do
    let s ← splice frames parts
    .ok s.trim

/-- The parts of a path with the text of its references in their place. -/
def splice (frames : Context) : List Part → Except Missing Text
  | [] => .ok []
  | .text s :: ps => do
    let rest ← splice frames ps
    .ok (s ++ rest)
  | .ref p :: ps => do
    let path ← resolvePath frames p
    let t ← find frames path
    let rest ← splice frames ps
    .ok (t.text ++ rest)

end

/-- The value of a reference: the tree to which its path leads once it is spliced. -/
def resolve (frames : Context) (p : Path) : Except Missing Tree := do
  let path ← resolvePath frames p
  find frames path

end Context

end ConfigTemplate
