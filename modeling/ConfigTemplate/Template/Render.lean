/-
Rendering templates.

`Template.verify` resolves every reference outside a section, so that a missing
value is found before there is any output.  `Template.render` verifies and then
draws the nodes: a section draws its body once for every item of a list, or once
for anything else that is truthy, with the item innermost in the context; an
inverted section draws its body where a section would draw nothing.

Design notes: drawing works on a `Canvas`, the context and the output so far.
`within` takes its tree off the context again when its body is done, whether the
body failed or not.
-/
import ConfigTemplate.Template.Node
import ConfigTemplate.Template.Resolve

namespace ConfigTemplate

/-- What drawing works on. -/
structure Canvas where
  frames : Context
  output : Text

/-- An action on a canvas, which may end at a missing value. -/
abbrev Drawing := ExceptT Missing (StateM Canvas)

namespace Drawing

/-- Write a text behind the output. -/
def emit (s : Text) : Drawing Unit :=
  modify fun c => { c with output := c.output ++ s }

/-- The tree that a path refers to. -/
def resolve (p : Path) : Drawing Tree := do
  let c ← get
  liftExcept (c.frames.resolve p)
where
  liftExcept : Except Missing Tree → Drawing Tree
    | .ok t => pure t
    | .error m => throw m

/-- Draw with one more tree innermost in the context. -/
def within (t : Tree) (body : Drawing Unit) : Drawing Unit := fun c =>
  let (outcome, after) := body { c with frames := t :: c.frames }
  (outcome, { after with frames := after.frames.tail })

end Drawing

namespace Node

/-- The trees that the body of a section is drawn for. -/
def rounds : Option Tree → List Tree
  | some (.list items) => items
  | some t => if t.isTruthy then [t] else []
  | none => []

/-- Whether a section over what a name leads to is entered. -/
def entered (value : Option Tree) : Bool :=
  value.any Tree.isTruthy

mutual

/-- Draw a node in the context of the canvas.  The first reference that leads nowhere ends it. -/
def draw : Node → Drawing Unit
  | .text s => Drawing.emit s
  | .reference t => do
    let value ← Drawing.resolve t.path
    Drawing.emit value.text
  | .block tag body => do
    let value := (← get).frames.lookup (name tag)
    if tag.kind = .inverted then
      if entered value then pure () else drawAll body
    else (rounds value).forM fun t => Drawing.within t (drawAll body)

/-- Draw nodes one after another. -/
def drawAll : List Node → Drawing Unit
  | [] => pure ()
  | n :: ns => do
    draw n
    drawAll ns

end

/-- Check one node against a configuration: a reference has to lead somewhere. -/
def verify (config : Tree) : Node → Except Missing Unit
  | .reference t => do
    let _ ← Context.resolve [config] t.path
    .ok ()
  | _ => .ok ()

end Node

namespace Template

/-- Check that every reference outside a section leads somewhere. -/
def verify (template : Template) (config : Tree) : Except Missing Unit :=
  template.nodes.forM (Node.verify config)

/-- What a template renders to.  It is verified first, so that a missing value outside of
sections is the one that is named. -/
def render (template : Template) (config : Tree) : Except Missing Text := do
  template.verify config
  match Node.drawAll template.nodes ⟨[config], []⟩ with
  | (.ok (), canvas) => .ok canvas.output
  | (.error m, _) => .error m

end Template

/-- Parse a template and render it for a configuration. -/
def render (source : Text) (config : Tree) : Except Fault Text := do
  let template ← Template.parse source
  match template.render config with
  | .ok s => .ok s
  | .error m => .error (.missing m.path)

end ConfigTemplate
