/-
What a template needs.

`extract` goes through a template line by line without rendering it, and sorts
the references it finds into an `Inventory`:

* `required`: the paths of references, those nested in them resolved;
* `fatal`: the required paths that lead nowhere;
* `optional`: the names of sections;
* `warn`: the optional names that lead nowhere.

Where a nested reference leads nowhere, its path and the path around it, as
written, are both required and fatal.  Without a configuration every reference
leads nowhere.
-/
import ConfigTemplate.Inventory.KeySet
import ConfigTemplate.Reference.EnvVar
import ConfigTemplate.Reference.Placeholder
import ConfigTemplate.Template.Resolve

namespace ConfigTemplate

/-- The kind of reference to look for. -/
inductive ReferenceStyle where
  | placeholders
  | envVars
  deriving DecidableEq, Repr

namespace ReferenceStyle

/-- The name by which a style is chosen. -/
def name : ReferenceStyle → Text
  | placeholders => "keys".toList
  | envVars => "envvars".toList

/-- The style that is chosen by a name, if there is one. -/
def ofName? (s : Text) : Option ReferenceStyle :=
  [placeholders, envVars].find? (·.name = s)

/-- What is said about a name of no style. -/
def unknownMessage (s : Text) : Text :=
  "Type must be \x60keys\x60 or \x60envvars\x60, got \x60".toList ++ s ++ ['\x60']

/-- The references of this style on line `n`. -/
def tokens (style : ReferenceStyle) (s : Text) (n : Nat) : List Token :=
  match style with
  | placeholders => placeholdersOnLine s n
  | envVars => envVarsOnLine s n

@[simp] theorem ofName?_name (style : ReferenceStyle) : ofName? style.name = some style := by
  cases style <;> rfl

end ReferenceStyle

/-- The references of a template, by how badly they are needed. -/
structure Inventory where
  required : KeySet
  optional : KeySet
  fatal : KeySet
  warn : KeySet

namespace Inventory

/-- An inventory of nothing. -/
def empty : Inventory := ⟨.empty, .empty, .empty, .empty⟩

/-- The references of both, in the order they were first seen. -/
def merge (a b : Inventory) : Inventory :=
  ⟨a.required.extend b.required, a.optional.extend b.optional, a.fatal.extend b.fatal,
    a.warn.extend b.warn⟩

/-- Whether nothing required is missing. -/
def isSatisfied (a : Inventory) : Bool :=
  a.fatal.records.isEmpty

/-- A key that has to lead somewhere; `found` says whether it does. -/
def require (a : Inventory) (found : Bool) (r : Record) : Inventory :=
  { a with
    required := a.required.insert r
    fatal := if found then a.fatal else a.fatal.insert r }

/-- A key that may lead somewhere; `found` says whether it does. -/
def permit (a : Inventory) (found : Bool) (r : Record) : Inventory :=
  { a with
    optional := a.optional.insert r
    warn := if found then a.warn else a.warn.insert r }

/-- Add a reference on the line `text`. -/
def add (frames : Context) (text : Text) (a : Inventory) (t : Token) : Inventory :=
  let record (key : Text) : Record := ⟨key, t.line, text⟩
  let found (key : Text) : Bool := (frames.lookup key).isSome
  match t.kind with
  | .opening | .inverted => a.permit (found t.path.raw) (record t.path.raw)
  | .closing => a
  | _ =>
    if t.path.raw = Context.current then a
    else match frames.resolvePath t.path with
      | .ok key => a.require (found key) (record key)
      | .error m => (a.require false (record m.path)).require false (record t.path.raw)

/-- Add the references of line `n`. -/
def addLine (style : ReferenceStyle) (frames : Context) (a : Inventory) (line : Text × Nat) :
    Inventory :=
  (style.tokens line.1 line.2).foldl (add frames line.1) a

end Inventory

/-- The context of a configuration that may be absent. -/
def Context.ofConfig (config : Option Tree) : Context :=
  config.toList

/-- The references of a template, checked against a configuration. -/
def extract (style : ReferenceStyle) (template : Text) (config : Option Tree) : Inventory :=
  (template.lines.zipIdx 1).foldl (Inventory.addLine style (.ofConfig config)) .empty

end ConfigTemplate
