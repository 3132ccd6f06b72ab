/-
Environment variables in texts.

A reference to a variable is a dollar sign, one of two prefixes and a name of at
least one character, as long as it goes.  Every underscore of the name separates
segments of the path.
-/
import ConfigTemplate.Reference.Token

namespace ConfigTemplate

namespace EnvVar

/-- The characters of the name of a variable. -/
def isNameChar (c : Char) : Bool :=
  c.isAlphanum || c = '_' || c = '-' || c = '.'

/-- What goes before the name, the shorter first. -/
def prefixes : List Text :=
  ["$q_".toList, "$quill_".toList]

/-- The path that a name stands for: its underscores separate segments, as points do. -/
def path (name : Text) : Path :=
  .literal (name.map fun c => if c = '_' then '.' else c)

/-- The variable that a text begins with, if it has the prefix `lead`. -/
def withPrefix (lead : Text) (s : Text) : Option Lexeme :=
  (lead.isPrefixOf? s).bind fun t =>
    let name := t.takeWhile isNameChar
    if name.isEmpty then none else some ⟨.envVar, path name, lead ++ name⟩

end EnvVar

/-- The variable that a text begins with. -/
def envVar? : Recogniser := fun s =>
  EnvVar.prefixes.findSome? (EnvVar.withPrefix · s)

/-- The references to variables in a text. -/
def envVars (s : Text) : Segments :=
  scan envVar? s

/-- The variables of a text that is line `n`. -/
def envVarsOnLine (s : Text) (n : Nat) : List Token :=
  (envVars s).tokens.map (·.onLine n)

end ConfigTemplate
