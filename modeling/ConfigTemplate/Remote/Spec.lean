/-
What is asked of the remotes.

A spec with an equals sign sets one path of the configuration to a text, and any
other is the name of a remote configuration.
-/
import ConfigTemplate.Text.Basic

namespace ConfigTemplate

/-- One spec among the remotes. -/
inductive RemoteSpec where
  /-- Set the path to the text. -/
  | pair (path : List Text) (value : Text)
  /-- Fetch the configuration of this name. -/
  | named (name : Text)
  deriving DecidableEq, Repr

namespace RemoteSpec

/-- Read a spec.  The first equals sign ends the path, whose segments are divided
by points and colons. -/
def parse (spec : Text) : RemoteSpec :=
  match spec.dropWhile (· != '=') with
  | [] => .named spec
  | _ :: value =>
    .pair (Text.pieces (fun c => c = '.' || c = ':') (spec.takeWhile (· != '='))) value

/-- The names among the specs, each once, in the order they were first listed. -/
def names (specs : List RemoteSpec) : List Text :=
  specs.foldl (fun acc spec =>
    match spec with
    | .named name => if acc.contains name then acc else acc ++ [name]
    | .pair .. => acc) []

end RemoteSpec

end ConfigTemplate
