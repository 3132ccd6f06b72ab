/-
The full configuration.

`resolveConfig` merges, the earlier winning: the layers before, the pairs among
the specs, the remote configurations in the order of their names, and the layers
after.
-/
import ConfigTemplate.Remote.Fetch
import ConfigTemplate.Remote.Spec
import ConfigTemplate.Tree.Insert

namespace ConfigTemplate

/-- What a configuration is made from. -/
structure ConfigOptions where
  /-- The layers that win over everything else. -/
  before : List Tree := []
  remotes : List Text := []
  /-- The layers that only fill in. -/
  after : List Tree := []
  concurrency : Nat := 4

namespace ConfigOptions

/-- The specs among the remotes; an empty one asks for nothing. -/
def specs (options : ConfigOptions) : List RemoteSpec :=
  (options.remotes.filter (!·.isEmpty)).map RemoteSpec.parse

/-- The layer that the pairs make together, each set in turn. -/
def pairs (options : ConfigOptions) : Entries Tree :=
  options.specs.foldl (fun es spec =>
    match spec with
    | .pair path value => Tree.insertPath es path (.string value)
    | .named _ => es) []

/-- The names of the remote configurations among the specs, in order. -/
def names (options : ConfigOptions) : List Text :=
  RemoteSpec.names options.specs

/-- All layers, in order of precedence. -/
def layers (options : ConfigOptions) (fetched : List Tree) : List Tree :=
  options.before ++ [.map options.pairs] ++ fetched ++ options.after

end ConfigOptions

/-- The merged configuration, and the most requests that were in flight. -/
def resolveConfig (client : Client) (schedule : Nat → Nat) (options : ConfigOptions) :
    Except FetchFault Tree × Nat :=
  let report := fetch client options.concurrency schedule options.names
  (report.outcome.map fun fetched => Tree.merge (options.layers fetched), report.peak)

end ConfigTemplate
