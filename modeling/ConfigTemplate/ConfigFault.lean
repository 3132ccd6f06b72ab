/-
Why there is no configuration.

A `ConfigFault` is the cause, and `ConfigFault.message` its wording.  A fault of a
JSON document keeps the document, in which its position is found.
-/
import ConfigTemplate.Disk.Basic
import ConfigTemplate.Json.Reader
import ConfigTemplate.Remote.Fetch

namespace ConfigTemplate

/-- Why a configuration could not be read or put together. -/
inductive ConfigFault where
  /-- A remote configuration could not be fetched. -/
  | fetch (fault : FetchFault)
  | json (source : Text) (fault : Json.Fault)
  | yaml
  /-- The name of a file tells of no format. -/
  | unsupported (path : Text)
  | disk (path : Text) (cause : DiskError)

namespace ConfigFault

/-- The wording of a fault.  YAML faults are all alike, since the reader keeps no place. -/
def message : ConfigFault → Text
  | fetch fault => fault.message
  | json source fault => "Invalid JSON config: ".toList ++ fault.message source
  | yaml => "YAML".toList
  | unsupported path => "Unsupported config format: ".toList ++ path
  | disk path cause => "I/O error reading ".toList ++ path ++ ": ".toList ++ cause.message

end ConfigFault

/-- The configuration that a JSON document stands for. -/
def Tree.readJson (source : Text) : Except ConfigFault Tree :=
  (Tree.ofJsonText source).mapError (.json source)

end ConfigTemplate
