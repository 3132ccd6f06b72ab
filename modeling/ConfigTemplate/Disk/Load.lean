/-
Configuration files.

`Disk.load` reads a configuration from a file.  The extension of the file's name
tells the format, which is looked at only once the text is there.
-/
import ConfigTemplate.ConfigFault
import ConfigTemplate.Yaml.Reader

namespace ConfigTemplate

/-- The configuration that a YAML document stands for. -/
def Tree.readYaml (source : Text) : Except ConfigFault Tree :=
  match Tree.ofYamlText? source with
  | some t => .ok t
  | none => .error .yaml

namespace Disk

/-- The reader for files with an extension. -/
def formatOf? (extension : Text) : Option (Text → Except ConfigFault Tree) :=
  if extension = "json".toList then some Tree.readJson
  else if extension = "yaml".toList ∨ extension = "yml".toList then some Tree.readYaml
  else none

/-- The configuration in the file at a path, in the format that the name of the file tells. -/
def load (d : Disk) (path : Text) : Except ConfigFault Tree := do
  let source ← (d.readText path).mapError (.disk path)
  match (fileExtension? path).bind formatOf? with
  | some read => read source
  | none => .error (.unsupported path)

end Disk

end ConfigTemplate
