/-
File paths.

A path is a text with slashes.  `Disk.steps` is what following a path goes
through, `Disk.under` the path of a name in a directory, and `fileExtension?` what
stands after the last point of a file's name, unless the name begins there.
-/
import ConfigTemplate.Text.Basic

namespace ConfigTemplate

namespace Disk

/-- The names between the slashes of a path.  A slash at the end asks for a
directory, as a last step `.` does. -/
def steps (path : Text) : List Text :=
  let names := (Text.pieces (· == '/') path).filter (!·.isEmpty)
  if path.getLast? = some '/' then names ++ [['.']] else names

/-- The path of a name in the directory at `dir`. -/
def under (dir name : Text) : Text :=
  if dir = [] then name
  else if dir.getLast? = some '/' then dir ++ name
  else dir ++ '/' :: name

/-- The name of the file at a path, if the path ends in a name. -/
def fileName? (path : Text) : Option Text :=
  match ((steps path).filter (· != ['.'])).getLast? with
  | some name => if name = ['.', '.'] then none else some name
  | none => none

/-- What stands behind the last point of a name, if anything stands before that point. -/
def fileExtension? (path : Text) : Option Text :=
  (fileName? path).bind fun name =>
    let stem := (name.reverse.dropWhile (· != '.')).drop 1
    if stem.isEmpty then none else some (name.reverse.takeWhile (· != '.')).reverse

end Disk

end ConfigTemplate
