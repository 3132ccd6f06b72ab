/-
Walks through a directory.

A walk visits everything below a directory, not the directory itself: entries in
the order of their names, a directory before what it holds.  Links below the
directory are visited as files and not followed; the path of the directory itself
may lead through links.
-/
import ConfigTemplate.Disk.Basic

namespace ConfigTemplate

/-- An item that a walk comes by. -/
structure Visit where
  /-- The path from the top of the disk. -/
  path : Text
  /-- The path from the directory where the walk began. -/
  relative : Text
  isDir : Bool
  deriving DecidableEq, Repr

mutual

/-- What there is below an item at `path`, which is `relative` to the start. -/
def Item.visits (path relative : Text) : Item → List Visit
  | .dir es => Item.entryVisits path relative es
  | _ => []

/-- The entries of a directory at `path`, each with what there is below it. -/
def Item.entryVisits (path relative : Text) : List (Text × Item) → List Visit
  | [] => []
  | (name, i) :: es =>
    let visit : Visit := ⟨Disk.under path name, Disk.under relative name, i.isDir⟩
    visit :: i.visits visit.path visit.relative ++ Item.entryVisits path relative es

end

/-- Where a walk cannot go on, and why. -/
structure WalkFault where
  path : Text
  cause : DiskError
  deriving DecidableEq, Repr

namespace Disk

/-- Everything below a directory.  There is nothing below a file. -/
def walk (d : Disk) (path : Text) : Except WalkFault (List Visit) :=
  match d.find path with
  | .ok i => .ok (i.visits path [])
  | .error e => .error ⟨path, e⟩

end Disk

end ConfigTemplate
