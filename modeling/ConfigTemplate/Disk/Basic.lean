/-
Disks.

A disk is a tree of directories, files and symbolic links, and its paths start at
the top.  `locate` follows a path, through links too, to the names that lead there
without them; `find`, `read` and `write` work on what is there.

Design notes: `follow` spends one hop at every link, so that a path that leads in
circles is refused, and between links it is recursion on the steps of the path.
-/
import ConfigTemplate.Disk.Path
import ConfigTemplate.Text.Utf8
import ConfigTemplate.Tree.Entries

namespace ConfigTemplate

/-- What a directory can hold.  Entries of a directory are in order of their names. -/
inductive Item where
  | file (content : Bytes)
  | dir (entries : List (Text × Item))
  | link (target : Text)

/-- Why a path cannot be followed, or what it leads to not be read. -/
inductive DiskError where
  | notFound
  | notDirectory
  | isDirectory
  | nameTooLong
  | tooManyLinks
  | notText
  deriving DecidableEq, Repr

/-- The wording of the operating system, with the number that it gives the error. -/
def DiskError.message : DiskError → Text
  | notFound => "No such file or directory (os error 2)".toList
  | notDirectory => "Not a directory (os error 20)".toList
  | isDirectory => "Is a directory (os error 21)".toList
  | nameTooLong => "File name too long (os error 36)".toList
  | tooManyLinks => "Too many levels of symbolic links (os error 40)".toList
  | notText => "stream did not contain valid UTF-8".toList

namespace Item

/-- Whether an item is a directory.  A link to one is not. -/
def isDir : Item → Bool
  | dir _ => true
  | _ => false

/-- Set an entry, keeping the order of the names. -/
def putEntry : List (Text × Item) → Text → Item → List (Text × Item)
  | [], name, i => [(name, i)]
  | (n, j) :: es, name, i =>
    if n = name then (n, i) :: es
    else if Text.le name n then (name, i) :: (n, j) :: es
    else (n, j) :: putEntry es name i

/-- The item that names lead to, without following links. -/
def itemAt : Item → List Text → Option Item
  | i, [] => some i
  | dir es, name :: names => (Entries.get? es name).bind (itemAt · names)
  | _, _ :: _ => none

/-- Put an item where names lead, making directories on the way. -/
def setAt : Item → List Text → Item → Item
  | _, [], i => i
  | dir es, name :: names, i =>
    dir (putEntry es name (setAt ((Entries.get? es name).getD (dir [])) names i))
  | _, name :: names, i => dir [(name, setAt (dir []) names i)]

/-- Remove the item that names lead to, without following links, if there is one. -/
def eraseAt : Item → List Text → Item
  | dir es, [name] => dir (es.filter (·.1 ≠ name))
  | dir es, name :: names =>
    match Entries.get? es name with
    | some i => dir (putEntry es name (eraseAt i names))
    | none => dir es
  | i, _ => i

end Item

/-- A disk, by the directory at its top. -/
structure Disk where
  top : Item

namespace Disk

/-- How many bytes the name of an entry may have. -/
def maxName : Nat := 255

/-- How many bytes a path may have. -/
def maxPath : Nat := 4095

/-- How many links are followed on the way of one path. -/
def maxHops : Nat := 40

/-- Go on from the directory `here` by the steps of a path.  `hop` goes on after a
link, from its directory, by the steps of its target and those left; it is not
asked for a link at the end when `last` is false. -/
def go (d : Disk) (last : Bool) (hop : List Text → List Text → Except DiskError (List Text)) :
    (here : List Text) → (steps : List Text) → Except DiskError (List Text)
  | here, [] => .ok here
  | here, name :: steps =>
    match d.top.itemAt here with
    | some (.dir es) =>
      if name = ['.'] then go d last hop here steps
      else if name = ['.', '.'] then go d last hop here.dropLast steps
      else if maxName < name.byteLength then .error .nameTooLong
      else match Entries.get? es name with
        | none => .error .notFound
        | some (.link target) =>
          if steps.isEmpty && !last then .ok (here ++ [name])
          else if target.head? = some '/' then hop [] (Disk.steps target ++ steps)
          else hop here (Disk.steps target ++ steps)
        | some _ => go d last hop (here ++ [name]) steps
    | some _ => .error .notDirectory
    | none => .error .notFound

/-- Go on through at most `hops` links. -/
def follow (d : Disk) (last : Bool) :
    (hops : Nat) → (here : List Text) → (steps : List Text) → Except DiskError (List Text)
  | 0 => go d last fun _ _ => .error .tooManyLinks
  | hops + 1 => go d last (follow d last hops)

/-- The names from the top to where a path leads; a link at its end is followed if
`last` is true. -/
def locate (d : Disk) (last : Bool) (path : Text) : Except DiskError (List Text) :=
  if path.isEmpty then .error .notFound
  else if maxPath < path.byteLength then .error .nameTooLong
  else d.follow last maxHops [] (steps path)

/-- What a path leads to. -/
def find (d : Disk) (path : Text) : Except DiskError Item := do
  let names ← d.locate true path
  match d.top.itemAt names with
  | some i => .ok i
  | none => .error .notFound

/-- The bytes of the file that a path leads to. -/
def read (d : Disk) (path : Text) : Except DiskError Bytes := do
  match ← d.find path with
  | .file content => .ok content
  | .dir _ => .error .isDirectory
  | .link _ => .error .tooManyLinks

/-- The content of the file at a path, which has to be text. -/
def readText (d : Disk) (path : Text) : Except DiskError Text := do
  let content ← d.read path
  match Utf8.decode? content with
  | some s => .ok s
  | none => .error .notText

/-- Replace the bytes of the file that a path leads to.  No file is made. -/
def write (d : Disk) (path : Text) (content : Bytes) : Except DiskError Disk := do
  let names ← d.locate true path
  match d.top.itemAt names with
  | some (.file _) => .ok ⟨d.top.setAt names (.file content)⟩
  | some (.dir _) => .error .isDirectory
  | some (.link _) => .error .tooManyLinks
  | none => .error .notFound

/-- Put an item at a path of names, making directories on the way. -/
def place (d : Disk) (path : Text) (i : Item) : Disk :=
  ⟨d.top.setAt (steps path) i⟩

/-- Remove what the steps of a path name, which may be a link. -/
def remove (d : Disk) (path : Text) : Disk :=
  ⟨d.top.eraseAt (steps path)⟩

end Disk

end ConfigTemplate
