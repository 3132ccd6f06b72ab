/-
Templates on a disk.

Files are rendered in place: a file that is not text is left as it is, and so is
one that fails to render if that is forced; otherwise the first failure ends the
work on a directory, with the files before it rendered.  Extraction reads files
without changing them, whatever their bytes.  A path where nothing is has nothing
to render and nothing to extract.
-/
import ConfigTemplate.Disk.Walk
import ConfigTemplate.Inventory.Extract
import ConfigTemplate.Json.Reader
import ConfigTemplate.Template.Render

namespace ConfigTemplate

/-- What ends the work on a file or on a directory. -/
inductive FileFault where
  /-- The template in the file at the path has a fault. -/
  | template (path : Text) (fault : Fault)
  | disk (path : Text) (cause : DiskError)
  | walk (fault : WalkFault)
  deriving DecidableEq, Repr

namespace FileFault

/-- The wording of a failure at a path, whatever the cause. -/
def ioMessage (path cause : Text) : Text :=
  "I/O error for ".toList ++ path ++ ": ".toList ++ cause

/-- The wording of a fault, which names the file or the place of the walk. -/
def message : FileFault → Text
  | template path fault => fault.message (some path)
  | disk path cause => ioMessage path cause.message
  | walk fault =>
    ioMessage fault.path
      ("IO error for operation on ".toList ++ fault.path ++ ": ".toList ++ fault.cause.message)

end FileFault

/-- How files are rendered in place. -/
structure RenderOptions where
  /-- Leave a file that fails to render as it is. -/
  force : Bool := false
  /-- Lay rendered JSON out with a line for each child. -/
  pretty : Bool := false

/-- A JSON text laid out with a line for each child; what is not JSON stays as it is. -/
def prettify (s : Text) : Text :=
  match Tree.ofJsonText s with
  | .ok t => t.pretty ++ ['\n']
  | .error _ => s

namespace Disk

/-- Whether there is something at a path. -/
def exists? (d : Disk) (path : Text) : Except FileFault (Option Item) :=
  match d.find path with
  | .ok i => .ok (some i)
  | .error .notFound => .ok none
  | .error e => .error (.disk path e)

/-- What is written to a file for the text that its template renders to. -/
def finish (options : RenderOptions) (path out : Text) : Bytes :=
  let isJson := fileExtension? path = some "json".toList
  Utf8.encode (if options.pretty && isJson then prettify out else out)

/-- Render the template in a file in place: whether the file was rewritten, and the
disk afterwards. -/
def renderFile (d : Disk) (path : Text) (config : Tree) (options : RenderOptions) :
    Except FileFault Bool × Disk :=
  match d.read path with
  | .error e => (.error (.disk path e), d)
  | .ok content =>
    match Utf8.decode? content with
    | none => (.ok false, d)
    | some source =>
      match render source config with
      | .error fault => (if options.force then .ok false else .error (.template path fault), d)
      | .ok out =>
        match d.write path (finish options path out) with
        | .ok d => (.ok true, d)
        | .error e => (.error (.disk path e), d)

/-- Render the visited files one after another: the relative paths of those that were
rewritten, and the disk afterwards. -/
def renderVisits (config : Tree) (options : RenderOptions) :
    List Visit → Disk → Except FileFault (List Text) × Disk
  | [], d => (.ok [], d)
  | v :: vs, d =>
    if v.isDir then renderVisits config options vs d
    else match d.renderFile v.path config options with
      | (.error fault, d) => (.error fault, d)
      | (.ok rewritten, d) =>
        let (rest, d) := renderVisits config options vs d
        (rest.map fun paths => if rewritten then v.relative :: paths else paths, d)

/-- Render every file below a directory in place. -/
def renderDir (d : Disk) (path : Text) (config : Tree) (options : RenderOptions) :
    Except FileFault (List Text) × Disk :=
  match d.exists? path with
  | .error fault => (.error fault, d)
  | .ok none => (.ok [], d)
  | .ok (some _) =>
    match d.walk path with
    | .error fault => (.error (.walk fault), d)
    | .ok visits => renderVisits config options visits d

/-- What is extracted from the file at a path.  Bytes that are no text are decoded lossily. -/
def extractFile (d : Disk) (style : ReferenceStyle) (path : Text) (config : Option Tree) :
    Except FileFault Inventory :=
  match d.read path with
  | .error e => .error (.disk path e)
  | .ok content => .ok (extract style (Utf8.decodeLossy content) config)

/-- The references in every file below a directory, by relative path. -/
def extractDir (d : Disk) (style : ReferenceStyle) (path : Text) (config : Option Tree) :
    Except FileFault (List (Text × Inventory)) := do
  match ← d.exists? path with
  | none => .ok []
  | some _ =>
    match d.walk path with
    | .error fault => .error (.walk fault)
    | .ok visits => (visits.filter (!·.isDir)).mapM fun v => do
      let found ← d.extractFile style v.path config
      .ok (v.relative, found)

/-- The references in a file, or in all files below a directory together. -/
def extractList (d : Disk) (style : ReferenceStyle) (path : Text) (config : Option Tree) :
    Except FileFault Inventory := do
  match ← d.exists? path with
  | none => .ok .empty
  | some (.file _) => d.extractFile style path config
  | some _ => do
    let found ← d.extractDir style path config
    .ok (found.foldl (fun all entry => all.merge entry.2) .empty)

end Disk

end ConfigTemplate
