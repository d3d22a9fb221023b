import AppManifest.Entries
import AppManifest.Host.FilePath
import AppManifest.Text.Position
/-!
# Trees of files

A directory with everything below it. Paths are read as a file system reads them: empty parts and
`.` stay where they are, `..` goes up, and every part but the last must lead to a directory. The
root has nothing above it.
-/

namespace AppManifest.Host

/-- A file or a directory. -/
inductive Node where
  | file (content : List UInt8)
  | directory (entries : List (String × Node))

/-- A place below the root: the names on the way to it. -/
abbrev Place := List String

namespace Node

/-- The empty directory. -/
def empty : Node := .directory []

/-- What is at a place. -/
def get? : Node → Place → Option Node
  | node, [] => some node
  | .directory entries, name :: rest => (Entries.get? entries name).bind fun node ↦ get? node rest
  | .file _, _ :: _ => none

/-- Put something at a place whose directory exists. -/
def put? : Node → Place → Node → Option Node
  | _, [], new => some new
  | .directory entries, [name], new => some (.directory (Entries.insert entries name new))
  | .directory entries, name :: rest, new => do
    let child ← Entries.get? entries name
    let child ← put? child rest new
    some (.directory (Entries.insert entries name child))
  | .file _, _ :: _, _ => none

/-- Whether a directory is at a place. -/
def isDirectory (root : Node) (place : Place) : Bool :=
  match root.get? place with
  | some (.directory _) => true
  | _ => false

/-- The content of the file at a place. -/
def content? (root : Node) (place : Place) : Option (List UInt8) :=
  match root.get? place with
  | some (.file content) => some content
  | _ => none

/-- One step of a path: from a directory, stay, go up, or go to a name. -/
def step? (root : Node) (place : Place) (part : String) : Option Place :=
  if !root.isDirectory place then none
  else if part = "" ∨ part = "." then some place
  else if part = ".." then (if place.isEmpty then none else some place.dropLast)
  else some (place ++ [part])

/-- Follow the parts of a path; the last one need not exist. -/
def follow? (root : Node) : Place → List String → Option Place
  | place, [] => some place
  | place, part :: rest => (root.step? place part).bind fun next ↦ follow? root next rest

/-- The place that a path leads to from a directory. Nothing is known of absolute paths. -/
def locate? (root : Node) (directory : Place) (path : String) : Option Place :=
  if path = "" ∨ path.startsWith "/" then none else root.follow? directory (parts path)

/-- The content of the file that a path leads to. -/
def fileAt? (root : Node) (directory : Place) (path : String) : Option (List UInt8) :=
  (root.locate? directory path).bind root.content?

/-- Write the file that a path leads to. Its directory must exist, and its last part must be a
name. -/
def withFile? (root : Node) (directory : Place) (path : String) (content : List UInt8) :
    Option Node := do
  let place ← root.locate? directory path
  match (parts path).getLast? with
  | some last =>
    if last = "" ∨ last = "." ∨ last = ".." ∨ root.isDirectory place then none
    else root.put? place (.file content)
  | none => none

/-- Follow the parts of a path, making the directories that are missing. -/
def makeDirectories? : Node → Place → List String → Option Node
  | root, _, [] => some root
  | root, place, part :: rest => do
    let next ← root.step? place part
    let root ← match root.get? next with
      | some (.directory _) => some root
      | some (.file _) => none
      | none => root.put? next empty
    makeDirectories? root next rest

/-- A tree with the given files, and the directories that they need. -/
def ofFiles (files : List (String × String)) : Node :=
  files.foldl (fun root (path, text) ↦
    let folders := (parts path).dropLast
    let root := (root.makeDirectories? [] folders).getD root
    (root.withFile? [] path (Text.bytes text)).getD root) empty

end Node

end AppManifest.Host
