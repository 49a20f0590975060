import Folio.Calendar.Gregorian
import Folio.Error

/-!
# Trees of files

A tree of directories and files, as a process sees it from its working directory. Paths are followed
component by component. All that leads to a file has to be a directory.

## Main definitions

* `Node` — a directory or a file
* `FileTree` — the nodes below the root, by path
* `FileTree.find?`, `FileTree.insert`, `FileTree.erase` — the node at a path
* `FileTree.components`, `FileTree.follow` — the path to which a text leads
* `FileTree.file`, `FileTree.read`, `FileTree.mode`, `FileTree.list` — what can be asked
* `FileTree.destination`, `FileTree.place` — puts a file in the place of what a text leads to
-/

namespace Folio

/-- A path from the root, one name after another. -/
abbrev Path := List String

/-- A file. -/
structure File where
  /-- What it holds. -/
  contents : ByteArray
  /-- When it was last modified. -/
  modified : Timestamp
  /-- Its permission bits. -/
  mode : Nat

/-- A directory or a file. -/
inductive Node where
  | directory
  | file (file : File)

/-- The directories and files below the root, by path. The root is a directory, and the working
directory. -/
structure FileTree where
  /-- The nodes below the root. -/
  nodes : List (Path × Node)

namespace FileTree

/-- A tree without files. -/
def empty : FileTree := ⟨[]⟩

/-- The permission bits of a directory. -/
def directoryMode : Nat := 0o755

/-- The permission bits of a new file. -/
def fileMode : Nat := 0o644

/-- The node at a path. -/
def find? (t : FileTree) (path : Path) : Option Node :=
  if path = [] then some .directory else t.nodes.lookup path

/-- The tree without the node at a path. -/
def erase (t : FileTree) (path : Path) : FileTree :=
  ⟨t.nodes.filter fun (place, _) => place ≠ path⟩

/-- The tree with a node at a path. -/
def insert (t : FileTree) (path : Path) (node : Node) : FileTree :=
  ⟨(path, node) :: (t.erase path).nodes⟩

/-- The tree without the node at a path and all below it. -/
def eraseBelow (t : FileTree) (path : Path) : FileTree :=
  ⟨t.nodes.filter fun (place, _) => !path.isPrefixOf place⟩

/-- Whether a component stays in its directory. -/
def staysPut (component : String) : Bool := component == "" || component == "."

/-- A number of bytes that the text of a path stays below. -/
def pathLimit : Nat := 4096

/-- The most bytes of a name. -/
def maxName : Nat := 255

/-- Whether a text holds a zero byte. -/
def holdsZero (text : String) : Bool := text.toList.contains '\x00'

/-- Where a component leads from a directory. -/
def enter (path : Path) (component : String) : Except IoError Path :=
  if staysPut component then .ok path
  else if component = ".." then .ok path.dropLast
  else if maxName < component.utf8ByteSize then .error .nameTooLong
  else .ok (path ++ [component])

/-- The path that is reached from `path` by following components. Each of them has to start from a
directory. -/
def followFrom (t : FileTree) : (path : Path) → (components : List String) → Except IoError Path
  | path, [] => .ok path
  | path, component :: rest =>
    match t.find? path with
    | none => .error .notFound
    | some (.file _) => .error .notADirectory
    | some .directory => enter path component >>= fun next => t.followFrom next rest

/-- What stands between the slashes of a text. -/
def components (text : String) : List String := (text.toList.splitOn '/').map String.ofList

/-- The path to which a text leads. Nothing needs to be there yet. -/
def follow (t : FileTree) (text : String) : Except IoError Path :=
  if holdsZero text then .error .zeroInPath
  else if text = "" then .error .notFound
  else if pathLimit ≤ text.utf8ByteSize then .error .nameTooLong
  else t.followFrom [] (components text)

/-- The node to which a text leads. -/
def node (t : FileTree) (text : String) : Except IoError Node := do
  match t.find? (← t.follow text) with
  | some node => return node
  | none => throw .notFound

/-- The file to which a text leads. -/
def file (t : FileTree) (text : String) : Except IoError File := do
  match ← t.node text with
  | .file file => return file
  | .directory => throw .isADirectory

/-- What the file holds to which a text leads. -/
def read (t : FileTree) (text : String) : Except IoError ByteArray :=
  return (← t.file text).contents

/-- The permission bits of the node to which a text leads. -/
def mode (t : FileTree) (text : String) : Except IoError Nat := do
  match ← t.node text with
  | .file file => return file.mode
  | .directory => return directoryMode

/-- The directory to which a text leads. -/
def directory (t : FileTree) (text : String) : Except IoError Path := do
  let path ← t.follow text
  match t.find? path with
  | some .directory => return path
  | some (.file _) => throw .notADirectory
  | none => throw .notFound

/-- The names in the directory at a path, in ascending order. -/
def namesIn (t : FileTree) (path : Path) : List String :=
  (t.nodes.filterMap fun (place, _) =>
    if place.dropLast = path then place.getLast? else none).mergeSort fun a b => decide (a ≤ b)

/-- The names in the directory to which a text leads, in ascending order. -/
def list (t : FileTree) (text : String) : Except IoError (List String) :=
  return t.namesIn (← t.directory text)

/-- The components of a text before the last one, and the last one. Slashes at the end are left
out. -/
def splitLast (text : String) : List String × String :=
  let backwards := (components text).reverse.dropWhile (· == "")
  (backwards.tail.reverse, backwards.headD "")

/-- The path at which a text puts a file, which must not be a directory and has to be named by a last
component. -/
def destination (t : FileTree) (text : String) : Except IoError Path := do
  if holdsZero text then throw .invalidArgument
  if text = "" then throw .notFound
  if pathLimit ≤ text.utf8ByteSize then throw .nameTooLong
  let (before, name) := splitLast text
  let path ← t.followFrom [] before
  match t.find? path with
  | none => throw .notFound
  | some (.file _) => throw .notADirectory
  | some .directory =>
    if staysPut name || name == ".." then throw .busy
    if maxName < name.utf8ByteSize then throw .nameTooLong
    if text.endsWith "/" then throw .notADirectory
    match t.find? (path ++ [name]) with
    | some .directory => throw .isADirectory
    | _ => return path ++ [name]

/-- The tree with a file in the place of what a text leads to. -/
def place (t : FileTree) (text : String) (file : File) : Except IoError FileTree :=
  return t.insert (← t.destination text) (.file file)

/-- The tree with a directory at a path, and with all directories that lead there. -/
def insertDirectories (t : FileTree) (path : Path) : FileTree :=
  ((List.range path.length).map fun n => path.take (n + 1)).foldl (fun t place =>
    match t.find? place with
    | some _ => t
    | none => t.insert place .directory) t

end FileTree

end Folio
