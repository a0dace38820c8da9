import Logo.Error
import Logo.Path

/-!
# File trees

A file tree is the content of a directory: its files by their paths. The directories are those that
the paths of the files go through. `FileTree.read` follows a path component by component, as seen
from the top of the tree. What lies above the top is a directory of which nothing is known.
-/

namespace Logo

/-- The files below a directory, by the components of their paths. -/
structure FileTree where
  /-- The paths of the files and their bytes. -/
  files : List (List String × ByteArray)

namespace FileTree

/-- What stands at a path. -/
inductive Entry where
  | file (content : ByteArray)
  | directory

/-- The tree with the given files. -/
def ofFiles (files : List (String × ByteArray)) : FileTree :=
  ⟨files.map fun (path, content) => (Path.components path, content)⟩

/-- What stands below the top at the given components. -/
def entry? (tree : FileTree) (place : List String) : Option Entry :=
  match tree.files.lookup place with
  | some content => some (.file content)
  | none => if tree.files.any fun f => place.isPrefixOf f.1 then some .directory else none

/-- Follows components from a directory of the tree, or from above its top. -/
def follow (tree : FileTree) (directory : Option (List String)) :
    List String → Except ReadError ByteArray
  | [] => .error .isDirectory
  | c :: rest =>
    if c = "" ∨ c = "." then follow tree directory rest
    else if c = ".." then
      follow tree (directory.bind fun place =>
        if place.isEmpty then none else some place.dropLast) rest
    else
      match directory with
      | none => .error .notFound
      | some place =>
        match tree.entry? (place ++ [c]) with
        | none => .error .notFound
        | some .directory => follow tree (some (place ++ [c])) rest
        | some (.file content) => if rest.isEmpty then .ok content else .error .notDirectory

/-- The bytes of the file at a path. -/
def readBytes (tree : FileTree) (path : String) : Except ReadError ByteArray :=
  if path.isEmpty then .error .notFound
  else follow tree (if Path.isAbsolute path then none else some []) (Path.components path)

/-- The text that bytes stand for. -/
def decode (bytes : ByteArray) : Except ReadError String :=
  match String.fromUTF8? bytes with
  | some text => .ok text
  | none => .error .invalidText

/-- The text of the file at a path. -/
def read (tree : FileTree) (path : String) : Except ReadError String := do
  decode (← tree.readBytes path)

end FileTree

end Logo
