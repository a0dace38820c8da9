/-!
# Paths of scripts

`load` looks for scripts in one directory. A name without an extension gets the extension of scripts.
Paths are texts with `/` between their components; empty components and single points after the start
do not count.
-/

namespace Logo.Path

/-- The extension of scripts. -/
def scriptExtension : String := "logo"

/-- The text up to the next slash, and the components after it. -/
def split : List Char → List Char × List (List Char)
  | [] => ([], [])
  | c :: cs =>
    let (component, rest) := split cs
    if c = '/' then ([], component :: rest) else (c :: component, rest)

/-- The texts between the slashes of a path, empty ones included. -/
def components (path : String) : List String :=
  let (component, rest) := split path.toList
  (component :: rest).map String.ofList

/-- The path starts at the root. -/
def isAbsolute (path : String) : Bool := path.toList.head? == some '/'

/-- The path of `name` seen from `directory`. A path from the root stands for itself. -/
def join (directory name : String) : String :=
  if isAbsolute name then name
  else if directory.isEmpty || directory.toList.getLast? == some '/' then directory ++ name
  else directory ++ "/" ++ name

/-- A path without the slashes and single points at its end; all texts are reversed. -/
def trimReversed : List Char → List Char
  | [] => []
  | c :: cs =>
    if c = '/' then trimReversed cs
    else if c = '.' ∧ cs.head? = some '/' then trimReversed cs
    else c :: cs

/-- The path up to the end of its last component, and that component, if it is a name. -/
def lastName? (path : String) : Option (List Char × List Char) :=
  let trimmed := trimReversed path.toList.reverse
  let name := (trimmed.takeWhile (· != '/')).reverse
  if name.isEmpty || name == ['.', '.'] || trimmed == ['.'] then none
  else some (trimmed.reverse, name)

/-- The name has an extension: a point that is not its first character. -/
def hasExtension (name : List Char) : Bool := (name.drop 1).contains '.'

/-- The path with the extension of scripts, if its last component is a name without one. -/
def withExtension (path : String) : String :=
  match lastName? path with
  | some (upToName, name) =>
    if hasExtension name then path else String.ofList upToName ++ "." ++ scriptExtension
  | none => path

/-- The path of the script `name` in `directory`. -/
def script (directory name : String) : String := withExtension (join directory name)

end Logo.Path
