import Logo.Console.Report
import Logo.FileTree

/-!
# The program

The outer layer: it reads arguments, files and lines and writes texts. Programs are run by pure
functions, which know only the files that they are given; a run that asks for an unknown file is
repeated with that file, from the machine that it started on.
-/

namespace Logo.Main

open Logo.Console

/-- The files that have been asked for. -/
abbrev Known := List (String × Except ReadError String)

/-- Reads a file. -/
def fetch (path : String) : IO (Except ReadError String) := do
  try
    return FileTree.decode (← IO.FS.readBinFile path)
  catch
    | .inappropriateType .. => return .error .isDirectory
    | .noFileOrDirectory .. => return .error .notFound
    | _ => return .error .notDirectory

/-- The settings with the files that are known. -/
def knowing (settings : Settings) (known : Known) : Settings :=
  { settings with readFile := fun path => (known.lookup path).getD (.error .notFound) }

/-- A bound on the depth of recursion that no run reaches. -/
def noBound : Nat := Nat.pow 2 60

/-- Runs a text, writes what it writes, and gives the machine after it. -/
partial def runOn (settings : Settings) (known : Known) (m : Machine) (source : String) :
    IO (Known × Machine) := do
  let result := Session.run noBound source (knowing settings known) m
  if let .failed (.loadFailed path _ _) _ := result then
    if (known.lookup path).isNone then
      return ← runOn settings ((path, ← fetch path) :: known) m source
  let (written, complaint, after) := outcome m result
  IO.print written
  IO.eprint complaint
  return (known, after)

/-- Holds a dialogue. -/
partial def converse (settings : Settings) (known : Known) (pending : Pending) (m : Machine) :
    IO Unit := do
  IO.print (prompt pending)
  (← IO.getStdout).flush
  let line ← (← IO.getStdin).getLine
  if line.isEmpty then return
  let (pending, text) := feed pending ((lines line).headD "")
  match text with
  | none => converse settings known pending m
  | some source =>
    let (known, m) ← runOn settings known m source
    converse settings known pending m

/-- Does what the arguments ask for. -/
def start (arguments : List String) : IO UInt32 := do
  match Request.ofArguments arguments with
  | .version => IO.print version; return 0
  | .invalid => IO.eprintln "error: these arguments make no sense"; return 2
  | .start invocation =>
    let settings := settings (fun _ => .error .notFound) invocation
    match invocation.contents with
    | none =>
      greeting.forM fun line => IO.println line
      converse settings [] "" .initial
      return 0
    | some contents =>
      if invocation.file then
        match ← fetch contents with
        | .ok source => let _ ← runOn settings [] .initial source; return 0
        | .error _ => IO.eprint (unreadableFile contents); return 1
      else
        let _ ← runOn settings [] .initial contents
        return 0

end Logo.Main

/-- The program. -/
def main (arguments : List String) : IO UInt32 := Logo.Main.start arguments
