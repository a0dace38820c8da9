import Logo.Console.Arguments
import Logo.Console.Dialogue
import Logo.Session

/-!
# What the command line program does

`Console.report` says what the program writes, and with which code it ends, for given arguments, a
given input and given files. Errors of scripts are reported and are no reason for a bad exit code; a
script that cannot be read is one.
-/

namespace Logo.Console

/-- What a program leaves behind. -/
structure Report where
  /-- What it has written. -/
  output : String
  /-- What it has written on the side. -/
  errors : String
  /-- The code it ends with. -/
  exitCode : Nat
deriving DecidableEq

/-- The version of the program. -/
def version : String := "logoscript 0.1.0\n"

/-- The complaint about a script that cannot be read. -/
def unreadableFile (path : String) : String :=
  "Failed to read the input file '" ++ path ++ "'. Perhaps this file does not exist?\n"

/-- The settings of an invocation. -/
def settings (readFile : String → Except ReadError String) (invocation : Invocation) : Settings :=
  { Settings.standard with
    corpus := invocation.corpus.getD Settings.standard.corpus
    readFile := readFile }

/-- What a run has newly written, what there is to complain about, and the machine after it. -/
def outcome (before : Machine) : Outcome Unit → String × String × Machine
  | .done _ after => (after.transcript.textAfter before.transcript.writes.length, "", after)
  | .failed error after =>
    (after.transcript.textAfter before.transcript.writes.length, error.message ++ "\n", after)
  | .exhausted => ("", "", before)

/-- Runs a script. -/
def runScript (bound : Nat) (settings : Settings) (source : String) : Report :=
  let (output, errors, _) := outcome .initial (Session.run bound source settings .initial)
  ⟨output, errors, 0⟩

/-- Holds a dialogue of the given lines. The prompt stands before each line and at the end. -/
def converse (bound : Nat) (settings : Settings) (pending : Pending) (m : Machine) :
    List String → String × String
  | [] => (prompt pending, "")
  | line :: lines =>
    let (after, text) := feed pending line
    match text with
    | none =>
      let (output, errors) := converse bound settings after m lines
      (prompt pending ++ output, errors)
    | some source =>
      let (written, complaint, m) := outcome m (Session.run bound source settings m)
      let (output, errors) := converse bound settings after m lines
      (prompt pending ++ written ++ output, complaint ++ errors)

/-- The report of the program. -/
def report (bound : Nat) (arguments : List String) (input : String)
    (readFile : String → Except ReadError String) : Report :=
  match Request.ofArguments arguments with
  | .version => ⟨version, "", 0⟩
  | .invalid => ⟨"", "", 2⟩
  | .start invocation =>
    let settings := settings readFile invocation
    match invocation.contents with
    | none =>
      let (output, errors) := converse bound settings "" .initial (lines input)
      ⟨String.join (greeting.map (· ++ "\n")) ++ output, errors, 0⟩
    | some contents =>
      if invocation.file then
        match readFile contents with
        | .ok source => runScript bound settings source
        | .error _ => ⟨"", unreadableFile contents, 1⟩
      else runScript bound settings contents

end Logo.Console
