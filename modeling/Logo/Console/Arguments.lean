/-!
# Arguments of the command line

* `-f`, `--file`: the contents are the path of a script, and not a script;
* `-c`, `--corpus`: the directory of the scripts that programs load, as the next argument, after an
  equals sign, or in the rest of a group of short options;
* `-d`, `--debug`: more is reported on the side;
* `-V`, `--version`: only the version is written;
* `--`: all that follows are no options.

Short options can be grouped behind one dash. There is at most one argument that is no option.
-/

namespace Logo.Console

/-- What the command line asks for. -/
structure Invocation where
  /-- The contents are a path. -/
  file : Bool
  /-- More is reported. -/
  debug : Bool
  /-- The directory of the scripts, if it is given. -/
  corpus : Option String
  /-- The script or the path of the script, if there is one. -/
  contents : Option String
deriving DecidableEq

/-- What is to be done. -/
inductive Request where
  /-- Run a script or start a dialogue. -/
  | start (invocation : Invocation)
  /-- Write the version. -/
  | version
  /-- The arguments make no sense. -/
  | invalid
deriving DecidableEq

namespace Request

/-- What reading a group of short options leads to. -/
inductive Group where
  /-- All options are read. -/
  | done (invocation : Invocation)
  /-- The last option needs the next argument as its value. -/
  | wantsCorpus (invocation : Invocation)
  /-- Nothing else matters. -/
  | settled (request : Request)

/-- Takes a directory of scripts. It is given once, and it has a name. -/
def withCorpus (invocation : Invocation) (directory : List Char) : Option Invocation :=
  if invocation.corpus.isSome || directory.isEmpty then none
  else some { invocation with corpus := some (String.ofList directory) }

/-- Takes an argument that is no option. -/
def withContents (invocation : Invocation) (contents : String) : Option Invocation :=
  if invocation.contents.isSome then none else some { invocation with contents := some contents }

/-- Reads a group of short options. -/
def group (invocation : Invocation) : List Char → Group
  | [] => .done invocation
  | c :: cs =>
    if c = 'f' then
      if invocation.file then .settled .invalid else group { invocation with file := true } cs
    else if c = 'd' then
      if invocation.debug then .settled .invalid else group { invocation with debug := true } cs
    else if c = 'V' then .settled .version
    else if c = 'c' then
      match cs with
      | [] => .wantsCorpus invocation
      | '=' :: directory =>
        match withCorpus invocation directory with
        | some invocation => .done invocation
        | none => .settled .invalid
      | directory =>
        match withCorpus invocation directory with
        | some invocation => .done invocation
        | none => .settled .invalid
    else .settled .invalid

/-- Reads one argument that starts with a dash. -/
def option (invocation : Invocation) (argument : List Char) : Group :=
  match argument with
  | '-' :: '-' :: name =>
    if name = "file".toList then group invocation ['f']
    else if name = "debug".toList then group invocation ['d']
    else if name = "version".toList then .settled .version
    else if name = "corpus".toList then .wantsCorpus invocation
    else if "corpus=".toList.isPrefixOf name then group invocation ('c' :: name.drop 6)
    else .settled .invalid
  | _ => group invocation (argument.drop 1)

/-- The argument is an option: it starts with a dash and has more than that. -/
def isOption (argument : String) : Bool :=
  match argument.toList with
  | '-' :: _ :: _ => true
  | _ => false

/-- Reads arguments after the first ones have been read. `optionsOver` says that no more options
follow, `wantsCorpus` that the next argument is the directory of the scripts. -/
def read (invocation : Invocation) (optionsOver wantsCorpus : Bool) : List String → Request
  | [] => if wantsCorpus then .invalid else .start invocation
  | argument :: rest =>
    if wantsCorpus then
      if isOption argument then .invalid
      else
        match withCorpus invocation argument.toList with
        | some invocation => read invocation optionsOver false rest
        | none => .invalid
    else if optionsOver || !isOption argument then
      match withContents invocation argument with
      | some invocation => read invocation optionsOver false rest
      | none => .invalid
    else if argument = "--" then read invocation true false rest
    else
      match option invocation argument.toList with
      | .done invocation => read invocation false false rest
      | .wantsCorpus invocation => read invocation false true rest
      | .settled request => request

/-- What the arguments ask for. -/
def ofArguments (arguments : List String) : Request :=
  read ⟨false, false, none, none⟩ false false arguments

end Request

end Logo.Console
