import Logo.Text.Blank
import Logo.Text.Case

/-!
# Dialogues

In a dialogue a program is typed line by line. A line is run at once, unless it opens a definition:
then lines are collected up to the one that ends the definition, and run together. `feed` takes one
line; `blocks` says which texts a whole dialogue runs.
-/

namespace Logo.Console

/-- The words before the lines of a dialogue. -/
def greeting : List String :=
  ["logoscript 0.1.0",
   "Define procedures with `to NAME ... end`. Press Ctrl+D to exit."]

/-- The line opens a definition: its first word is `to`. -/
def startsDefinition (line : String) : Bool :=
  (Text.words line).head?.any fun word => Text.sameLetters word "to"

/-- The line ends a definition: its last word is `end`. -/
def endsDefinition (line : String) : Bool :=
  (Text.words line).getLast?.any fun word => Text.sameLetters word "end"

/-- The lines of the open definition, each with its line end. It is empty if none is open. -/
abbrev Pending := String

/-- What is written before a line is read. -/
def prompt (pending : Pending) : String := if pending.isEmpty then "? " else "> "

/-- Takes a line: what is pending after it, and the text that is to be run. -/
def feed (pending : Pending) (line : String) : Pending × Option String :=
  if pending.isEmpty && !startsDefinition line then
    (pending, if (Text.words line).isEmpty then none else some line)
  else
    let definition := pending ++ line ++ "\n"
    if endsDefinition line then ("", some definition) else (definition, none)

/-- The texts that a dialogue runs, in their order. A definition that stays open is dropped. -/
def blocks (pending : Pending) : List String → List String
  | [] => []
  | line :: lines =>
    let (pending, text) := feed pending line
    text.toList ++ blocks pending lines

/-- The lines of a text, when `line` has been read of the first one, last character first. A line end
may have a carriage return before it, and the last line may lack one. -/
def linesFrom (line : List Char) : List Char → List String
  | [] => if line.isEmpty then [] else [String.ofList line.reverse]
  | c :: cs =>
    if c = '\n' then
      let whole := if line.head? = some '\r' then line.drop 1 else line
      String.ofList whole.reverse :: linesFrom [] cs
    else linesFrom (c :: line) cs

/-- The lines of a text. -/
def lines (text : String) : List String := linesFrom [] text.toList

end Logo.Console
