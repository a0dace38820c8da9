/-!
# What can go wrong

Errors are causes, each with the line it belongs to; their wording stands in the three `message`
functions and nowhere else. There are three layers: a text that cannot be cut into tokens
(`LexError`), tokens that form no program (`ParseError`), and a program that cannot go on
(`RuntimeError`). Each layer holds the one below it, because running a list means reading its text
again.
-/

namespace Logo

/-- The start of every message about a line. -/
def onLine (line : Nat) (rest : String) : String := "Error on line " ++ toString line ++ ": " ++ rest

/-! ## Tokens -/

/-- Why a text cannot be cut into tokens. -/
inductive LexProblem where
  /-- No token starts with this character, or none that the following characters allow. -/
  | unknownCharacter (character : Char)
  /-- A number with two or more decimal points. -/
  | malformedNumber (text : String)
deriving DecidableEq

/-- A problem with a token and the place where the token starts. -/
structure LexError where
  /-- What is wrong. -/
  problem : LexProblem
  /-- The line, counted from one. -/
  line : Nat
  /-- The column, counted in characters from one. -/
  column : Nat
deriving DecidableEq

/-- The wording of a token error. -/
def LexError.message (e : LexError) : String :=
  "Error on line " ++ toString e.line ++ ":" ++ toString e.column ++ ": " ++
    match e.problem with
    | .unknownCharacter c => "Unknown token '" ++ c.toString ++ "'."
    | .malformedNumber text => "Invalid number '" ++ text ++ "' - multiple decimals found."

/-! ## Programs -/

/-- What is wrong with the head of a procedure definition. -/
inductive HeadProblem where
  /-- The line or the text ends after `to`. -/
  | missingName
  /-- Something that is no bare word follows `to`. -/
  | invalidName (token : String)
  /-- The name belongs to a keyword or a built-in procedure. -/
  | taken (name : String)
deriving DecidableEq

/-- The wording of a problem with the head of a definition. -/
def HeadProblem.message : HeadProblem → String
  | missingName => "missing procedure name"
  | invalidName token => token ++ " is not a valid procedure name"
  | taken name => name ++ " is already defined"

/-- Why tokens form no program. -/
inductive ParseError where
  /-- The text has no tokens to begin with. -/
  | lexical (error : LexError)
  /-- A token in a place where nothing can start with it. -/
  | unexpectedToken (token : String) (line : Nat)
  /-- An operand is missing at the end of the text. -/
  | unexpectedEnd (line : Nat)
  /-- A parenthesis that nothing closes. -/
  | unclosedParen (line : Nat)
  /-- A bracket that nothing closes. -/
  | unclosedBracket (line : Nat)
  /-- A call of a name that nobody has introduced. -/
  | unknownCommand (name : String) (line : Nat)
  /-- A definition with a bad head. -/
  | invalidDefinition (problem : HeadProblem) (line : Nat)
  /-- A definition that the text ends in the middle of. -/
  | missingEnd (name : String) (line : Nat)
deriving DecidableEq

namespace ParseError

/-- The line of the error. -/
def line : ParseError → Nat
  | lexical e => e.line
  | unexpectedToken _ l | unexpectedEnd l | unclosedParen l | unclosedBracket l
  | unknownCommand _ l | invalidDefinition _ l | missingEnd _ l => l

/-- The wording of the error. -/
def message : ParseError → String
  | lexical e => e.message
  | unexpectedToken token l => onLine l ("Unexpected token: " ++ token ++ ".")
  | unexpectedEnd l => onLine l "Unexpected end of input."
  | unclosedParen l => onLine l "Expected closing parenthesis ')' but none found."
  | unclosedBracket l => onLine l "Expected closing bracket ']' but none found."
  | unknownCommand name l => onLine l ("I don't know how to " ++ name ++ ".")
  | invalidDefinition problem l =>
    onLine l ("Invalid procedure definition: " ++ problem.message
      ++ ". Example: to double :n output :n * 2 end")
  | missingEnd name l => onLine l ("Procedure '" ++ name ++ "' is missing 'end'.")

/-- How many errors stand behind this one. -/
def depth : ParseError → Nat
  | lexical _ => 1
  | _ => 0

end ParseError

/-! ## Files -/

/-- Why a script cannot be read. -/
inductive ReadError where
  | notFound
  | isDirectory
  | notDirectory
  | invalidText
deriving DecidableEq

/-- The wording of a reading error. -/
def ReadError.message : ReadError → String
  | notFound => "No such file or directory (os error 2)"
  | isDirectory => "Is a directory (os error 21)"
  | notDirectory => "Not a directory (os error 20)"
  | invalidText => "stream did not contain valid UTF-8"

/-! ## Running -/

/-- Why a program cannot go on. -/
inductive RuntimeError where
  /-- The text to run is no program. -/
  | unreadable (error : ParseError)
  /-- A variable without a value. -/
  | undefinedVariable (name : String) (line : Nat)
  /-- A call of a name that stands for no procedure. -/
  | unknownProcedure (name : String) (line : Nat)
  /-- An operator between operands that it has no meaning for. -/
  | unsupportedOperator (operator : String) (line : Nat)
  /-- A built-in procedure with too few inputs. -/
  | notEnoughInputs (name : String) (line : Nat)
  /-- An input of the wrong kind. -/
  | invalidInput (name input : String) (line : Nat)
  /-- A value that nothing uses. -/
  | unconsumedValue (value : String) (line : Nat)
  /-- An input whose call gave no value. -/
  | noOutput (name consumer : String) (line : Nat)
  /-- `output` or `stop` outside of a procedure. -/
  | outsideProcedure (name : String) (line : Nat)
  /-- A name that is set aside. -/
  | unimplemented (name : String) (line : Nat)
  /-- An index that no member has. -/
  | indexOutOfBounds (greatest : Nat) (found : Int) (line : Nat)
  /-- Too many procedure calls inside each other. -/
  | recursionLimit (depth line : Nat)
  /-- A script that cannot be read. -/
  | loadFailed (path : String) (cause : ReadError) (line : Nat)
  /-- A text that cannot be written. -/
  | outputFailed (details : String) (line : Nat)
  /-- A number above the range it is needed in. -/
  | literalTooLarge (line : Nat)
  /-- A number below the range it is needed in. -/
  | literalTooSmall (line : Nat)
  /-- A fraction where a whole number is needed. -/
  | fractionalNumber (line : Nat)
deriving DecidableEq

namespace RuntimeError

/-- The line of the error. -/
def line : RuntimeError → Nat
  | unreadable e => e.line
  | undefinedVariable _ l | unknownProcedure _ l | unsupportedOperator _ l | notEnoughInputs _ l
  | invalidInput _ _ l | unconsumedValue _ l | noOutput _ _ l | outsideProcedure _ l
  | unimplemented _ l | indexOutOfBounds _ _ l | recursionLimit _ l | loadFailed _ _ l
  | outputFailed _ l | literalTooLarge l | literalTooSmall l | fractionalNumber l => l

/-- The wording of the error. -/
def message : RuntimeError → String
  | unreadable e => e.message
  | undefinedVariable name l => onLine l (name ++ " has no value.")
  | unknownProcedure name l => onLine l ("I don't know how to " ++ name ++ ".")
  | unsupportedOperator operator l => onLine l ("Can't apply operator " ++ operator ++ ".")
  | notEnoughInputs name l => onLine l ("Not enough inputs to " ++ name ++ ".")
  | invalidInput name input l => onLine l (name ++ " doesn't like " ++ input ++ " as input.")
  | unconsumedValue value l => onLine l ("You don't say what to do with " ++ value ++ ".")
  | noOutput name consumer l => onLine l (name ++ " didn't output to " ++ consumer ++ ".")
  | outsideProcedure name l => onLine l ("Can only use " ++ name ++ " inside a procedure.")
  | unimplemented name l => onLine l (name ++ " is not implemented.")
  | indexOutOfBounds greatest found l =>
    onLine l ("Index out of bounds. Maximum is " ++ toString greatest ++ ", but found "
      ++ toString found ++ " instead.")
  | recursionLimit depth l =>
    onLine l ("Procedure calls nested deeper than " ++ toString depth ++ " levels.")
  | loadFailed path cause l =>
    onLine l ("Failed to load '" ++ path ++ "': " ++ cause.message ++ ".")
  | outputFailed details l => onLine l ("Failed to write output: " ++ details ++ ".")
  | literalTooLarge l => onLine l "Literal is too large."
  | literalTooSmall l => onLine l "Literal is too small."
  | fractionalNumber l =>
    onLine l "Value is fractional and cannot be safely converted to an integer."

/-- How many errors stand behind this one. -/
def depth : RuntimeError → Nat
  | unreadable e => e.depth + 1
  | _ => 0

end RuntimeError

end Logo
