import Logo.Operator

/-!
# Tokens

A text is cut into tokens. Words come in three kinds that their first character tells apart: a
quoted `"word`, a variable `:word` and a bare word, which names a procedure or a keyword. The tokens
hold the words decoded, without marks and backslashes; `Token.spelling` writes a token again, and
`escape` puts a backslash before every character that would otherwise end a word.
-/

namespace Logo

/-- A token. -/
inductive Token where
  /-- A number, as it is written. -/
  | number (text : String)
  /-- A quoted word. -/
  | word (text : String)
  /-- The value of a variable. -/
  | reference (name : String)
  /-- A bare word. -/
  | bare (text : String)
  /-- An infix operator. -/
  | operator (op : Operator)
  | openParen
  | closeParen
  | openBracket
  | closeBracket
  | openBrace
  | closeBrace
  /-- A comment, which runs to the end of its line. -/
  | comment
  /-- The mark of a continued line and the rest of that line. -/
  | continuation
  /-- The end of a line. -/
  | newline
  /-- A run of blanks. -/
  | blank
  /-- The end of the text. -/
  | endOfText
deriving DecidableEq

/-- A token and the place where it starts. -/
structure Placed where
  /-- The token. -/
  token : Token
  /-- Its line, counted from one. -/
  line : Nat
  /-- Its column, counted in characters from one. -/
  column : Nat
deriving DecidableEq

/-! ## Words and their escapes -/

/-- A character that needs no backslash inside a word. -/
def isWordChar (c : Char) : Bool := c.isAlphanum || c == '_' || c == '.' || c == '?' || c == '\''

/-- A word with a backslash before each character that would end it. -/
def escapeChars (cs : List Char) : List Char :=
  cs.flatMap fun c => if isWordChar c then [c] else ['\\', c]

/-- A word with a backslash before each character that would end it. -/
def escape (word : String) : String := String.ofList (escapeChars word.toList)

/-- An escaped word without its backslashes. -/
def unescapeChars : List Char → List Char
  | [] => []
  | c :: cs =>
    if c = '\\' then
      match cs with
      | [] => []
      | d :: ds => d :: unescapeChars ds
    else c :: unescapeChars cs

/-! ## Spelling -/

namespace Token

/-- The token as it stands in a text. A leading `#` of a bare word needs no backslash. -/
def spelling : Token → String
  | number text => text
  | word text => "\"" ++ escape text
  | reference name => ":" ++ escape name
  | bare text =>
    match text.toList with
    | '#' :: rest => "#" ++ String.ofList (escapeChars rest)
    | letters => String.ofList (escapeChars letters)
  | operator op => op.symbol
  | openParen => "("
  | closeParen => ")"
  | openBracket => "["
  | closeBracket => "]"
  | openBrace => "\x7b"
  | closeBrace => "\x7d"
  | comment => ";"
  | continuation => "~"
  | newline => "\n"
  | blank => " "
  | endOfText => "<EOF>"

/-- A line end or a comment, which separate instructions. -/
def isSeparator : Token → Bool
  | newline | comment => true
  | _ => false

end Token

end Logo
