import Logo.Token.Pattern

/-!
# Cutting a text into tokens

`tokenize` walks once through the characters of a text. At the start of each lexeme it asks for the
pattern that reaches farthest, says what the lexeme stands for, and then counts off the other
characters of the lexeme. The first lexeme that stands for an error ends the walk. The tokens end
with exactly one `endOfText`.
-/

namespace Logo

/-- A place in a text. -/
structure Position where
  /-- The line, counted from one. -/
  line : Nat
  /-- The column, counted in characters from one. -/
  column : Nat
deriving DecidableEq

namespace Position

/-- The place of the first character. -/
def start : Position := ⟨1, 1⟩

/-- The place after a character. -/
def next (p : Position) (c : Char) : Position :=
  if c = '\n' then ⟨p.line + 1, 1⟩ else ⟨p.line, p.column + 1⟩

/-- The place of a token that starts here. A line end is given column zero. -/
def place (p : Position) (token : Token) : Placed :=
  ⟨token, p.line, if token = .newline then 0 else p.column⟩

end Position

/-- The tokens of the rest of a text, after `pending` more characters of the lexeme being read. -/
def scan (p : Position) : (pending : Nat) → List Char → Except LexError (List Placed)
  | _, [] => .ok [p.place .endOfText]
  | pending + 1, c :: cs => scan (p.next c) pending cs
  | 0, c :: cs =>
    match longest (c :: cs) with
    | none => .error ⟨.unknownCharacter c, p.line, p.column⟩
    | some (pattern, length) =>
      match pattern.read ((c :: cs).take length) with
      | .emit token =>
        match scan (p.next c) (length - 1) cs with
        | .ok tokens => .ok (p.place token :: tokens)
        | .error e => .error e
      | .skip => scan (p.next c) (length - 1) cs
      | .refuse problem => .error ⟨problem, p.line, p.column⟩

/-- The tokens of a text. -/
def tokenize (source : String) : Except LexError (List Placed) := scan .start 0 source.toList

end Logo
