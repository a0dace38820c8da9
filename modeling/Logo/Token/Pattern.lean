import Logo.Error
import Logo.Token.Basic

/-!
# The patterns of tokens

Each kind of lexeme has a `Pattern`. `Pattern.munch` is the length of the longest start of a text
that fits the pattern, and zero if none does: no pattern fits the empty text. `longest` takes the
pattern that reaches farthest. Two patterns never reach equally far, so their order in `patterns`
does not matter.

* A number is a run of digits with at most one point, and at least one digit.
* A run of digits and points with two or more points is a malformed number.
* The body of a word is made of word characters and of pairs of a backslash and any character but a
  line end. A quoted word is `"` and a body; a variable is `:` and a body that is not empty.
* A bare word starts with a letter, `_`, `?` or `#`, with a point and a letter or `_`, or with a
  backslash pair; a body follows.
* A comment and a continuation run to the end of their line.
-/

namespace Logo

/-- A kind of lexeme. -/
inductive Pattern where
  | number
  | malformedNumber
  | word
  | reference
  | bare
  | comment
  | continuation
  | blank
  /-- A token with one spelling. -/
  | fixed (spelling : List Char) (token : Token)
deriving DecidableEq

/-! ## Lengths -/

/-- The length of the longest start of `cs` whose characters all satisfy `p`. -/
def runLength (p : Char → Bool) (cs : List Char) : Nat := (cs.takeWhile p).length

/-- The length of the longest number at the start of `cs`. -/
def numberLength (cs : List Char) : Nat :=
  let digits := runLength Char.isDigit cs
  match cs.drop digits with
  | '.' :: rest =>
    let places := runLength Char.isDigit rest
    if digits = 0 ∧ places = 0 then 0 else digits + 1 + places
  | _ => digits

/-- The length of a run of digits and points, if it has two or more points. -/
def malformedLength (cs : List Char) : Nat :=
  let run := cs.takeWhile fun c => c.isDigit || c == '.'
  if 2 ≤ run.count '.' then run.length else 0

/-- The length of the longest body of a word at the start of `cs`. -/
def bodyLength : List Char → Nat
  | [] => 0
  | c :: cs =>
    if isWordChar c then bodyLength cs + 1
    else if c = '\\' then
      match cs with
      | [] => 0
      | d :: ds => if d = '\n' then 0 else bodyLength ds + 2
    else 0

/-- The length of the longest first letter of a bare word at the start of `cs`. -/
def headLength : List Char → Nat
  | [] => 0
  | c :: cs =>
    if c.isAlpha || c == '_' || c == '?' || c == '#' then 1
    else if c = '.' then
      match cs with
      | d :: _ => if d.isAlpha || d == '_' then 2 else 0
      | [] => 0
    else if c = '\\' then
      match cs with
      | d :: _ => if d = '\n' then 0 else 2
      | [] => 0
    else 0

/-- The length of the longest bare word at the start of `cs`. -/
def bareLength (cs : List Char) : Nat :=
  let head := headLength cs
  if head = 0 then 0 else head + bodyLength (cs.drop head)

/-- The length of a mark and the rest of its line. -/
def lineLength (mark : Char) : List Char → Nat
  | [] => 0
  | c :: cs => if c = mark then runLength (· != '\n') cs + 1 else 0

/-- A character that stands between tokens. -/
def isSpacing (c : Char) : Bool := c == ' ' || c == '\t' || c == '\r' || c == '\x0c'

/-! ## Longest match -/

/-- The length of the longest start of a text that fits the pattern, or zero. -/
def Pattern.munch : Pattern → List Char → Nat
  | number, cs => numberLength cs
  | malformedNumber, cs => malformedLength cs
  | word, '"' :: cs => bodyLength cs + 1
  | word, _ => 0
  | reference, ':' :: cs => if bodyLength cs = 0 then 0 else bodyLength cs + 1
  | reference, _ => 0
  | bare, cs => bareLength cs
  | comment, cs => lineLength ';' cs
  | continuation, cs => lineLength '~' cs
  | blank, cs => runLength isSpacing cs
  | fixed spelling _, cs => if spelling.isPrefixOf cs then spelling.length else 0

/-- The tokens with one spelling that are not operators. -/
def punctuation : List Token :=
  [.openParen, .closeParen, .openBracket, .closeBracket, .openBrace, .closeBrace, .newline]

/-- Every pattern. -/
def patterns : List Pattern :=
  [.number, .malformedNumber, .word, .reference, .bare, .comment, .continuation, .blank]
    ++ (Operator.all.map Token.operator ++ punctuation).map
      fun token => .fixed token.spelling.toList token

/-- Of a list of patterns the one that reaches farthest, with its length, starting from the best
seen so far. -/
def farthest (best : Option (Pattern × Nat)) (cs : List Char) :
    List Pattern → Option (Pattern × Nat)
  | [] => best
  | p :: ps =>
    let length := p.munch cs
    let reach := match best with
      | some (_, n) => n
      | none => 0
    farthest (if reach < length then some (p, length) else best) cs ps

/-- The pattern that reaches farthest into the text, with its length. -/
def longest (cs : List Char) : Option (Pattern × Nat) := farthest none cs patterns

/-! ## From lexemes to tokens -/

/-- What a lexeme stands for. -/
inductive Reading where
  /-- A token. -/
  | emit (token : Token)
  /-- Nothing: the lexeme is passed over. -/
  | skip
  /-- An error. -/
  | refuse (problem : LexProblem)
deriving DecidableEq

/-- What a lexeme of the pattern stands for. The mark of a quoted word or a variable is dropped,
and backslashes are removed. -/
def Pattern.read : Pattern → List Char → Reading
  | number, lexeme => .emit (.number (String.ofList lexeme))
  | malformedNumber, lexeme => .refuse (.malformedNumber (String.ofList lexeme))
  | word, lexeme => .emit (.word (String.ofList (unescapeChars (lexeme.drop 1))))
  | reference, lexeme => .emit (.reference (String.ofList (unescapeChars (lexeme.drop 1))))
  | bare, lexeme => .emit (.bare (String.ofList (unescapeChars lexeme)))
  | comment, _ => .emit .comment
  | continuation, _ => .skip
  | blank, _ => .skip
  | fixed _ token, _ => .emit token

end Logo
