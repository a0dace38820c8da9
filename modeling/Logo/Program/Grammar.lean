import Logo.Number.Text
import Logo.Program.Reader
import Logo.Token.Scan

/-!
# The grammar

`Program.ofTokens` reads a program. How many expressions belong to a call depends on the name that is
called, so the reader looks names up in the vocabulary, and a definition adds its name there before
its body is read.

* An expression is an operand, followed by infix operators and their right operands. Of the operators
  it takes those that bind tighter than a given floor; the right operand of an operator is read with
  the operator's own precedence as floor, so operators of one precedence group to the left.
* An operand is a number, a word, a variable, a minus sign and an operand, a group in parentheses, a
  list in brackets, or whatever a bare word introduces: a definition, a conditional, a truth value or
  a call.
* A call takes its inputs until it has as many as its name asks for, or until the line, the text or
  the surrounding group ends. In parentheses it takes all that stand there.

The readers call each other with a bound on the depth of the recursion. Three for every token, and
three more, are enough: between two calls of the same reader a token is taken, and a chain of calls
without taking one has at most three links.
-/

namespace Logo

namespace Grammar

/-! ## Keywords -/

/-- The words that are no names of procedures. -/
def keywords : List String := ["to", "end", "if", "ifelse", "true", "false"]

/-- The word is a keyword, in any case of its letters. -/
def isKeyword (word : String) : Bool := keywords.any fun keyword => Text.sameLetters keyword word

/-- What a bare word introduces. -/
inductive Opening where
  | definition
  | conditional (form : ConditionalForm)
  | truth (value : Bool)
  | stray
  | call
deriving DecidableEq

/-- What a bare word introduces. -/
def Opening.ofWord (word : String) : Opening :=
  match Text.lower word with
  | "to" => .definition
  | "if" => .conditional .oneBranch
  | "ifelse" => .conditional .twoBranches
  | "true" => .truth true
  | "false" => .truth false
  | "end" => .stray
  | _ => .call

/-! ## Lists -/

/-- The rest of a list whose bracket was opened on `line` and of which `items` have been read, last
one first. `outer` holds the lists around it in the same way, innermost first. -/
def listItems (line : Nat) (items : List Node) (outer : List (Nat × List Node)) :
    List Placed → Except ParseError (Node × List Placed)
  | [] => .error (.unclosedBracket line)
  | t :: ts =>
    match t.token with
    | .closeBracket =>
      match outer with
      | [] => .ok (.list items.reverse line, ts)
      | (outerLine, outerItems) :: rest =>
        listItems outerLine (.list items.reverse line :: outerItems) rest ts
    | .openBracket => listItems t.line [] ((line, items) :: outer) ts
    | .newline | .comment => listItems line items outer ts
    | .endOfText => .error (.unclosedBracket line)
    | token => listItems line (.word token.spelling t.line :: items) outer ts

/-- A list, after its opening bracket. Its items are the spellings of its tokens. -/
def list (line : Nat) : Reader Node := fun tokens vocabulary =>
  match listItems line [] [] tokens with
  | .ok (node, rest) => .done node rest vocabulary
  | .error e => .failed e vocabulary

/-! ## Sequences -/

/-- What ends a sequence of expressions. -/
inductive Closer where
  /-- The end of the text. -/
  | text
  /-- A closing parenthesis; the line is that of the opening one. -/
  | paren (line : Nat)
  /-- The word `end`; name and line are those of the definition. -/
  | definition (name : String) (line : Nat)
deriving DecidableEq

/-- The token ends the sequence and belongs to it. -/
def Closer.closes : Closer → Token → Bool
  | .paren _, .closeParen => true
  | .definition _ _, .bare word => Text.sameLetters word "end"
  | _, _ => false

/-- What the end of the text means for the sequence. -/
def Closer.atEnd : Closer → Reader (List Node)
  | .text => Reader.give []
  | .paren line => Reader.fail (.unclosedParen line)
  | .definition name line => Reader.fail (.missingEnd name line)

/-- There are no more tokens, or only the mark of the end. -/
def isEnd : Option Placed → Bool
  | none => true
  | some t => t.token == .endOfText

/-- The token cannot start another input of a call. -/
def endsInputs : Option Placed → Bool
  | none => true
  | some t =>
    match t.token with
    | .newline | .comment | .endOfText | .closeParen | .closeBracket => true
    | _ => false

/-! ## Operands made of expressions -/

/-- A group, after its opening parenthesis on `line`. If it starts with a bare word that is no
keyword, it is a call with all inputs that follow; otherwise it is one expression. -/
def group (expression : Reader Node) (sequence : Closer → Reader (List Node)) (line : Nat) :
    Reader Node := do
  Reader.skipSeparators
  match (← Reader.peek).map Placed.token with
  | some (.bare name) =>
    if isKeyword name then enclosed
    else
      let _ ← Reader.next
      if ((← Reader.vocabulary).arity? name).isNone then Reader.fail (.unknownCommand name line)
      else
        let inputs ← sequence (.paren line)
        return .call (Text.lower name) inputs line
  | _ => enclosed
where
  /-- One expression and the closing parenthesis. -/
  enclosed : Reader Node := do
    let node ← expression
    Reader.skipSeparators
    match (← Reader.next).map Placed.token with
    | some .closeParen => return node
    | _ => Reader.fail (.unclosedParen line)

/-- A call without parentheses, after its name. -/
def call (inputs : Nat → Reader (List Node)) (name : String) (line : Nat) : Reader Node := do
  match (← Reader.vocabulary).arity? name with
  | some (.fixed count) =>
    let nodes ← inputs count
    return .call (Text.lower name) nodes line
  | some .special => Reader.fail (.unexpectedToken name line)
  | none => Reader.fail (.unknownCommand name line)

/-- The name of a parameter, in small letters. -/
def paramName? (t : Placed) : Option String :=
  match t.token with
  | .reference name => some (Text.lower name)
  | _ => none

/-- The names of the parameters that come next. -/
def params : Reader (List String) := fun tokens vocabulary =>
  let isParam (t : Placed) : Bool := (paramName? t).isSome
  .done ((tokens.takeWhile isParam).filterMap paramName?) (tokens.dropWhile isParam) vocabulary

/-- The name of a definition, in small letters. It must not belong to a keyword or to a built-in
procedure. -/
def definedName (line : Nat) : Reader String := do
  match (← Reader.next).map Placed.token with
  | some (.bare word) =>
    let name := Text.lower word
    if isKeyword name || (← Reader.vocabulary).isBuiltin name then
      Reader.fail (.invalidDefinition (.taken name) line)
    else return name
  | none | some .endOfText | some .newline => Reader.fail (.invalidDefinition .missingName line)
  | some token => Reader.fail (.invalidDefinition (.invalidName token.spelling) line)

/-- A definition, after the word `to`. Its name is known before its body is read. -/
def definition (sequence : Closer → Reader (List Node)) (line : Nat) : Reader Node := do
  let name ← definedName line
  let names ← params
  Reader.declare name (.fixed names.length)
  let body ← sequence (.definition name line)
  return .definition name names body line

/-- A condition or a branch of a conditional on `line`. -/
def branch (expression : Reader Node) (line : Nat) : Reader Node := do
  let t ← Reader.peek
  if isEnd t then Reader.fail (.unexpectedEnd (max (t.elim 0 Placed.line) line)) else expression

/-- A conditional, after its keyword. -/
def conditional (expression : Reader Node) (form : ConditionalForm) (line : Nat) : Reader Node := do
  let condition ← branch expression line
  let thenBranch ← branch expression line
  match form with
  | .oneBranch => return .conditional form condition thenBranch none line
  | .twoBranches =>
    let elseBranch ← branch expression line
    return .conditional form condition thenBranch (some elseBranch) line

/-! ## The mutual recursion -/

mutual

/-- An expression with the operators that bind tighter than `floor`. -/
def expression : (bound : Nat) → (floor : Nat) → Reader Node
  | 0, _ => Reader.giveUp
  | bound + 1, floor => do
    let left ← operand bound
    operators bound floor left

/-- The operators after an operand that bind tighter than `floor`, and their right operands. -/
def operators : (bound : Nat) → (floor : Nat) → (left : Node) → Reader Node
  | 0, _, _ => Reader.giveUp
  | bound + 1, floor, left => do
    match ← Reader.peek with
    | some ⟨.operator op, line, _⟩ =>
      if floor < op.precedence then
        let _ ← Reader.next
        let right ← expression bound op.precedence
        operators bound floor (.binary op left right line)
      else return left
    | _ => return left

/-- An operand. A minus sign takes the operand away from zero. -/
def operand : (bound : Nat) → Reader Node
  | 0 => Reader.giveUp
  | bound + 1 => do
    match ← Reader.next with
    | none => Reader.fail (.unexpectedEnd 0)
    | some ⟨token, line, _⟩ =>
      match token with
      | .number text =>
        match Number.read? text with
        | some x => return .number x line
        | none => Reader.fail (.unexpectedToken text line)
      | .word text => return .word text line
      | .reference name => return .reference (Text.lower name) line
      | .operator .sub =>
        let node ← operand bound
        return .binary .sub (.number 0.0 line) node line
      | .openParen => group (expression bound 0) (sequence bound) line
      | .openBracket => list line
      | .bare word =>
        match Opening.ofWord word with
        | .definition => definition (sequence bound) line
        | .conditional form => conditional (expression bound 0) form line
        | .truth value => return .truth value line
        | .stray => Reader.fail (.unexpectedToken word line)
        | .call => call (inputs bound) word line
      | .endOfText => Reader.fail (.unexpectedEnd line)
      | .newline => Reader.fail (.unexpectedToken "end of line" line)
      | token => Reader.fail (.unexpectedToken token.spelling line)

/-- Expressions up to a closer. -/
def sequence : (bound : Nat) → (closer : Closer) → Reader (List Node)
  | 0, _ => Reader.giveUp
  | bound + 1, closer => do
    Reader.skipSeparators
    match ← Reader.peek with
    | none => closer.atEnd
    | some t =>
      if t.token = .endOfText then closer.atEnd
      else if closer.closes t.token then
        let _ ← Reader.next
        return []
      else
        let node ← expression bound 0
        let nodes ← sequence bound closer
        return node :: nodes

/-- Up to `count` inputs of a call. -/
def inputs : (bound : Nat) → (count : Nat) → Reader (List Node)
  | 0, _ => Reader.giveUp
  | _ + 1, 0 => return []
  | bound + 1, count + 1 => do
    if endsInputs (← Reader.peek) then return []
    else
      let node ← expression bound 0
      let nodes ← inputs bound count
      return node :: nodes

end

end Grammar

/-! ## Programs -/

namespace Program

/-- A depth of recursion that is enough for the tokens. -/
def bound (tokens : List Placed) : Nat := 3 * tokens.length + 3

/-- The program that the tokens form, and the vocabulary with what it has declared. The tokens may
end without the mark of the end. -/
def ofTokens (tokens : List Placed) (vocabulary : Vocabulary) :
    Except ParseError Program × Vocabulary :=
  match Grammar.sequence (bound tokens) .text tokens vocabulary with
  | .done program _ vocabulary => (.ok program, vocabulary)
  | .failed error vocabulary => (.error error, vocabulary)
  | .exhausted => (.error (.unexpectedEnd 0), vocabulary)

/-- The program that a text forms, and the vocabulary with what it has declared. -/
def ofText (source : String) (vocabulary : Vocabulary) : Except ParseError Program × Vocabulary :=
  match tokenize source with
  | .ok tokens => ofTokens tokens vocabulary
  | .error e => (.error (.lexical e), vocabulary)

end Program

end Logo
