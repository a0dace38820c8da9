import Logo.Token.Basic
import Logo.Vocabulary

/-!
# Readers

A reader takes tokens from the front of a list and may add arities to the vocabulary. It ends in one
of three ways: with a value and the tokens that it left, with an error, or because the bound on its
recursion was used up. What it has added to the vocabulary stays there in case of an error, too.
-/

namespace Logo

/-- How a reader ends. -/
inductive Reader.Result (α : Type) where
  /-- With a value and the tokens that are left. -/
  | done (value : α) (rest : List Placed) (vocabulary : Vocabulary)
  /-- With an error. -/
  | failed (error : ParseError) (vocabulary : Vocabulary)
  /-- Without an answer. -/
  | exhausted

/-- A reader of tokens. -/
def Reader (α : Type) := List Placed → Vocabulary → Reader.Result α

namespace Reader

variable {α β : Type}

/-- Gives a value and takes no tokens. -/
def give (value : α) : Reader α := fun tokens vocabulary => .done value tokens vocabulary

/-- Goes on with the value of a reader. -/
def andThen (r : Reader α) (next : α → Reader β) : Reader β := fun tokens vocabulary =>
  match r tokens vocabulary with
  | .done value rest vocabulary => next value rest vocabulary
  | .failed error vocabulary => .failed error vocabulary
  | .exhausted => .exhausted

instance : Monad Reader where
  pure := give
  bind := andThen

/-- Ends with an error. -/
def fail (error : ParseError) : Reader α := fun _ vocabulary => .failed error vocabulary

/-- Ends without an answer. -/
def giveUp : Reader α := fun _ _ => .exhausted

/-- The next token, which stays where it is. -/
def peek : Reader (Option Placed) := fun tokens vocabulary => .done tokens.head? tokens vocabulary

/-- Takes the next token, if there is one. -/
def next : Reader (Option Placed) := fun tokens vocabulary =>
  .done tokens.head? tokens.tail vocabulary

/-- Takes all line ends and comments up to the next other token. -/
def skipSeparators : Reader Unit := fun tokens vocabulary =>
  .done () (tokens.dropWhile fun t => t.token.isSeparator) vocabulary

/-- What is known about names so far. -/
def vocabulary : Reader Vocabulary := fun tokens vocabulary => .done vocabulary tokens vocabulary

/-- Records how many inputs follow a name. -/
def declare (name : String) (arity : Arity) : Reader Unit := fun tokens vocabulary =>
  .done () tokens (vocabulary.declare name arity)

end Reader

end Logo
