import Logo.Operator

/-!
# Programs

A program is a list of syntax trees. There are no statements: a command is a call that gives no
value. Every node holds the line that it starts on. The items of a list node are the words and
nested lists between its brackets; they are data and mean nothing until the list is run.
-/

namespace Logo

/-- Which keyword introduces a conditional. -/
inductive ConditionalForm where
  /-- `if`, with one branch. -/
  | oneBranch
  /-- `ifelse`, with two. -/
  | twoBranches
deriving DecidableEq

/-- The keyword of a conditional. -/
def ConditionalForm.keyword : ConditionalForm → String
  | oneBranch => "if"
  | twoBranches => "ifelse"

/-- A syntax tree. -/
inductive Node where
  /-- A number. -/
  | number (value : Float) (line : Nat)
  /-- A quoted word, or a word inside of a list. -/
  | word (text : String) (line : Nat)
  /-- `true` or `false`. -/
  | truth (value : Bool) (line : Nat)
  /-- The value of a variable. -/
  | reference (name : String) (line : Nat)
  /-- Two operands with an operator between them. -/
  | binary (op : Operator) (left right : Node) (line : Nat)
  /-- A list. -/
  | list (items : List Node) (line : Nat)
  /-- A call of a procedure. -/
  | call (name : String) (inputs : List Node) (line : Nat)
  /-- A definition of a procedure. -/
  | definition (name : String) (params : List String) (body : List Node) (line : Nat)
  /-- A choice between two branches, the second of which may be missing. -/
  | conditional (form : ConditionalForm) (condition thenBranch : Node) (elseBranch : Option Node)
      (line : Nat)

/-- The line that a node starts on. -/
def Node.line : Node → Nat
  | number _ l | word _ l | truth _ l | reference _ l | binary _ _ _ l | list _ l | call _ _ l
  | definition _ _ _ l | conditional _ _ _ _ l => l

/-- A sequence of instructions. -/
abbrev Program := List Node

end Logo
