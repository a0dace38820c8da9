/-!
# Infix operators

The ten operators that stand between two operands, how they are written and how tightly they bind.
-/

namespace Logo

/-- An operator that stands between its two operands. -/
inductive Operator where
  | add
  | sub
  | mul
  | div
  | less
  | greater
  | atMost
  | atLeast
  | equal
  | unequal
deriving DecidableEq

namespace Operator

/-- Every operator. -/
def all : List Operator :=
  [.add, .sub, .mul, .div, .less, .greater, .atMost, .atLeast, .equal, .unequal]

/-- How the operator is written. -/
def symbol : Operator → String
  | add => "+"
  | sub => "-"
  | mul => "*"
  | div => "/"
  | less => "<"
  | greater => ">"
  | atMost => "<="
  | atLeast => ">="
  | equal => "="
  | unequal => "<>"

/-- How tightly the operator binds: products before sums before comparisons. -/
def precedence : Operator → Nat
  | mul | div => 20
  | add | sub => 10
  | less | greater | atMost | atLeast | equal | unequal => 7

end Operator

end Logo
