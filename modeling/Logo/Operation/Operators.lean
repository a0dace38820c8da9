import Logo.Operator
import Logo.Value

/-!
# Infix operations

The arithmetic operators need two numbers. The operators `=` and `<>` compare any two values, the
other comparisons need numbers again.
-/

namespace Logo.Operator

/-- A value that arithmetic has no meaning for. -/
def refuses : Value → Bool
  | .list _ | .truth _ | .absent => true
  | _ => false

/-- Both operands as numbers. -/
def operands (op : Operator) (left right : Value) (line : Nat) :
    Except RuntimeError (Float × Float) :=
  if refuses left || refuses right then .error (.unsupportedOperator op.symbol line)
  else do
    let a ← left.asNumber op.symbol line
    let b ← right.asNumber op.symbol line
    return (a, b)

/-- The comparison of two values. An operator that is no comparison counts as `>=`. -/
def compare (op : Operator) (left right : Value) (line : Nat) : Except RuntimeError Value :=
  match op with
  | equal => .ok (.truth (left.alike right))
  | unequal => .ok (.truth (!left.alike right))
  | less => do let (a, b) ← op.operands left right line; return .truth (a < b)
  | greater => do let (a, b) ← op.operands left right line; return .truth (a > b)
  | atMost => do let (a, b) ← op.operands left right line; return .truth (a ≤ b)
  | _ => do let (a, b) ← op.operands left right line; return .truth (a ≥ b)

/-- The value of an infix operation. -/
def apply (op : Operator) (left right : Value) (line : Nat) : Except RuntimeError Value :=
  match op with
  | add => do let (a, b) ← op.operands left right line; return .number (a + b)
  | sub => do let (a, b) ← op.operands left right line; return .number (a - b)
  | mul => do let (a, b) ← op.operands left right line; return .number (a * b)
  | div => do let (a, b) ← op.operands left right line; return .number (a / b)
  | _ => op.compare left right line

end Logo.Operator
