import Logo.Value

/-!
# Operations on numbers

Arithmetic is that of doubles: a division by zero and a result that is too large give an infinity.
-/

namespace Logo.Numbers

/-- All inputs as numbers. -/
def ofInputs (inputs : List Value) (name : String) (line : Nat) : Except RuntimeError (List Float) :=
  inputs.mapM fun v => v.asNumber name line

/-- The sum of the inputs. It starts from negative zero, which changes no number it is added to. -/
def sum (inputs : List Value) (line : Nat) : Except RuntimeError Value := do
  return .number ((← ofInputs inputs "sum" line).foldl (· + ·) (-0.0))

/-- The product of the inputs. -/
def product (inputs : List Value) (line : Nat) : Except RuntimeError Value := do
  return .number ((← ofInputs inputs "product" line).foldl (· * ·) 1.0)

/-- The difference of two inputs. -/
def difference (a b : Value) (line : Nat) : Except RuntimeError Value := do
  let x ← a.asNumber "difference" line
  let y ← b.asNumber "difference" line
  return .number (x - y)

/-- The quotient of two inputs, or one divided by the only input. -/
def quotient (a : Value) (b : Option Value) (line : Nat) : Except RuntimeError Value := do
  let x ← a.asNumber "quotient" line
  match b with
  | some b => return .number (x / (← b.asNumber "quotient" line))
  | none => return .number (1.0 / x)

/-- The remainder of a division, with the sign of the dividend. -/
def remainder (a b : Value) (line : Nat) : Except RuntimeError Value := do
  let x ← a.asNumber "remainder" line
  let y ← b.asNumber "remainder" line
  return .number (Number.remainder x y)

/-- The number with the opposite sign. -/
def minus (v : Value) (line : Nat) : Except RuntimeError Value := do
  return .number (-(← v.asNumber "minus" line))

/-- The number without its fraction. -/
def int (v : Value) (line : Nat) : Except RuntimeError Value := do
  return .number (Number.truncate (← v.asNumber "int" line))

/-- The nearest whole number; a half goes away from zero. -/
def round (v : Value) (line : Nat) : Except RuntimeError Value := do
  return .number (Number.round (← v.asNumber "round" line))

/-- The square root of a number that is not below zero. -/
def sqrt (v : Value) (line : Nat) : Except RuntimeError Value := do
  let x ← v.asNumber "sqrt" line
  if x < 0.0 then throw (v.invalidFor "sqrt" line) else return .number x.sqrt

end Logo.Numbers
