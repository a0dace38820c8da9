import Logo.Value

/-!
# Operations on truth values

All inputs are looked at, also when the first ones settle the result.
-/

namespace Logo.Truths

/-- All inputs as truth values. -/
def ofInputs (inputs : List Value) (name : String) (line : Nat) : Except RuntimeError (List Bool) :=
  inputs.mapM fun v => v.asTruth name line

/-- Every input is true. -/
def conjunction (inputs : List Value) (line : Nat) : Except RuntimeError Value := do
  return .truth ((← ofInputs inputs "and" line).all id)

/-- Some input is true. -/
def disjunction (inputs : List Value) (line : Nat) : Except RuntimeError Value := do
  return .truth ((← ofInputs inputs "or" line).any id)

/-- The input is false. -/
def negation (v : Value) (line : Nat) : Except RuntimeError Value := do
  return .truth (!(← v.asTruth "not" line))

end Logo.Truths
