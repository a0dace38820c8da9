import Logo.Number.Binary

/-!
# The shortest decimal of a double

The reals that round to a given double form an interval around it. Among the decimals of that
interval `Binary.shortest` takes one with the fewest digits, and of those the nearest; a tie goes
away from zero. The search runs over the grids of one, two, … seventeen digits and looks, on each, at
the two grid points around the double, by exact comparisons. Signs play no part here: all functions
speak of the size of a double.
-/

namespace Logo.Number

/-- A decimal: `digits · 10 ^ exponent`. -/
structure Decimal where
  /-- The digits, read as one number. -/
  digits : Nat
  /-- The exponent of ten. -/
  exponent : Int
deriving DecidableEq

namespace Decimal

/-- Compares the decimal with `n · 2 ^ j`. -/
def compareBinary (d : Decimal) (n : Nat) (j : Int) : Ordering :=
  compare (d.digits * Nat.pow 10 d.exponent.toNat * Nat.pow 2 (-j).toNat)
    (n * Nat.pow 2 j.toNat * Nat.pow 10 (-d.exponent).toNat)

/-- Moves up to `count` trailing zeros from the digits into the exponent. -/
def dropZeros : (count : Nat) → Decimal → Decimal
  | 0, d => d
  | count + 1, d =>
    if d.digits ≠ 0 ∧ d.digits % 10 = 0 then dropZeros count ⟨d.digits / 10, d.exponent + 1⟩ else d

end Decimal

namespace Binary

/-- The decimal lies among the reals that round to `b`: from halfway to the double below to halfway
to the double above, ends included exactly when the mantissa is even. Below a power of two the
doubles are twice as dense. -/
def readsBack (b : Binary) (d : Decimal) : Bool :=
  let dense := b.mantissa == Nat.pow 2 52 && b.exponent > -1074
  let low := d.compareBinary (4 * b.mantissa - (if dense then 1 else 2)) (b.exponent - 2)
  let high := d.compareBinary (4 * b.mantissa + 2) (b.exponent - 2)
  let closed := b.mantissa % 2 == 0
  (low == .gt || (closed && low == .eq)) && (high == .lt || (closed && high == .eq))

/-- The least `k` for which `b` is below `10 ^ k`. The binary logarithm leaves three candidates. -/
def pointPosition (b : Binary) : Int :=
  let estimate := Int.fdiv ((b.mantissa.log2 + b.exponent) * 30103) 100000
  let exceeds (k : Int) : Bool := Decimal.compareBinary ⟨1, k⟩ b.mantissa b.exponent == .gt
  if exceeds estimate then estimate
  else if exceeds (estimate + 1) then estimate + 1
  else estimate + 2

/-- The best decimal on the grid `10 ^ place` that reads back as `b`, if there is one. -/
def onGrid (b : Binary) (place : Int) : Option Decimal :=
  let above := b.mantissa * Nat.pow 2 b.exponent.toNat * Nat.pow 10 (-place).toNat
  let below := Nat.pow 2 (-b.exponent).toNat * Nat.pow 10 place.toNat
  let floor := above / below
  let down : Decimal := ⟨floor, place⟩
  let up : Decimal := ⟨floor + 1, place⟩
  match b.readsBack down, b.readsBack up with
  | true, true => if 2 * above < (2 * floor + 1) * below then some down else some up
  | true, false => some down
  | false, true => some up
  | false, false => none

/-- The exact value of `b` as a decimal. -/
def exactDecimal (b : Binary) : Decimal :=
  ⟨b.mantissa * Nat.pow 2 b.exponent.toNat * Nat.pow 5 (-b.exponent).toNat, min b.exponent 0⟩

/-- The shortest decimal that reads back as `b`, which is not zero. Seventeen digits are enough for
every double; the exact value stands in for a longer search. -/
def shortest (b : Binary) : Decimal :=
  let position := b.pointPosition
  let found := (List.range 17).findSome? fun (n : Nat) => b.onGrid (position - (n + 1))
  (found.getD b.exactDecimal).dropZeros 20

end Binary

end Logo.Number
