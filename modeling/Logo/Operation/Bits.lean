import Logo.Value

/-!
# Operations on bits

The operations on bits take whole numbers of 64 bits, work on their two's complement, and give the
double nearest to the result.
-/

namespace Logo.Bits

/-- The double nearest to a whole number of 64 bits. -/
def ofInteger (n : Int64) : Value := .number (Float.ofInt n.toInt)

/-- The input as a whole number of 64 bits. -/
def integer (v : Value) (name : String) (line : Nat) : Except RuntimeError Int64 := do
  return Int64.ofInt (← v.asInteger name line)

/-- All inputs combined bit by bit. -/
def bitwise (combine : Int64 → Int64 → Int64) (unit : Int64) (name : String) (inputs : List Value)
    (line : Nat) : Except RuntimeError Value := do
  let ns ← inputs.mapM fun v => integer v name line
  return ofInteger (ns.foldl combine unit)

/-- Every bit flipped. -/
def bitnot (v : Value) (line : Nat) : Except RuntimeError Value := do
  return ofInteger (~~~(← integer v "bitnot" line))

/-- How far a count moves the bits, as a number of 32 bits. The size of the least count has no place
among the numbers with a sign, so it is taken as one without; a distance that is too large becomes
the largest. -/
def distance (count : Int64) : UInt32 :=
  let size := count.abs.toUInt64
  if size.toNat < Nat.pow 2 32 then size.toUInt32 else -1

/-- The bits moved up, if the distance is smaller than the word. Those that leave the word are
lost. -/
def shiftUp? (n : Int64) (distance : UInt32) : Option Int64 :=
  if distance < 64 then some (n <<< distance.toUInt64.toInt64) else none

/-- The bits moved down, if the distance is smaller than the word, with copies of the sign moving
in. -/
def shiftDown? (n : Int64) (distance : UInt32) : Option Int64 :=
  if distance < 64 then some (n >>> distance.toUInt64.toInt64) else none

/-- The bits of a number without a sign moved down, if the distance is smaller than the word, with
zeros moving in. -/
def shiftDownUnsigned? (n : UInt64) (distance : UInt32) : Option UInt64 :=
  if distance < 64 then some (n >>> distance.toUInt64) else none

/-- A shift by `count` places: up if it is not negative, else down with copies of the sign. All bits
leave the word if the distance is not smaller than it. -/
def shiftSigned (n count : Int64) : Int64 :=
  if 0 ≤ count then (shiftUp? n (distance count)).getD 0
  else (shiftDown? n (distance count)).getD (if n < 0 then -1 else 0)

/-- A shift by `count` places: up if it is not negative, else down with zeros. All bits leave the
word if the distance is not smaller than it. -/
def shiftUnsigned (n count : Int64) : Int64 :=
  if 0 ≤ count then (shiftUp? n (distance count)).getD 0
  else ((shiftDownUnsigned? n.toUInt64 (distance count)).getD 0).toInt64

/-- A shift of the first input by as many places as the second says. -/
def shift (move : Int64 → Int64 → Int64) (name : String) (a b : Value) (line : Nat) :
    Except RuntimeError Value := do
  let n ← integer a name line
  let count ← integer b name line
  return ofInteger (move n count)

end Logo.Bits
