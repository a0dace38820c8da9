/-!
# Doubles as exact binary fractions

Every finite double is `± mantissa · 2 ^ exponent`. `parts` takes a double apart and
`Binary.toFloat` puts one together again, both in exact natural number arithmetic. Cutting off a
fraction, rounding to a whole number and the remainder of a division are computed on the parts, so
each is its mathematical definition and no rounding takes place on the way.
-/

namespace Logo.Number

/-- A finite double: `mantissa · 2 ^ exponent`, with a sign that zero has as well. -/
structure Binary where
  /-- The sign is a minus. -/
  negative : Bool
  /-- The mantissa, below `2 ^ 53`. -/
  mantissa : Nat
  /-- The exponent of two, from `-1074` on. -/
  exponent : Int
deriving DecidableEq

/-- The three kinds of doubles. -/
inductive Parts where
  /-- The result of an operation without a meaning. -/
  | notANumber
  /-- One of the two infinities. -/
  | infinite (negative : Bool)
  /-- A number. -/
  | finite (value : Binary)
deriving DecidableEq

/-- The double taken apart. The sign is the highest bit, below it stand eleven bits of exponent and
52 of fraction; an exponent field of zero means that the leading one is missing. -/
def parts (x : Float) : Parts :=
  let bits := x.toBits.toNat
  let negative := decide (Nat.pow 2 63 ≤ bits)
  let field : Nat := bits / Nat.pow 2 52 % Nat.pow 2 11
  let fraction : Nat := bits % Nat.pow 2 52
  if field = 2047 then
    if fraction = 0 then .infinite negative else .notANumber
  else if field = 0 then .finite ⟨negative, fraction, -1074⟩
  else .finite ⟨negative, Nat.pow 2 52 + fraction, (field : Int) - 1075⟩

namespace Binary

/-- The exponent and fraction fields of `mantissa · 2 ^ exponent`. The mantissa is moved up until it
has 53 bits, or as far as the least exponent allows. -/
def magnitudeBits (mantissa : Nat) (exponent : Int) : Nat :=
  if mantissa = 0 then 0
  else
    let room := min (52 - mantissa.log2) (exponent + 1074).toNat
    let scaled := mantissa * Nat.pow 2 room
    if scaled < Nat.pow 2 52 then scaled
    else (exponent - room + 1075).toNat * Nat.pow 2 52 + (scaled - Nat.pow 2 52)

/-- The double with these parts. -/
def toFloat (b : Binary) : Float :=
  Float.ofBits (UInt64.ofNat ((if b.negative then Nat.pow 2 63 else 0)
    + magnitudeBits b.mantissa b.exponent))

/-- The size of the number without its fraction. -/
def wholeSize (b : Binary) : Nat :=
  b.mantissa * Nat.pow 2 b.exponent.toNat / Nat.pow 2 (-b.exponent).toNat

/-- The number without its fraction, which rounds towards zero. -/
def whole (b : Binary) : Int := if b.negative then -b.wholeSize else b.wholeSize

/-- The number is a whole number. -/
def isWhole (b : Binary) : Bool := b.mantissa % Nat.pow 2 (-b.exponent).toNat == 0

/-- The number with its fraction cut off; the sign stays, also on a zero. -/
def truncate (b : Binary) : Binary :=
  if 0 ≤ b.exponent then b else ⟨b.negative, b.wholeSize, 0⟩

/-- The nearest whole number; a half goes away from zero. -/
def round (b : Binary) : Binary :=
  if 0 ≤ b.exponent then b
  else
    let places := (-b.exponent).toNat
    ⟨b.negative, (b.mantissa + Nat.pow 2 (places - 1)) / Nat.pow 2 places, 0⟩

/-- What is left of `a` after taking away as many whole `b` as fit, with the sign of `a`. Both are
brought to the smaller of the two exponents first. -/
def remainder (a b : Binary) : Binary :=
  let exponent := min a.exponent b.exponent
  let rest := (a.mantissa * Nat.pow 2 (a.exponent - exponent).toNat)
    % (b.mantissa * Nat.pow 2 (b.exponent - exponent).toNat)
  ⟨a.negative, rest, exponent⟩

end Binary

/-! ## Operations on doubles -/

/-- The positive infinity. -/
def infinity : Float := 1.0 / 0.0

/-- The value of an operation without a meaning. -/
def notANumber : Float := 0.0 / 0.0

/-- The double with its fraction cut off. -/
def truncate (x : Float) : Float :=
  match parts x with
  | .finite b => b.truncate.toFloat
  | _ => x

/-- The whole number nearest to a double; a half goes away from zero. -/
def round (x : Float) : Float :=
  match parts x with
  | .finite b => b.round.toFloat
  | _ => x

/-- The remainder of a division that rounds towards zero. It has the sign of the dividend. -/
def remainder (x y : Float) : Float :=
  match parts x, parts y with
  | .finite a, .finite b => if b.mantissa = 0 then notANumber else (a.remainder b).toFloat
  | .finite _, .infinite _ => x
  | _, _ => notANumber

/-! ## Whole numbers of 64 bits -/

/-- Why a double is not a whole number of 64 bits. -/
inductive Misfit where
  /-- It is an infinity or no number at all. -/
  | notFinite
  /-- It lies outside of `-2 ^ 63 … 2 ^ 63 - 1`. -/
  | outOfRange
  /-- It has a fraction. -/
  | fractional
deriving DecidableEq

/-- The whole number of 64 bits that a double stands for. The range is looked at before the
fraction. -/
def toInteger (x : Float) : Except Misfit Int :=
  match parts x with
  | .finite b =>
    if b.whole < -Int.pow 2 63 ∨ Int.pow 2 63 ≤ b.whole then .error .outOfRange
    else if b.isWhole then .ok b.whole
    else .error .fractional
  | _ => .error .notFinite

end Logo.Number
