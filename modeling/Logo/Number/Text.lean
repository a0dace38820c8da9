import Logo.Number.Shortest
import Logo.Text.Case

/-!
# Numbers as text

`text` writes a double with the fewest digits that read back as the same double, always with all its
places written out and never with an exponent. `read?` reads a decimal with an optional sign, point
and exponent, and the names of the values that have no digits.
-/

namespace Logo.Number

/-! ## Writing -/

/-- A decimal written out: the digits, with the point and zeros where the exponent puts them. -/
def Decimal.text (d : Decimal) : String :=
  let digits := Nat.toDigits 10 d.digits
  let places := (-d.exponent).toNat
  String.ofList <|
    if 0 ≤ d.exponent then digits ++ List.replicate d.exponent.toNat '0'
    else if places < digits.length then
      digits.take (digits.length - places) ++ '.' :: digits.drop (digits.length - places)
    else '0' :: '.' :: (List.replicate (places - digits.length) '0' ++ digits)

/-- The text of a double. Zero keeps its sign. -/
def text (x : Float) : String :=
  match parts x with
  | .notANumber => "NaN"
  | .infinite negative => if negative then "-inf" else "inf"
  | .finite b =>
    let size := if b.mantissa = 0 then "0" else b.shortest.text
    if b.negative then "-" ++ size else size

/-! ## Reading -/

/-- The number that a list of decimal digits spells. -/
def ofDigits (digits : List Char) : Nat :=
  digits.foldl (fun n c => 10 * n + (c.toNat - '0'.toNat)) 0

/-- The double nearest to `digits · 10 ^ exponent`. Sizes that no double comes near are settled by
the place of the leading digit. -/
def ofDecimal (digits : List Char) (exponent : Int) : Float :=
  let significant := digits.dropWhile (· == '0')
  let magnitude : Int := significant.length + exponent
  if significant.isEmpty || magnitude < -330 then 0.0
  else if 310 < magnitude then infinity
  else Float.ofScientific (ofDigits significant) (exponent < 0) exponent.natAbs

/-- A leading sign, as whether it is a minus, and what follows it. -/
def splitSign : List Char → Bool × List Char
  | '-' :: cs => (true, cs)
  | '+' :: cs => (false, cs)
  | cs => (false, cs)

/-- An exponent part: nothing, or the letter `e`, an optional sign and at least one digit. -/
def readExponent? : List Char → Option Int
  | [] => some 0
  | c :: cs =>
    let (negative, digits) := splitSign cs
    if c.toLower == 'e' && !digits.isEmpty && digits.all Char.isDigit then
      some (if negative then -(ofDigits digits) else ofDigits digits)
    else none

/-- A number without a sign: digits with at most one point among them, then an exponent part. -/
def readDigits? (cs : List Char) : Option Float :=
  let whole := cs.takeWhile Char.isDigit
  let rest := cs.dropWhile Char.isDigit
  let pointed := rest.head? == some '.'
  let fraction := if pointed then (rest.drop 1).takeWhile Char.isDigit else []
  let tail := if pointed then (rest.drop 1).dropWhile Char.isDigit else rest
  if whole.isEmpty && fraction.isEmpty then none
  else (readExponent? tail).map fun e => ofDecimal (whole ++ fraction) (e - fraction.length)

/-- The values that are written by name, in any case. -/
def readName? (cs : List Char) : Option Float :=
  let name := String.ofList cs
  if Text.sameLetters name "inf" || Text.sameLetters name "infinity" then some infinity
  else if Text.sameLetters name "nan" then some notANumber
  else none

/-- The double that a text spells. -/
def read? (s : String) : Option Float :=
  let (negative, size) := splitSign s.toList
  let value := (readDigits? size).orElse fun _ => readName? size
  value.map fun x => if negative then -x else x

end Logo.Number
