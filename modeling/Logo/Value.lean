import Logo.Error
import Logo.Number.Text

/-!
# Values

Values are numbers, words, truth values and lists; `absent` is what a command gives and what a
missing input is bound to. Words and numbers overlap: a word whose letters spell a number counts as
that number. Three relations follow from this:

* `alike` is the equality of the language, by which `"3` equals `3`;
* `key` is a stand-in by which duplicates are found: numeric words become numbers, and all values
  that are no number count as one;
* `identical` is equality of structure, by which a word never equals a number.
-/

namespace Logo

/-- A value. -/
inductive Value where
  | number (x : Float)
  | word (text : String)
  | truth (b : Bool)
  | list (items : List Value)
  | absent

namespace Value

/-! ## Text -/

mutual

/-- The text of a value, with brackets around a list. -/
def display : Value → String
  | number x => Number.text x
  | word text => text
  | truth b => if b then "true" else "false"
  | list items => "[" ++ " ".intercalate (displayEach items) ++ "]"
  | absent => ""

/-- The texts of the members of a list. -/
def displayEach : List Value → List String
  | [] => []
  | v :: vs => display v :: displayEach vs

end

/-- The text of a value, without brackets around the whole. It is what `print` writes and what is
read when a list is run. -/
def printForm : Value → String
  | list items => " ".intercalate (displayEach items)
  | v => v.display

/-! ## Kinds -/

/-- A character that may stand in a word that spells a number. -/
def isNumeral (c : Char) : Bool :=
  c.isDigit || c == '.' || c == '-' || c == '+' || c == 'e' || c == 'E'

/-- The number that a word spells. -/
def spelledNumber? (text : String) : Option Float :=
  if text.toList.all isNumeral then Number.read? text else none

/-- The number that a value stands for. -/
def number? : Value → Option Float
  | number x => some x
  | word text => spelledNumber? text
  | _ => none

/-- The value is a number or spells one. -/
def isNumeric (v : Value) : Bool := v.number?.isSome

/-- The value of a command. -/
def isAbsent : Value → Bool
  | absent => true
  | _ => false

/-- The empty word or the empty list. -/
def isEmpty : Value → Bool
  | word text => text.isEmpty
  | list items => items.isEmpty
  | _ => false

/-! ## Inputs of a certain kind -/

/-- The complaint of `name` about an input. -/
def invalidFor (v : Value) (name : String) (line : Nat) : RuntimeError :=
  .invalidInput name v.display line

/-- The value as a number. -/
def asNumber (v : Value) (name : String) (line : Nat) : Except RuntimeError Float :=
  match v.number? with
  | some x => .ok x
  | none => .error (v.invalidFor name line)

/-- The value as a truth value. The words `true` and `false` count in any case. -/
def asTruth (v : Value) (name : String) (line : Nat) : Except RuntimeError Bool :=
  match v with
  | truth b => .ok b
  | word text =>
    if Text.sameLetters text "true" then .ok true
    else if Text.sameLetters text "false" then .ok false
    else .error (v.invalidFor name line)
  | _ => .error (v.invalidFor name line)

/-- The value as the text of a word. Numbers and truth values count as words. -/
def asWord (v : Value) (name : String) (line : Nat) : Except RuntimeError String :=
  match v with
  | word text => .ok text
  | number _ | truth _ => .ok v.display
  | _ => .error (v.invalidFor name line)

/-- The value as the members of a list. -/
def asList (v : Value) (name : String) (line : Nat) : Except RuntimeError (List Value) :=
  match v with
  | list items => .ok items
  | _ => .error (v.invalidFor name line)

/-- The letters of a text, each as a word. -/
def letters (text : String) : List Value := text.toList.map fun c => word (String.singleton c)

/-- The members of a list, or the letters of a word. -/
def members (v : Value) (name : String) (line : Nat) : Except RuntimeError (List Value) :=
  match v with
  | list items => .ok items
  | _ => (v.asWord name line).map letters

/-- The value as the one letter of a word. -/
def asLetter (v : Value) (name : String) (line : Nat) : Except RuntimeError Char :=
  match v.asWord name line with
  | .ok text =>
    match text.toList with
    | [c] => .ok c
    | _ => .error (v.invalidFor name line)
  | .error e => .error e

/-- The whole number of 64 bits that a double stands for. -/
def integer (x : Float) (line : Nat) : Except RuntimeError Int :=
  match Number.toInteger x with
  | .ok n => .ok n
  | .error .notFinite => .error (.invalidInput "integer conversion" (Number.text x) line)
  | .error .outOfRange => .error (.literalTooLarge line)
  | .error .fractional => .error (.fractionalNumber line)

/-- The value as a whole number of 64 bits. -/
def asInteger (v : Value) (name : String) (line : Nat) : Except RuntimeError Int :=
  match v.asNumber name line with
  | .ok x => integer x line
  | .error e => .error e

/-- A whole number as one of 32 bits without a sign. -/
def smallNatural (n : Int) (line : Nat) : Except RuntimeError Nat :=
  if Int.pow 2 32 ≤ n then .error (.literalTooLarge line)
  else if n < 0 then .error (.literalTooSmall line)
  else .ok n.toNat

/-- A whole number as one without a sign. -/
def natural (n : Int) (line : Nat) : Except RuntimeError Nat :=
  if n < 0 then .error (.literalTooSmall line) else .ok n.toNat

/-- A size as a double, which has to hold it exactly. -/
def size (n : Nat) (line : Nat) : Except RuntimeError Float :=
  if Nat.pow 2 53 ≤ n then .error (.literalTooLarge line) else .ok (Float.ofNat n)

/-! ## Equality -/

/-- Equality of two values that are no lists. Numbers and numeric words compare as numbers, and a
number compares with any other word by its text. -/
def alikeAtoms (a b : Value) : Bool :=
  match a, b with
  | truth p, truth q => p == q
  | absent, absent => true
  | number _, number _ | number _, word _ | word _, number _ | word _, word _ =>
    match a.number?, b.number? with
    | some x, some y => x == y
    | _, _ => a.display == b.display
  | _, _ => false

mutual

/-- Equality in the language. -/
def alike : Value → Value → Bool
  | list as, list bs => alikeEach as bs
  | a, b => alikeAtoms a b

/-- Equality of the members of two lists, one by one. -/
def alikeEach : List Value → List Value → Bool
  | [], [] => true
  | a :: as, b :: bs => alike a b && alikeEach as bs
  | _, _ => false

end

mutual

/-- Equality of structure. -/
def identical : Value → Value → Bool
  | number x, number y => x == y
  | word s, word t => s == t
  | truth p, truth q => p == q
  | list as, list bs => identicalEach as bs
  | absent, absent => true
  | _, _ => false

/-- Equality of structure of the members of two lists, one by one. -/
def identicalEach : List Value → List Value → Bool
  | [], [] => true
  | a :: as, b :: bs => identical a b && identicalEach as bs
  | _, _ => false

end

/-! ## Keys -/

mutual

/-- The stand-in of a value among which duplicates are found: words that spell a number become that
number. -/
def key : Value → Value
  | word text =>
    match spelledNumber? text with
    | some x => number x
    | none => word text
  | list items => list (keyEach items)
  | v => v

/-- The keys of the members of a list. -/
def keyEach : List Value → List Value
  | [] => []
  | v :: vs => key v :: keyEach vs

end

mutual

/-- Equality of keys. Values that are no number count as equal, and so do the two zeros. -/
def sameKey : Value → Value → Bool
  | number x, number y => x == y || (x.isNaN && y.isNaN)
  | word s, word t => s == t
  | truth p, truth q => p == q
  | list as, list bs => sameKeyEach as bs
  | absent, absent => true
  | _, _ => false

/-- Equality of the keys of two lists, one by one. -/
def sameKeyEach : List Value → List Value → Bool
  | [], [] => true
  | a :: as, b :: bs => sameKey a b && sameKeyEach as bs
  | _, _ => false

end

end Value

/-! ## Inputs by their place -/

/-- The first input of the procedure `name`. -/
def firstInput (name : String) (inputs : List Value) (line : Nat) : Except RuntimeError Value :=
  match inputs with
  | a :: _ => .ok a
  | [] => .error (.notEnoughInputs name line)

/-- The first two inputs of the procedure `name`. -/
def firstTwoInputs (name : String) (inputs : List Value) (line : Nat) :
    Except RuntimeError (Value × Value) :=
  match inputs with
  | a :: b :: _ => .ok (a, b)
  | _ => .error (.notEnoughInputs name line)

end Logo
