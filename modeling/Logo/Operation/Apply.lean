import Logo.Builtin
import Logo.Operation.Bits
import Logo.Operation.Numbers
import Logo.Operation.Sequences
import Logo.Operation.Truths

/-!
# Applying operations

`Operation.apply` gives the value of an operation for its inputs. An operation takes the inputs it
needs from the front and leaves the others; without enough of them there is an error.
-/

namespace Logo.Operation

/-- The value for the first input. -/
def withOne (name : String) (inputs : List Value) (line : Nat)
    (value : Value → Except RuntimeError Value) : Except RuntimeError Value := do
  value (← firstInput name inputs line)

/-- The value for the first two inputs. -/
def withTwo (name : String) (inputs : List Value) (line : Nat)
    (value : Value → Value → Except RuntimeError Value) : Except RuntimeError Value := do
  let (a, b) ← firstTwoInputs name inputs line
  value a b

/-- The value of an operation. -/
def apply (op : Operation) (inputs : List Value) (line : Nat) : Except RuntimeError Value :=
  match op with
  | word => Sequence.word inputs line
  | list => .ok (.list inputs)
  | sentence => .ok (Sequence.sentence inputs)
  | fput => withTwo "fput" inputs line fun a b => Sequence.fput a b line
  | lput => withTwo "lput" inputs line fun a b => Sequence.lput a b line
  | combine => withTwo "combine" inputs line fun a b => Sequence.combine a b line
  | reverse => withOne "reverse" inputs line fun a => Sequence.reverse a line
  | first => withOne "first" inputs line fun a => Sequence.first a line
  | last => withOne "last" inputs line fun a => Sequence.last a line
  | butfirst => withOne "butfirst" inputs line fun a => Sequence.butfirst a line
  | butlast => withOne "butlast" inputs line fun a => Sequence.butlast a line
  | item => withTwo "item" inputs line fun a b => Sequence.item a b line
  | remdup => withOne "remdup" inputs line fun a => Sequence.remdup a line
  | wordp => withOne "wordp" inputs line fun a => .ok (.truth (Sequence.wordp a))
  | listp => withOne "listp" inputs line fun a => .ok (.truth (Sequence.listp a))
  | emptyp => withOne "emptyp" inputs line fun a => .ok (.truth a.isEmpty)
  | equalp => withTwo "equalp" inputs line fun a b => .ok (.truth (a.alike b))
  | notequalp => withTwo "notequalp" inputs line fun a b => .ok (.truth (!a.alike b))
  | beforep => withTwo "beforep" inputs line fun a b => Sequence.beforep a b line
  | memberp => withTwo "memberp" inputs line fun a b => .ok (.truth (Sequence.memberp a b))
  | substringp => withTwo "substringp" inputs line fun a b => .ok (.truth (Sequence.substringp a b))
  | numberp => withOne "numberp" inputs line fun a => .ok (.truth a.isNumeric)
  | count => withOne "count" inputs line fun a => Sequence.count a line
  | ascii => withOne "ascii" inputs line fun a => Sequence.ascii a line
  | char => withOne "char" inputs line fun a => Sequence.char a line
  | member => withTwo "member" inputs line fun a b => Sequence.member a b line
  | lowercase => withOne "lowercase" inputs line fun a => Sequence.lowercase a line
  | uppercase => withOne "uppercase" inputs line fun a => Sequence.uppercase a line
  | sum => Numbers.sum inputs line
  | difference => withTwo "difference" inputs line fun a b => Numbers.difference a b line
  | product => Numbers.product inputs line
  | quotient => withOne "quotient" inputs line fun a => Numbers.quotient a inputs[1]? line
  | remainder => withTwo "remainder" inputs line fun a b => Numbers.remainder a b line
  | minus => withOne "minus" inputs line fun a => Numbers.minus a line
  | int => withOne "int" inputs line fun a => Numbers.int a line
  | round => withOne "round" inputs line fun a => Numbers.round a line
  | sqrt => withOne "sqrt" inputs line fun a => Numbers.sqrt a line
  | bitand => Bits.bitwise (· &&& ·) (-1) "bitand" inputs line
  | bitor => Bits.bitwise (· ||| ·) 0 "bitor" inputs line
  | bitxor => Bits.bitwise (· ^^^ ·) 0 "bitxor" inputs line
  | bitnot => withOne "bitnot" inputs line fun a => Bits.bitnot a line
  | ashift => withTwo "ashift" inputs line fun a b =>
    Bits.shift Bits.shiftSigned "ashift" a b line
  | lshift => withTwo "lshift" inputs line fun a b =>
    Bits.shift Bits.shiftUnsigned "lshift" a b line
  | and => Truths.conjunction inputs line
  | or => Truths.disjunction inputs line
  | not => withOne "not" inputs line fun a => Truths.negation a line
  | ignore => .ok .absent

end Logo.Operation
