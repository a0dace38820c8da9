import Logo.Operation.Apply
import Logo.Operation.Operators
import Logo.Proofs.Lines

/-!
# The lines of complaints

The operations are told the line that they are called on. They name it when they complain about an
input, and use it for nothing else: on two lines that count as equal, an operation gives the same
value or the same complaint. Every input is taken by one of the functions `asNumber`, `asWord` and
so on, so that the statement for an operation follows its definition step by step.

* `Operation.sameResult_apply`: the operations on values.
* `Operator.sameResult_apply`: the infix operators.
-/

namespace Logo

variable {α β : Type} {f g : Nat → Nat} {l l' : Nat}

/-- The error is that too many procedure calls are open. -/
def RuntimeError.isLimit : RuntimeError → Bool
  | recursionLimit _ _ => true
  | _ => false

/-- The same value, or complaints that differ at most in lines that count as equal: `f` says what is
compared of the lines on the left and `g` of those on the right. A complaint is never about the
number of open calls. -/
inductive SameResult (f g : Nat → Nat) : Except RuntimeError α → Except RuntimeError α → Prop
  | ok (a : α) : SameResult f g (.ok a) (.ok a)
  | error {e e' : RuntimeError} : e.mapLine f = e'.mapLine g → e.isLimit = false →
      SameResult f g (.error e) (.error e')

namespace SameResult

lemma bind {x y : Except RuntimeError α} {next next' : α → Except RuntimeError β}
    (h : SameResult f g x y) (hnext : ∀ a, SameResult f g (next a) (next' a)) :
    SameResult f g (x >>= next) (y >>= next') := by
  cases h with
  | ok a => exact hnext a
  | error h hlimit => exact .error h hlimit

lemma map {x y : Except RuntimeError α} (h : SameResult f g x y) (change : α → β) :
    SameResult f g (x.map change) (y.map change) := by
  cases h with
  | ok a => exact .ok (change a)
  | error h hlimit => exact .error h hlimit

lemma mapM {x y : α → Except RuntimeError β} (h : ∀ a, SameResult f g (x a) (y a)) (as : List α) :
    SameResult f g (as.mapM x) (as.mapM y) := by
  induction as with
  | nil => exact .ok []
  | cons a as ih =>
    rw [List.mapM_cons, List.mapM_cons]
    exact (h a).bind fun b => ih.bind fun bs => .ok (b :: bs)

end SameResult

/-! ## Inputs of a certain kind -/

namespace Value

variable (h : f l = g l') (v : Value) (name : String)
include h

lemma invalidFor_mapLine : (v.invalidFor name l).mapLine f = (v.invalidFor name l').mapLine g :=
  congrArg (RuntimeError.invalidInput name v.display) h

lemma sameResult_asNumber : SameResult f g (v.asNumber name l) (v.asNumber name l') := by
  unfold asNumber
  cases v.number? with
  | some x => exact .ok x
  | none => exact .error (v.invalidFor_mapLine h name) rfl

lemma sameResult_asTruth : SameResult f g (v.asTruth name l) (v.asTruth name l') := by
  have hinvalid := v.invalidFor_mapLine h name
  cases v with
  | truth b => exact .ok b
  | word text =>
    show SameResult f g (if Text.sameLetters text "true" then _ else _) (if _ then _ else _)
    split
    · exact .ok true
    split
    · exact .ok false
    · exact .error hinvalid rfl
  | _ => exact .error hinvalid rfl

lemma sameResult_asWord : SameResult f g (v.asWord name l) (v.asWord name l') := by
  have hinvalid := v.invalidFor_mapLine h name
  cases v with
  | word text => exact .ok text
  | number x => exact .ok _
  | truth b => exact .ok _
  | _ => exact .error hinvalid rfl

lemma sameResult_asList : SameResult f g (v.asList name l) (v.asList name l') := by
  have hinvalid := v.invalidFor_mapLine h name
  cases v with
  | list items => exact .ok items
  | _ => exact .error hinvalid rfl

lemma sameResult_members : SameResult f g (v.members name l) (v.members name l') := by
  have hletters := (sameResult_asWord h v name).map letters
  cases v with
  | list items => exact .ok items
  | _ => exact hletters

lemma sameResult_asLetter : SameResult f g (v.asLetter name l) (v.asLetter name l') := by
  have hword := sameResult_asWord h v name
  unfold asLetter
  revert hword
  generalize v.asWord name l = x, v.asWord name l' = y
  rintro (text | ⟨herror, hlimit⟩)
  · dsimp only
    split
    · exact .ok _
    · exact .error (v.invalidFor_mapLine h name) rfl
  · exact .error herror hlimit

lemma sameResult_integer (x : Float) : SameResult f g (integer x l) (integer x l') := by
  unfold integer
  split
  · exact .ok _
  · exact .error (congrArg (RuntimeError.invalidInput _ _) h) rfl
  · exact .error (congrArg RuntimeError.literalTooLarge h) rfl
  · exact .error (congrArg RuntimeError.fractionalNumber h) rfl

lemma sameResult_asInteger : SameResult f g (v.asInteger name l) (v.asInteger name l') := by
  have hnumber := sameResult_asNumber h v name
  unfold asInteger
  revert hnumber
  generalize v.asNumber name l = x, v.asNumber name l' = y
  rintro (x | ⟨herror, hlimit⟩)
  · exact sameResult_integer h x
  · exact .error herror hlimit

lemma sameResult_smallNatural (n : Int) :
    SameResult f g (smallNatural n l) (smallNatural n l') := by
  unfold smallNatural
  split
  · exact .error (congrArg RuntimeError.literalTooLarge h) rfl
  split
  · exact .error (congrArg RuntimeError.literalTooSmall h) rfl
  · exact .ok _

lemma sameResult_natural (n : Int) : SameResult f g (natural n l) (natural n l') := by
  unfold natural
  split
  · exact .error (congrArg RuntimeError.literalTooSmall h) rfl
  · exact .ok _

lemma sameResult_size (n : Nat) : SameResult f g (size n l) (size n l') := by
  unfold size
  split
  · exact .error (congrArg RuntimeError.literalTooLarge h) rfl
  · exact .ok _

end Value

section Inputs

variable (h : f l = g l') (name : String) (inputs : List Value)
include h

lemma sameResult_firstInput :
    SameResult f g (firstInput name inputs l) (firstInput name inputs l') := by
  cases inputs with
  | nil => exact .error (congrArg (RuntimeError.notEnoughInputs name) h) rfl
  | cons a inputs => exact .ok a

lemma sameResult_firstTwoInputs :
    SameResult f g (firstTwoInputs name inputs l) (firstTwoInputs name inputs l') := by
  rcases inputs with _ | ⟨a, _ | ⟨b, inputs⟩⟩
  · exact .error (congrArg (RuntimeError.notEnoughInputs name) h) rfl
  · exact .error (congrArg (RuntimeError.notEnoughInputs name) h) rfl
  · exact .ok (a, b)

end Inputs

/-! ## Operators -/

namespace Operator

variable (h : f l = g l') (op : Operator) (a b : Value)
include h

lemma sameResult_operands : SameResult f g (op.operands a b l) (op.operands a b l') := by
  unfold operands
  split
  · exact .error (congrArg (RuntimeError.unsupportedOperator op.symbol) h) rfl
  · exact (a.sameResult_asNumber h op.symbol).bind fun x =>
      (b.sameResult_asNumber h op.symbol).bind fun y => .ok (x, y)

/-- An infix operator on two lines that count as equal. -/
theorem sameResult_apply : SameResult f g (op.apply a b l) (op.apply a b l') := by
  have hoperands := op.sameResult_operands h a b
  cases op with
  | equal | unequal => exact .ok _
  | _ => exact hoperands.bind fun xy => .ok _

end Operator

/-! ## Operations -/

namespace Operation

variable (h : f l = g l') (inputs : List Value)
include h

lemma sameResult_withOne (name : String) {value value' : Value → Except RuntimeError Value}
    (hvalue : ∀ a, SameResult f g (value a) (value' a)) :
    SameResult f g (withOne name inputs l value) (withOne name inputs l' value') :=
  (sameResult_firstInput h name inputs).bind hvalue

lemma sameResult_withTwo (name : String) {value value' : Value → Value → Except RuntimeError Value}
    (hvalue : ∀ a b, SameResult f g (value a b) (value' a b)) :
    SameResult f g (withTwo name inputs l value) (withTwo name inputs l' value') :=
  (sameResult_firstTwoInputs h name inputs).bind fun ab => hvalue ab.1 ab.2

end Operation

namespace Sequence

variable (h : f l = g l') (a b : Value)
include h

lemma sameResult_word (inputs : List Value) : SameResult f g (word inputs l) (word inputs l') :=
  (SameResult.mapM (fun v => v.sameResult_asWord h "word") inputs).bind fun _ => .ok _

lemma sameResult_fput : SameResult f g (fput a b l) (fput a b l') := by
  have hword := (a.sameResult_asLetter h "fput").bind fun c =>
    (b.sameResult_asWord h "fput").bind fun text => SameResult.ok (ofLetters (c :: text.toList))
  cases b with
  | list items => exact .ok _
  | _ => exact hword

lemma sameResult_lput : SameResult f g (lput a b l) (lput a b l') := by
  have hword := (a.sameResult_asLetter h "lput").bind fun c =>
    (b.sameResult_asWord h "lput").bind fun text => SameResult.ok (ofLetters (text.toList ++ [c]))
  cases b with
  | list items => exact .ok _
  | _ => exact hword

lemma sameResult_combine : SameResult f g (combine a b l) (combine a b l') := by
  have hword := sameResult_word h [a, b]
  cases b with
  | list items => exact sameResult_fput h a (.list items)
  | _ => exact hword

lemma sameResult_reverse : SameResult f g (reverse a l) (reverse a l') := by
  have hword := (a.sameResult_asWord h "reverse").bind fun text =>
    SameResult.ok (ofLetters text.toList.reverse)
  cases a with
  | list items => exact .ok _
  | _ => exact hword

lemma sameResult_first : SameResult f g (first a l) (first a l') := by
  refine (a.sameResult_members h "first").bind fun members => ?_
  cases members.head? with
  | some x => exact .ok x
  | none => exact .error (a.invalidFor_mapLine h "first") rfl

lemma sameResult_last : SameResult f g (last a l) (last a l') := by
  refine (a.sameResult_members h "last").bind fun members => ?_
  cases members.getLast? with
  | some x => exact .ok x
  | none => exact .error (a.invalidFor_mapLine h "last") rfl

lemma sameResult_butfirst : SameResult f g (butfirst a l) (butfirst a l') := by
  have hinvalid := a.invalidFor_mapLine h "butfirst"
  have hword := a.sameResult_asWord h "butfirst"
  rcases a with x | text | b | (_ | ⟨item, items⟩) | _
  case list.nil => exact .error hinvalid rfl
  case list.cons => exact .ok _
  all_goals
    refine hword.bind fun text => ?_
    cases text.toList with
    | nil => exact .error hinvalid rfl
    | cons c letters => exact .ok _

lemma sameResult_butlast : SameResult f g (butlast a l) (butlast a l') := by
  have hinvalid := a.invalidFor_mapLine h "butlast"
  have hword := a.sameResult_asWord h "butlast"
  rcases a with x | text | b | (_ | ⟨item, items⟩) | _
  case list.nil => exact .error hinvalid rfl
  case list.cons => exact .ok _
  all_goals
    refine hword.bind fun text => ?_
    cases text.toList with
    | nil => exact .error hinvalid rfl
    | cons c letters => exact .ok _

lemma sameResult_item : SameResult f g (item a b l) (item a b l') := by
  refine (a.sameResult_asInteger h "item").bind fun i =>
    (b.sameResult_members h "item").bind fun members => ?_
  have hbounds := congrArg (RuntimeError.indexOutOfBounds members.length i) h
  dsimp only
  split
  · exact .error hbounds rfl
  · cases members[i.toNat - 1]? with
    | some x => exact .ok x
    | none => exact .error hbounds rfl

lemma sameResult_member : SameResult f g (member a b l) (member a b l') := by
  have hword := (b.sameResult_asWord h "member").bind fun whole =>
    (a.sameResult_asWord h "member").bind fun part =>
      SameResult.ok (ofLetters ((suffixAt? part.toList whole.toList).getD []))
  cases b with
  | list items => exact .ok _
  | _ => exact hword

lemma sameResult_char : SameResult f g (char a l) (char a l') := by
  refine (a.sameResult_asInteger h "char").bind fun n =>
    (Value.sameResult_smallNatural h n).bind fun code => ?_
  split
  · exact .ok _
  · exact .error (a.invalidFor_mapLine h "char") rfl

end Sequence

namespace Numbers

variable (h : f l = g l') (a b : Value)
include h

lemma sameResult_ofInputs (inputs : List Value) (name : String) :
    SameResult f g (ofInputs inputs name l) (ofInputs inputs name l') :=
  SameResult.mapM (fun v => v.sameResult_asNumber h name) inputs

lemma sameResult_quotient (b : Option Value) :
    SameResult f g (quotient a b l) (quotient a b l') := by
  refine (a.sameResult_asNumber h "quotient").bind fun x => ?_
  cases b with
  | some b => exact (b.sameResult_asNumber h "quotient").bind fun y => .ok _
  | none => exact .ok _

lemma sameResult_sqrt : SameResult f g (sqrt a l) (sqrt a l') := by
  refine (a.sameResult_asNumber h "sqrt").bind fun x => ?_
  split
  · exact .error (a.invalidFor_mapLine h "sqrt") rfl
  · exact .ok _

end Numbers

namespace Bits

variable (h : f l = g l')
include h

lemma sameResult_integer (v : Value) (name : String) :
    SameResult f g (integer v name l) (integer v name l') :=
  (v.sameResult_asInteger h name).bind fun _ => .ok _

lemma sameResult_bitwise (combine : Int64 → Int64 → Int64) (unit : Int64) (name : String)
    (inputs : List Value) :
    SameResult f g (bitwise combine unit name inputs l) (bitwise combine unit name inputs l') :=
  (SameResult.mapM (fun v => sameResult_integer h v name) inputs).bind fun _ => .ok _

lemma sameResult_shift (move : Int64 → Int64 → Int64) (name : String) (a b : Value) :
    SameResult f g (shift move name a b l) (shift move name a b l') :=
  (sameResult_integer h a name).bind fun _ => (sameResult_integer h b name).bind fun _ => .ok _

end Bits

lemma Truths.sameResult_ofInputs (h : f l = g l') (inputs : List Value) (name : String) :
    SameResult f g (ofInputs inputs name l) (ofInputs inputs name l') :=
  SameResult.mapM (fun v => v.sameResult_asTruth h name) inputs

/-- An operation on two lines that count as equal. -/
theorem Operation.sameResult_apply (h : f l = g l') (op : Operation) (inputs : List Value) :
    SameResult f g (op.apply inputs l) (op.apply inputs l') := by
  cases op with
  | word => exact Sequence.sameResult_word h inputs
  | fput => exact sameResult_withTwo h inputs _ (Sequence.sameResult_fput h)
  | lput => exact sameResult_withTwo h inputs _ (Sequence.sameResult_lput h)
  | combine => exact sameResult_withTwo h inputs _ (Sequence.sameResult_combine h)
  | reverse => exact sameResult_withOne h inputs _ (Sequence.sameResult_reverse h)
  | first => exact sameResult_withOne h inputs _ (Sequence.sameResult_first h)
  | last => exact sameResult_withOne h inputs _ (Sequence.sameResult_last h)
  | butfirst => exact sameResult_withOne h inputs _ (Sequence.sameResult_butfirst h)
  | butlast => exact sameResult_withOne h inputs _ (Sequence.sameResult_butlast h)
  | item => exact sameResult_withTwo h inputs _ (Sequence.sameResult_item h)
  | member => exact sameResult_withTwo h inputs _ (Sequence.sameResult_member h)
  | char => exact sameResult_withOne h inputs _ (Sequence.sameResult_char h)
  | remdup =>
    exact sameResult_withOne h inputs _ fun a => (a.sameResult_asList h _).bind fun _ => .ok _
  | beforep =>
    unfold apply
    refine sameResult_withTwo h inputs _ fun a b => ?_
    exact (a.sameResult_asWord h _).bind fun _ => (b.sameResult_asWord h _).bind fun _ => .ok _
  | count =>
    exact sameResult_withOne h inputs _ fun a => (a.sameResult_members h _).bind fun members =>
      (Value.sameResult_size h members.length).bind fun _ => .ok _
  | ascii =>
    exact sameResult_withOne h inputs _ fun a => (a.sameResult_asLetter h _).bind fun _ => .ok _
  | lowercase | uppercase =>
    exact sameResult_withOne h inputs _ fun a => (a.sameResult_asWord h _).bind fun _ => .ok _
  | sum | product => exact (Numbers.sameResult_ofInputs h inputs _).bind fun _ => .ok _
  | difference | remainder =>
    unfold apply
    refine sameResult_withTwo h inputs _ fun a b => ?_
    exact (a.sameResult_asNumber h _).bind fun _ => (b.sameResult_asNumber h _).bind fun _ => .ok _
  | quotient => exact sameResult_withOne h inputs _ fun a => Numbers.sameResult_quotient h a _
  | minus | int | round =>
    exact sameResult_withOne h inputs _ fun a => (a.sameResult_asNumber h _).bind fun _ => .ok _
  | sqrt => exact sameResult_withOne h inputs _ (Numbers.sameResult_sqrt h)
  | bitand | bitor | bitxor => exact Bits.sameResult_bitwise h _ _ _ inputs
  | bitnot =>
    exact sameResult_withOne h inputs _ fun a =>
      (Bits.sameResult_integer h a _).bind fun _ => .ok _
  | ashift | lshift => exact sameResult_withTwo h inputs _ (Bits.sameResult_shift h _ _)
  | and | or => exact (Truths.sameResult_ofInputs h inputs _).bind fun _ => .ok _
  | not =>
    exact sameResult_withOne h inputs _ fun a => (a.sameResult_asTruth h _).bind fun _ => .ok _
  | wordp | listp | emptyp | numberp => exact sameResult_withOne h inputs _ fun a => .ok _
  | equalp | notequalp | memberp | substringp =>
    unfold apply
    refine sameResult_withTwo h inputs _ fun a b => ?_
    exact .ok _
  | list | sentence | ignore => exact .ok _

end Logo
