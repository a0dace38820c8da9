import Logo.Machine.Evaluator
import Logo.Proofs.Text.Bytes
import Mathlib.Data.Nat.PSub

/-!
# Accesses by place

Built-in procedures take their inputs by place, cut lists by place and cut words by counting bytes.
Each of these accesses can miss: there may be no input in that place, the list may be too short, the
byte may be inside of a character. This file makes the accesses one by one, with no answer where one
of them misses, and shows that none does if there are as many inputs as the table asks for.

Procedures that take all their inputs one after the other make no access by place.

* `Operation.attempt`: the value of an operation, if all accesses hit.
* `Operation.attempt_eq`: they do, if the operation has the inputs that it takes by place.
* `taken_le_least`: the table asks for that many.
-/

namespace Logo

variable {α : Type}

/-- The members from a place on, which must not be past the end. -/
def cutFrom (place : Nat) (xs : List α) : Option (List α) :=
  if place ≤ xs.length then some (xs.drop place) else none

/-- The members before a place, which must not be past the end. -/
def cutTo (place : Nat) (xs : List α) : Option (List α) :=
  if place ≤ xs.length then some (xs.take place) else none

namespace Sequence

/-! ## Operations that cut -/

/-- All but the first member or letter. -/
def butfirst? (v : Value) (line : Nat) : Option (Except RuntimeError Value) :=
  match v with
  | .list items =>
    if items.isEmpty then some (.error (v.invalidFor "butfirst" line))
    else do
      let rest ← cutFrom 1 items
      return .ok (.list rest)
  | v => some (butfirst v line)

/-- All but the last member or letter. -/
def butlast? (v : Value) (line : Nat) : Option (Except RuntimeError Value) :=
  match v with
  | .list items =>
    if items.isEmpty then some (.error (v.invalidFor "butlast" line))
    else do
      let place ← Nat.ppred items.length
      let front ← cutTo place items
      return .ok (.list front)
  | v => some (butlast v line)

/-- The word from the first occurrence of another one on. -/
def wordFrom? (part whole : String) : Option Value :=
  match Text.findBytes (Text.bytes part.toList) (Text.bytes whole.toList) with
  | some byte => do
    let rest ← Text.dropBytes byte whole.toList
    return ofLetters rest
  | none => some (ofLetters [])

/-- The container, which is a word, from the first occurrence of the value on, or empty. -/
def memberWord? (thing container : Value) (line : Nat) : Option (Except RuntimeError Value) :=
  match container.asWord "member" line, thing.asWord "member" line with
  | .ok whole, .ok part => (wordFrom? part whole).map .ok
  | .ok _, .error e => some (.error e)
  | .error e, _ => some (.error e)

/-- The container from the first occurrence of the value on, or empty. -/
def member? (thing container : Value) (line : Nat) : Option (Except RuntimeError Value) :=
  match container with
  | .list items =>
    match items.findIdx? thing.alike with
    | some place => do
      let rest ← cutFrom place items
      return .ok (.list rest)
    | none => some (.ok (.list []))
  | container => memberWord? thing container line

lemma butfirst?_eq (v : Value) (line : Nat) : butfirst? v line = some (butfirst v line) := by
  cases v with
  | list items =>
    cases items with
    | nil => rfl
    | cons item items =>
      have hcut : cutFrom 1 (item :: items) = some items := if_pos (by simp)
      simp only [butfirst?, List.isEmpty_cons, Bool.false_eq_true, if_false, hcut]
      rfl
  | _ => rfl

lemma butlast?_eq (v : Value) (line : Nat) : butlast? v line = some (butlast v line) := by
  cases v with
  | list items =>
    cases items with
    | nil => rfl
    | cons item items =>
      have hcut : cutTo items.length (item :: items) = some (item :: items).dropLast := by
        rw [cutTo, if_pos (by simp), List.dropLast_eq_take]
        rfl
      simp only [butlast?, List.isEmpty_cons, Bool.false_eq_true, if_false, List.length_cons,
        Nat.ppred_succ, Option.bind_eq_bind, Option.bind_some, hcut]
      rfl
  | _ => rfl

/-- What is left of a list from the first member on that passes the test. -/
lemma cutFrom_findIdx? (test : α → Bool) (xs : List α) :
    (xs.findIdx? test).elim (some []) (cutFrom · xs) = some (xs.dropWhile fun x => !test x) := by
  induction xs with
  | nil => rfl
  | cons x xs ih =>
    rw [List.findIdx?_cons, List.dropWhile_cons]
    cases htest : test x with
    | true => rfl
    | false =>
      rw [if_neg Bool.false_ne_true, if_pos (by simp), ← ih]
      cases xs.findIdx? test with
      | none => rfl
      | some place =>
        simp only [Option.map_some, Option.elim_some, cutFrom, List.length_cons,
          List.drop_succ_cons, Nat.add_le_add_iff_right]

lemma wordFrom?_eq (part whole : String) :
    wordFrom? part whole = some (ofLetters ((suffixAt? part.toList whole.toList).getD [])) := by
  have hfind := Text.findBytes_bytes part.toList whole.toList
  rw [wordFrom?]
  cases hplace : Text.findBytes (Text.bytes part.toList) (Text.bytes whole.toList) with
  | none =>
    rw [hplace, Option.map_none, eq_comm, Option.map_eq_none_iff] at hfind
    rw [hfind]
    rfl
  | some byte =>
    rw [hplace, Option.map_some, eq_comm, Option.map_eq_some_iff] at hfind
    obtain ⟨rest, hrest, hcut⟩ := hfind
    simp only [hrest, ← hcut]
    rfl

lemma memberWord?_eq (thing container : Value) (line : Nat) :
    memberWord? thing container line = some (do
      let whole ← container.asWord "member" line
      let part ← thing.asWord "member" line
      return ofLetters ((suffixAt? part.toList whole.toList).getD [])) := by
  rw [memberWord?]
  cases container.asWord "member" line with
  | error e => rfl
  | ok whole =>
    cases thing.asWord "member" line with
    | error e => rfl
    | ok part => exact congrArg (Option.map Except.ok) (wordFrom?_eq part whole)

lemma member?_eq (thing container : Value) (line : Nat) :
    member? thing container line = some (member thing container line) := by
  cases container with
  | list items =>
    have hcut := cutFrom_findIdx? thing.alike items
    rw [member?, member]
    cases hplace : items.findIdx? thing.alike with
    | none =>
      rw [hplace, Option.elim_none, Option.some_inj] at hcut
      rw [← hcut]
    | some place =>
      rw [hplace, Option.elim_some] at hcut
      dsimp only
      rw [hcut]
      rfl
  | number x => exact memberWord?_eq thing (.number x) line
  | word text => exact memberWord?_eq thing (.word text) line
  | truth b => exact memberWord?_eq thing (.truth b) line
  | absent => exact memberWord?_eq thing .absent line

end Sequence

/-! ## All operations -/

namespace Operation

/-- The value for the input in the first place. -/
def one? (inputs : List Value) (value : Value → Option (Except RuntimeError Value)) :
    Option (Except RuntimeError Value) := do
  value (← inputs[0]?)

/-- The value for the inputs in the first two places. -/
def two? (inputs : List Value) (value : Value → Value → Option (Except RuntimeError Value)) :
    Option (Except RuntimeError Value) := do
  let a ← inputs[0]?
  value a (← inputs[1]?)

/-- The first of the inputs put in front of the second, or both of them joined as words. -/
def combine? (inputs : List Value) (line : Nat) : Option (Except RuntimeError Value) := do
  match ← inputs[1]? with
  | .list items => one? inputs fun a => some (Sequence.fput a (.list items) line)
  | _ =>
    let both ← cutTo 2 inputs
    return Sequence.word both line

/-- The value of an operation, if all accesses by place hit. -/
def attempt (op : Operation) (inputs : List Value) (line : Nat) :
    Option (Except RuntimeError Value) :=
  match op with
  | word | list | sentence | sum | product | bitand | bitor | bitxor | and | or | ignore =>
    some (op.apply inputs line)
  | fput => two? inputs fun a b => some (Sequence.fput a b line)
  | lput => two? inputs fun a b => some (Sequence.lput a b line)
  | combine => combine? inputs line
  | reverse => one? inputs fun a => some (Sequence.reverse a line)
  | first => one? inputs fun a => some (Sequence.first a line)
  | last => one? inputs fun a => some (Sequence.last a line)
  | butfirst => one? inputs fun a => Sequence.butfirst? a line
  | butlast => one? inputs fun a => Sequence.butlast? a line
  | item => two? inputs fun a b => some (Sequence.item a b line)
  | remdup => one? inputs fun a => some (Sequence.remdup a line)
  | wordp => one? inputs fun a => some (.ok (.truth (Sequence.wordp a)))
  | listp => one? inputs fun a => some (.ok (.truth (Sequence.listp a)))
  | emptyp => one? inputs fun a => some (.ok (.truth a.isEmpty))
  | equalp => two? inputs fun a b => some (.ok (.truth (a.alike b)))
  | notequalp => two? inputs fun a b => some (.ok (.truth (!a.alike b)))
  | beforep => two? inputs fun a b => some (Sequence.beforep a b line)
  | memberp => two? inputs fun a b => some (.ok (.truth (Sequence.memberp a b)))
  | substringp => two? inputs fun a b => some (.ok (.truth (Sequence.substringp a b)))
  | numberp => one? inputs fun a => some (.ok (.truth a.isNumeric))
  | count => one? inputs fun a => some (Sequence.count a line)
  | ascii => one? inputs fun a => some (Sequence.ascii a line)
  | char => one? inputs fun a => some (Sequence.char a line)
  | member => two? inputs fun a b => Sequence.member? a b line
  | lowercase => one? inputs fun a => some (Sequence.lowercase a line)
  | uppercase => one? inputs fun a => some (Sequence.uppercase a line)
  | difference => two? inputs fun a b => some (Numbers.difference a b line)
  | quotient => one? inputs fun a => some (Numbers.quotient a inputs[1]? line)
  | remainder => two? inputs fun a b => some (Numbers.remainder a b line)
  | minus => one? inputs fun a => some (Numbers.minus a line)
  | int => one? inputs fun a => some (Numbers.int a line)
  | round => one? inputs fun a => some (Numbers.round a line)
  | sqrt => one? inputs fun a => some (Numbers.sqrt a line)
  | bitnot => one? inputs fun a => some (Bits.bitnot a line)
  | ashift => two? inputs fun a b => some (Bits.shift Bits.shiftSigned "ashift" a b line)
  | lshift => two? inputs fun a b => some (Bits.shift Bits.shiftUnsigned "lshift" a b line)
  | not => one? inputs fun a => some (Truths.negation a line)

/-- How many inputs the operation takes by place. -/
def taken : Operation → Nat
  | word | list | sentence | sum | product | bitand | bitor | bitxor | and | or | ignore => 0
  | fput | lput | combine | item | equalp | notequalp | beforep | memberp | substringp | member
  | difference | remainder | ashift | lshift => 2
  | _ => 1

variable {inputs : List Value} {line : Nat}

lemma one?_eq (h : 1 ≤ inputs.length) (name : String)
    {value? : Value → Option (Except RuntimeError Value)}
    {value : Value → Except RuntimeError Value}
    (hvalue : ∀ a, value? a = some (value a)) :
    one? inputs value? = some (withOne name inputs line value) := by
  obtain _ | ⟨a, inputs⟩ := inputs
  · cases h
  · exact hvalue a

lemma two?_eq (h : 2 ≤ inputs.length) (name : String)
    {value? : Value → Value → Option (Except RuntimeError Value)}
    {value : Value → Value → Except RuntimeError Value}
    (hvalue : ∀ a b, value? a b = some (value a b)) :
    two? inputs value? = some (withTwo name inputs line value) := by
  obtain _ | ⟨a, _ | ⟨b, inputs⟩⟩ := inputs
  · cases h
  · simp at h
  · exact hvalue a b

lemma combine?_eq (h : 2 ≤ inputs.length) :
    combine? inputs line = some (combine.apply inputs line) := by
  obtain _ | ⟨a, _ | ⟨b, inputs⟩⟩ := inputs
  · cases h
  · simp at h
  · cases b <;> rfl

/-- **No access misses**, if the operation has the inputs that it takes by place. -/
theorem attempt_eq (op : Operation) (h : op.taken ≤ inputs.length) :
    op.attempt inputs line = some (op.apply inputs line) := by
  cases op with
  | word | list | sentence | sum | product | bitand | bitor | bitxor | and | or | ignore => rfl
  | combine => exact combine?_eq h
  | butfirst => exact one?_eq h _ fun a => Sequence.butfirst?_eq a line
  | butlast => exact one?_eq h _ fun a => Sequence.butlast?_eq a line
  | member => exact two?_eq h _ fun a b => Sequence.member?_eq a b line
  | fput | lput | item | equalp | notequalp | beforep | memberp | substringp | difference
  | remainder | ashift | lshift => exact two?_eq h _ fun _ _ => rfl
  | _ => exact one?_eq h _ fun _ => rfl

end Operation

/-! ## The table -/

/-- How many inputs the command takes by place. -/
def Command.taken : Command → Nat
  | print | showForm | typeOut | stop => 0
  | thing | load | run | output => 1
  | make | name | repeatTimes | foreach => 2

/-- How many inputs are taken by place. -/
def Action.taken : Action → Nat
  | operation op => op.taken
  | command c => c.taken
  | reserved => 0

/-- The table asks for all inputs that a built-in procedure takes by place. -/
lemma taken_le_least : ∀ b ∈ Builtin.table, b.action.taken ≤ b.least := by decide

end Logo
