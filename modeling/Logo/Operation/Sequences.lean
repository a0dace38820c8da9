import Logo.Value

/-!
# Operations on words and lists

Building, taking apart and searching. Nearly every operation has a side for lists and a side for
words, where numbers and truth values are words by their text. Words are handled as the sequences of
their letters, so that both sides are the same list functions.
-/

namespace Logo.Sequence

/-- A word made of letters. -/
def ofLetters (letters : List Char) : Value := .word (String.ofList letters)

/-! ## Building -/

/-- The texts of all inputs joined into one word. -/
def word (inputs : List Value) (line : Nat) : Except RuntimeError Value := do
  let texts ← inputs.mapM fun v => v.asWord "word" line
  return .word (String.join texts)

/-- The members that an input contributes to a sentence. -/
def spliced : Value → List Value
  | .list items => items
  | .absent => []
  | v => [v]

/-- The list of the inputs, in which lists stand for their members. -/
def sentence (inputs : List Value) : Value := .list (inputs.flatMap spliced)

/-- The container with a further member at its front. -/
def fput (thing container : Value) (line : Nat) : Except RuntimeError Value :=
  match container with
  | .list items => .ok (.list (thing :: items))
  | _ => do
    let c ← thing.asLetter "fput" line
    let text ← container.asWord "fput" line
    return ofLetters (c :: text.toList)

/-- The container with a further member at its end. -/
def lput (thing container : Value) (line : Nat) : Except RuntimeError Value :=
  match container with
  | .list items => .ok (.list (items ++ [thing]))
  | _ => do
    let c ← thing.asLetter "lput" line
    let text ← container.asWord "lput" line
    return ofLetters (text.toList ++ [c])

/-- A list with a further member at its front, or two words joined. -/
def combine (thing container : Value) (line : Nat) : Except RuntimeError Value :=
  match container with
  | .list _ => fput thing container line
  | _ => word [thing, container] line

/-- The members or letters in the opposite order. -/
def reverse (v : Value) (line : Nat) : Except RuntimeError Value :=
  match v with
  | .list items => .ok (.list items.reverse)
  | _ => do
    let text ← v.asWord "reverse" line
    return ofLetters text.toList.reverse

/-! ## Taking apart -/

/-- The first member or letter. -/
def first (v : Value) (line : Nat) : Except RuntimeError Value := do
  match (← v.members "first" line).head? with
  | some x => return x
  | none => throw (v.invalidFor "first" line)

/-- The last member or letter. -/
def last (v : Value) (line : Nat) : Except RuntimeError Value := do
  match (← v.members "last" line).getLast? with
  | some x => return x
  | none => throw (v.invalidFor "last" line)

/-- All but the first member or letter. -/
def butfirst (v : Value) (line : Nat) : Except RuntimeError Value :=
  match v with
  | .list [] => .error (v.invalidFor "butfirst" line)
  | .list (_ :: items) => .ok (.list items)
  | _ => do
    match (← v.asWord "butfirst" line).toList with
    | [] => throw (v.invalidFor "butfirst" line)
    | _ :: letters => return ofLetters letters

/-- All but the last member or letter. -/
def butlast (v : Value) (line : Nat) : Except RuntimeError Value :=
  match v with
  | .list [] => .error (v.invalidFor "butlast" line)
  | .list items => .ok (.list items.dropLast)
  | _ => do
    match (← v.asWord "butlast" line).toList with
    | [] => throw (v.invalidFor "butlast" line)
    | letters => return ofLetters letters.dropLast

/-- The member or letter at an index, counted from one. -/
def item (index container : Value) (line : Nat) : Except RuntimeError Value := do
  let i ← index.asInteger "item" line
  let members ← container.members "item" line
  let outOfBounds := RuntimeError.indexOutOfBounds members.length i line
  if i < 1 then throw outOfBounds
  else
    match members[i.toNat - 1]? with
    | some x => return x
    | none => throw outOfBounds

/-- The members without those of which an equal one comes later. Keys tell what is equal, and each
member is looked up among those kept so far. -/
def keepLast (items : List Value) : List Value :=
  ((items.map fun v => (v.key, v)).foldr
    (fun p kept => if kept.any fun q => q.1.sameKey p.1 then kept else p :: kept) []).map Prod.snd

/-- The list without duplicates, each of which is kept where it stands last. -/
def remdup (v : Value) (line : Nat) : Except RuntimeError Value := do
  return .list (keepLast (← v.asList "remdup" line))

/-! ## Searching -/

/-- The rest of `whole` from the first place on where `part` starts. -/
def suffixAt? (part : List Char) : (whole : List Char) → Option (List Char)
  | [] => if part.isPrefixOf [] then some [] else none
  | c :: cs => if part.isPrefixOf (c :: cs) then some (c :: cs) else suffixAt? part cs

/-- The text `part` occurs in the text `whole`. -/
def occursIn (part whole : String) : Bool := (suffixAt? part.toList whole.toList).isSome

/-- The value is a member of the list or a letter of the word. -/
def memberp (thing container : Value) : Bool :=
  match thing, container with
  | _, .list items => items.any thing.alike
  | .list _, _ => false
  | _, _ => thing.display.length == 1 && occursIn thing.display container.display

/-- One word occurs in another. Lists occur in nothing, and nothing occurs in them. -/
def substringp (part whole : Value) : Bool :=
  match part, whole with
  | .list _, _ | _, .list _ => false
  | _, _ => occursIn part.display whole.display

/-- The container from the first occurrence of the value on, or empty. -/
def member (thing container : Value) (line : Nat) : Except RuntimeError Value :=
  match container with
  | .list items => .ok (.list (items.dropWhile fun v => !thing.alike v))
  | _ => do
    let whole ← container.asWord "member" line
    let part ← thing.asWord "member" line
    return ofLetters ((suffixAt? part.toList whole.toList).getD [])

/-! ## Asking -/

/-- A word, a number or a truth value. -/
def wordp : Value → Bool
  | .word _ | .number _ | .truth _ => true
  | _ => false

/-- A list. -/
def listp : Value → Bool
  | .list _ => true
  | _ => false

/-- The text of the first input comes before that of the second, character by character. -/
def beforep (a b : Value) (line : Nat) : Except RuntimeError Value := do
  let s ← a.asWord "beforep" line
  let t ← b.asWord "beforep" line
  return .truth (s < t)

/-- The number of members or letters. -/
def count (v : Value) (line : Nat) : Except RuntimeError Value := do
  return .number (← Value.size (← v.members "count" line).length line)

/-- The code of a letter. -/
def ascii (v : Value) (line : Nat) : Except RuntimeError Value := do
  return .number (Float.ofNat (← v.asLetter "ascii" line).toNat)

/-- The letter with a code. -/
def char (v : Value) (line : Nat) : Except RuntimeError Value := do
  let code ← Value.smallNatural (← v.asInteger "char" line) line
  if code.isValidChar then return ofLetters [Char.ofNat code]
  else throw (v.invalidFor "char" line)

/-- The word in small letters. -/
def lowercase (v : Value) (line : Nat) : Except RuntimeError Value := do
  return .word (Text.lower (← v.asWord "lowercase" line))

/-- The word in capital letters. -/
def uppercase (v : Value) (line : Nat) : Except RuntimeError Value := do
  return .word (Text.upper (← v.asWord "uppercase" line))

end Logo.Sequence
