import Logo.Operation.Sequences
import Logo.Proofs.Values.Nearest

/-!
# Taking apart and building

A list is made of its members and a text of its letters, and the operations that take a sequence
apart, build one or turn one round do the same on both sides. What a value is made of is said once,
for both kinds of sequences, and so is what each operation does with it. The laws between the
operations are then facts about lists: they hold for lists and for words, and for the numbers and
truth values that count as words by their text.

* `Kind`, `MadeOf`: the two kinds of sequences, and what a value is made of.
* `fput_build`, `MadeOf.first_eq`, `MadeOf.item_eq` and so on: what each operation does.
* `MadeOf.butfirsts_eq`: what is left after several elements have been taken off.
* `MadeOf.fput_first_butfirst`, `MadeOf.item_eq_first` and so on: the single laws.
* `selectors_fit_constructors`: the laws between the operations.
-/

namespace Logo

open Number

namespace Value

/-- The value as what it is built again as: a list, or the word with its text. -/
def plain : Value → Value
  | list items => list items
  | v => word v.display

/-- The number of members of a list, or of letters of a text. -/
def extent : Value → Nat
  | list items => items.length
  | v => v.display.length

end Value

namespace Sequence

/-- All but the first `n` members or letters, taken off one by one. -/
def butfirsts : Nat → Value → Nat → Except RuntimeError Value
  | 0, v, _ => .ok v
  | n + 1, v, line => do butfirsts n (← butfirst v line) line

/-! ## The two kinds of sequences -/

/-- The two kinds of sequences. -/
inductive Kind where
  | list
  | word

namespace Kind

/-- What a sequence is made of. -/
abbrev Element : Kind → Type
  | list => Value
  | word => Char

/-- An element as a value of its own. -/
def toValue : (k : Kind) → k.Element → Value
  | list, v => v
  | word, c => .word (String.singleton c)

/-- The sequence of elements as a value. -/
def build : (k : Kind) → List k.Element → Value
  | list, items => .list items
  | word, letters => ofLetters letters

end Kind

/-- A list is made of its members, a word of its letters, and a number or a truth value of the
letters of its text. -/
inductive MadeOf : Value → (k : Kind) → List k.Element → Prop
  | list (items : List Value) : MadeOf (.list items) .list items
  | word {text : String} {letters : List Char} (h : text.toList = letters) :
    MadeOf (.word text) .word letters
  | number {x : Float} {letters : List Char} (h : (Value.number x).display.toList = letters) :
    MadeOf (.number x) .word letters
  | truth {b : Bool} {letters : List Char} (h : (Value.truth b).display.toList = letters) :
    MadeOf (.truth b) .word letters

lemma exists_madeOf {v : Value} (hv : v ≠ .absent) : ∃ k xs, MadeOf v k xs := by
  cases v with
  | number x => exact ⟨.word, _, .number rfl⟩
  | word text => exact ⟨.word, _, .word rfl⟩
  | truth b => exact ⟨.word, _, .truth rfl⟩
  | list items => exact ⟨.list, items, .list items⟩
  | absent => exact absurd rfl hv

lemma madeOf_build (k : Kind) (xs : List k.Element) : MadeOf (k.build xs) k xs := by
  cases k with
  | list => exact .list xs
  | word => exact .word String.toList_ofList

/-! ## What the operations do -/

lemma asLetter_singleton (c : Char) (name : String) (line : Nat) :
    (Value.word (String.singleton c)).asLetter name line = .ok c := by
  simp only [Value.asLetter, Value.asWord, String.toList_singleton]

/-- A further element at the front. -/
lemma fput_build (k : Kind) (x : k.Element) (xs : List k.Element) (line : Nat) :
    fput (k.toValue x) (k.build xs) line = .ok (k.build (x :: xs)) := by
  cases k with
  | list => rfl
  | word =>
    simp only [fput, Kind.toValue, Kind.build, ofLetters, asLetter_singleton, Value.asWord]
    show Except.ok (ofLetters (x :: (String.ofList xs).toList)) = _
    rw [String.toList_ofList]
    rfl

/-- A further element at the end. -/
lemma lput_build (k : Kind) (x : k.Element) (xs : List k.Element) (line : Nat) :
    lput (k.toValue x) (k.build xs) line = .ok (k.build (xs ++ [x])) := by
  cases k with
  | list => rfl
  | word =>
    simp only [lput, Kind.toValue, Kind.build, ofLetters, asLetter_singleton, Value.asWord]
    show Except.ok (ofLetters ((String.ofList xs).toList ++ [x])) = _
    rw [String.toList_ofList]
    rfl

/-- An index that is not taken is complained about, whatever the sequence is. -/
lemma item_of_error {index : Value} {line : Nat} {e : RuntimeError}
    (hindex : index.asInteger "item" line = .error e) (v : Value) :
    item index v line = .error e := by
  rw [item, hindex]
  rfl

namespace MadeOf

variable {v : Value} {k : Kind} {xs : List k.Element}

lemma build_eq_plain (h : MadeOf v k xs) : k.build xs = v.plain := by
  cases h
  case list items => rfl
  case word h | number h | truth h =>
    rw [← h]
    exact congrArg Value.word String.ofList_toList

lemma length_eq_extent (h : MadeOf v k xs) : xs.length = v.extent := by
  cases h
  case list items => rfl
  case word h | number h | truth h =>
    rw [← h]
    exact String.length_toList

lemma members_eq (h : MadeOf v k xs) (name : String) (line : Nat) :
    v.members name line = .ok (xs.map k.toValue) := by
  cases h
  case list items => exact congrArg Except.ok (List.map_id items).symm
  case word h | number h | truth h =>
    rw [← h]
    rfl

lemma reverse_eq (h : MadeOf v k xs) (line : Nat) : reverse v line = .ok (k.build xs.reverse) := by
  cases h
  case list items => rfl
  case word h | number h | truth h =>
    rw [← h]
    rfl

/-- The first element, of which there has to be one. -/
lemma first_eq (h : MadeOf v k xs) (line : Nat) : first v line =
    if hnil : xs = [] then .error (v.invalidFor "first" line)
    else .ok (k.toValue (xs.head hnil)) := by
  rw [first, h.members_eq]
  cases xs <;> rfl

/-- The last element, of which there has to be one. -/
lemma last_eq (h : MadeOf v k xs) (line : Nat) : last v line =
    if hnil : xs = [] then .error (v.invalidFor "last" line)
    else .ok (k.toValue (xs.getLast hnil)) := by
  rw [last, h.members_eq]
  simp only [bind, Except.bind, List.getLast?_map]
  by_cases hnil : xs = []
  · subst hnil
    rfl
  · rw [dif_neg hnil, List.getLast?_eq_some_getLast hnil]
    rfl

/-- All but the first element, of which there has to be one. -/
lemma butfirst_eq (h : MadeOf v k xs) (line : Nat) : butfirst v line =
    if xs = [] then .error (v.invalidFor "butfirst" line) else .ok (k.build xs.tail) := by
  cases h
  case list items => cases items <;> rfl
  case word letters h | number letters h | truth letters h =>
    unfold butfirst
    simp only [Value.asWord, h, bind, Except.bind]
    cases letters <;> rfl

/-- All but the last element, of which there has to be one. -/
lemma butlast_eq (h : MadeOf v k xs) (line : Nat) : butlast v line =
    if xs = [] then .error (v.invalidFor "butlast" line) else .ok (k.build xs.dropLast) := by
  cases h
  case list items => cases items <;> rfl
  case word letters h | number letters h | truth letters h =>
    unfold butlast
    simp only [Value.asWord, h, bind, Except.bind]
    cases letters <;> rfl

/-- Taking elements off one by one leaves what comes after them. -/
lemma butfirsts_eq (line : Nat) (n : Nat) : ∀ {v : Value} {xs : List k.Element}, MadeOf v k xs →
    n ≤ xs.length → ∃ w, butfirsts n v line = .ok w ∧ MadeOf w k (xs.drop n) := by
  induction n with
  | zero =>
    intro v xs h _
    exact ⟨v, rfl, h⟩
  | succ n ih =>
    intro v xs h hn
    have hne : xs ≠ [] := List.ne_nil_of_length_pos (by omega)
    have htail : n ≤ xs.tail.length := by
      rw [List.length_tail]
      omega
    -- a word is what is left of a number or a truth value, so the value changes in the induction
    obtain ⟨w, hw, hmade⟩ := ih (madeOf_build k xs.tail) htail
    refine ⟨w, ?_, List.drop_tail ▸ hmade⟩
    rw [butfirsts, h.butfirst_eq, if_neg hne]
    exact hw

/-- The element at an index, which has to be one of those that there are. -/
lemma item_eq (h : MadeOf v k xs) {index : Value} {line : Nat} {i : ℤ}
    (hindex : index.asInteger "item" line = .ok i) : item index v line =
      if hi : 1 ≤ i ∧ i ≤ xs.length then .ok (k.toValue xs[i.toNat - 1])
      else .error (.indexOutOfBounds xs.length i line) := by
  rw [item, hindex, h.members_eq]
  simp only [bind, Except.bind, List.length_map, List.getElem?_map]
  split
  case isTrue hlow =>
    rw [dif_neg (by omega)]
    rfl
  case isFalse hlow =>
    by_cases hhigh : i ≤ xs.length
    · rw [dif_pos (by omega), List.getElem?_eq_getElem (by omega)]
      rfl
    · rw [dif_neg (by omega), List.getElem?_eq_none (by omega)]
      rfl

lemma count_eq (h : MadeOf v k xs) (line : Nat) :
    count v line = (Value.size xs.length line).map .number := by
  rw [count, h.members_eq]
  simp only [bind, Except.bind, List.length_map]
  cases Value.size xs.length line <;> rfl

lemma isEmpty_iff (h : MadeOf v k xs) : v.isEmpty = true ↔ xs = [] := by
  cases h
  case list items => exact List.isEmpty_iff
  case word letters h => rw [Value.isEmpty, String.isEmpty_iff, ← String.toList_eq_nil_iff, h]
  case number x letters h =>
    have hne : letters ≠ [] := by
      rw [← h, Ne, String.toList_eq_nil_iff]
      exact Number.text_ne_empty x
    simp [Value.isEmpty, hne]
  case truth b letters h =>
    have hne : letters ≠ [] := by
      rw [← h]
      cases b <;> decide
    simp [Value.isEmpty, hne]

/-! ## Laws -/

lemma fput_first_butfirst (h : MadeOf v k xs) (hne : xs ≠ []) (line : Nat) :
    (do fput (← first v line) (← butfirst v line) line) = .ok v.plain := by
  rw [h.first_eq, dif_neg hne, h.butfirst_eq, if_neg hne]
  show fput (k.toValue (xs.head hne)) (k.build xs.tail) line = _
  rw [fput_build, List.cons_head_tail, h.build_eq_plain]

lemma lput_last_butlast (h : MadeOf v k xs) (hne : xs ≠ []) (line : Nat) :
    (do lput (← last v line) (← butlast v line) line) = .ok v.plain := by
  rw [h.last_eq, dif_neg hne, h.butlast_eq, if_neg hne]
  show lput (k.toValue (xs.getLast hne)) (k.build xs.dropLast) line = _
  rw [lput_build, List.dropLast_append_getLast, h.build_eq_plain]

lemma first_reverse (h : MadeOf v k xs) (hne : xs ≠ []) (line : Nat) :
    ∃ w, (do first (← reverse v line) line) = .ok w ∧ last v line = .ok w := by
  have hrev : xs.reverse ≠ [] := List.reverse_ne_nil_iff.mpr hne
  refine ⟨k.toValue (xs.getLast hne), ?_, ?_⟩
  · rw [h.reverse_eq]
    show first (k.build xs.reverse) line = _
    rw [(madeOf_build k xs.reverse).first_eq, dif_neg hrev, List.head_reverse]
  · rw [h.last_eq, dif_neg hne]

lemma butfirst_reverse (h : MadeOf v k xs) (hne : xs ≠ []) (line : Nat) :
    ∃ w, (do butfirst (← reverse v line) line) = .ok w ∧
      (do reverse (← butlast v line) line) = .ok w := by
  have hrev : xs.reverse ≠ [] := List.reverse_ne_nil_iff.mpr hne
  refine ⟨k.build xs.dropLast.reverse, ?_, ?_⟩
  · rw [h.reverse_eq]
    show butfirst (k.build xs.reverse) line = _
    rw [(madeOf_build k xs.reverse).butfirst_eq, if_neg hrev, List.tail_reverse]
  · rw [h.butlast_eq, if_neg hne]
    exact (madeOf_build k xs.dropLast).reverse_eq line

lemma reverse_reverse (h : MadeOf v k xs) (line : Nat) :
    (do reverse (← reverse v line) line) = .ok v.plain := by
  rw [h.reverse_eq]
  show reverse (k.build xs.reverse) line = _
  rw [(madeOf_build k xs.reverse).reverse_eq, List.reverse_reverse, h.build_eq_plain]

/-- A size of at most 53 bits is given as the number that it is. -/
lemma count_exact (h : MadeOf v k xs) (hsmall : xs.length < 2 ^ 53) (line : Nat) :
    ∃ n, count v line = .ok (.number n) ∧ IsExactly n xs.length := by
  refine ⟨Float.ofNat xs.length, ?_, isExactly_ofNat hsmall⟩
  have hsize : Value.size xs.length line = .ok (Float.ofNat xs.length) :=
    if_neg (Nat.not_le.mpr hsmall)
  rw [h.count_eq, hsize]
  rfl

/-- The element at an index is the first one that is left without those before it. -/
lemma item_eq_first (h : MadeOf v k xs) {index : Value} {line : Nat} {i : ℤ}
    (hindex : index.asInteger "item" line = .ok i) (hi : 1 ≤ i ∧ i ≤ xs.length) :
    ∃ w, item index v line = .ok w ∧
      (do first (← butfirsts (i.toNat - 1) v line) line) = .ok w := by
  have hplace : i.toNat - 1 < xs.length := by omega
  obtain ⟨rest, hrest, hmade⟩ := butfirsts_eq line (i.toNat - 1) h hplace.le
  have hne : xs.drop (i.toNat - 1) ≠ [] := by
    rw [Ne, List.drop_eq_nil_iff]
    omega
  refine ⟨k.toValue xs[i.toNat - 1], ?_, ?_⟩
  · rw [h.item_eq hindex, dif_pos hi]
  · rw [hrest]
    show first rest line = _
    rw [hmade.first_eq, dif_neg hne, List.head_drop]

end MadeOf

end Sequence

section

open Sequence

/-- **Taking apart and building undo each other.** From an empty list or word nothing can be taken.
The first element in front of the others and the last one behind the others give the list or the
text again, and so does turning it round twice; turned round, it starts with what it ended in. The
element at an index is the first one that is left after taking off those before it, and an index
below one or beyond the size is complained about together with the size. Only an index of more than
64 bits is refused as such. -/
theorem selectors_fit_constructors (v : Value) (hv : v ≠ .absent) (line : Nat) :
    (v.isEmpty = true →
      first v line = .error (.invalidInput "first" v.display line) ∧
      last v line = .error (.invalidInput "last" v.display line) ∧
      butfirst v line = .error (.invalidInput "butfirst" v.display line) ∧
      butlast v line = .error (.invalidInput "butlast" v.display line)) ∧
    (v.isEmpty = false →
      (do fput (← first v line) (← butfirst v line) line) = .ok v.plain ∧
      (do lput (← last v line) (← butlast v line) line) = .ok v.plain ∧
      (∃ w, (do first (← reverse v line) line) = .ok w ∧ last v line = .ok w) ∧
      (∃ w, (do butfirst (← reverse v line) line) = .ok w ∧
        (do reverse (← butlast v line) line) = .ok w)) ∧
    (do reverse (← reverse v line) line) = .ok v.plain ∧
    (v.extent < 2 ^ 53 → ∃ n, count v line = .ok (.number n) ∧ IsExactly n v.extent) ∧
    ∀ (index : Value) (x : Float) (i : ℤ), index.number? = some x → IsExactly x i →
      (-2 ^ 63 ≤ i ∧ i < 2 ^ 63 →
        (1 ≤ i ∧ i ≤ v.extent → ∃ w, item index v line = .ok w ∧
          (do first (← butfirsts (i.toNat - 1) v line) line) = .ok w) ∧
        (¬(1 ≤ i ∧ i ≤ v.extent) →
          item index v line = .error (.indexOutOfBounds v.extent i line))) ∧
      (¬(-2 ^ 63 ≤ i ∧ i < 2 ^ 63) → item index v line = .error (.literalTooLarge line)) := by
  obtain ⟨k, xs, h⟩ := exists_madeOf hv
  rw [← h.length_eq_extent]
  refine ⟨fun hempty => ?_, fun hnonempty => ?_, h.reverse_reverse line,
    fun hsmall => h.count_exact hsmall line, fun index x i hx hi => ?_⟩
  · have hnil : xs = [] := h.isEmpty_iff.mp hempty
    exact ⟨by rw [h.first_eq, dif_pos hnil, Value.invalidFor],
      by rw [h.last_eq, dif_pos hnil, Value.invalidFor],
      by rw [h.butfirst_eq, if_pos hnil, Value.invalidFor],
      by rw [h.butlast_eq, if_pos hnil, Value.invalidFor]⟩
  · have hne : xs ≠ [] := fun hnil => by simp [h.isEmpty_iff.mpr hnil] at hnonempty
    exact ⟨h.fput_first_butfirst hne line, h.lput_last_butlast hne line,
      h.first_reverse hne line, h.butfirst_reverse hne line⟩
  · have hindex := Value.asInteger_of_isExactly hx hi "item" line
    constructor
    · intro hrange
      rw [if_pos hrange] at hindex
      refine ⟨h.item_eq_first hindex, fun hout => ?_⟩
      rw [h.item_eq hindex, dif_neg hout]
    · intro hrange
      rw [if_neg hrange] at hindex
      exact item_of_error hindex v

/-- The number 120 is taken apart by its text, and the word `2` is an index. -/
theorem selectors_fit_constructors_number :
    Value.number 120.0 ≠ .absent ∧ (Value.number 120.0).isEmpty = false ∧
    (do fput (← first (.number 120.0) 1) (← butfirst (.number 120.0) 1) 1) = .ok (.word "120") ∧
    (Value.word "2").number? = some 2.0 ∧ IsExactly 2.0 2 ∧
    (∃ w, item (.word "2") (.number 120.0) 1 = .ok w ∧
      (do first (← butfirsts 1 (.number 120.0) 1) 1) = .ok w) ∧
    IsExactly (-1.0) (-1) ∧
    item (.number (-1.0)) (.number 120.0) 1 = .error (.indexOutOfBounds 3 (-1) 1) := by
  have htwo : IsExactly 2.0 2 :=
    ⟨⟨false, 2 ^ 52, -51⟩, by decide +kernel, by norm_num [Binary.value]⟩
  have hminus : IsExactly (-1.0) (-1) :=
    ⟨⟨true, 2 ^ 52, -52⟩, by decide +kernel, by norm_num [Binary.value]⟩
  have htext : Number.text 120.0 = "120" := by decide +kernel
  have hplain : (Value.number 120.0).plain = .word "120" := congrArg Value.word htext
  have hextent : (Value.number 120.0).extent = 3 := congrArg String.length htext
  have hne : Value.number 120.0 ≠ .absent := Value.noConfusion
  obtain ⟨-, hbuild, -, -, hitem⟩ := selectors_fit_constructors (.number 120.0) hne 1
  rw [hplain] at hbuild
  rw [hextent] at hitem
  have hsecond := ((hitem (.word "2") 2.0 2 rfl htwo).1 (by decide)).1 (by decide)
  have hbelow := ((hitem (.number (-1.0)) (-1.0) (-1) rfl hminus).1 (by decide)).2 (by decide)
  exact ⟨hne, rfl, (hbuild rfl).1, rfl, htwo, hsecond, hminus, hbelow⟩

/-- Ten to the nineteenth is a double, but no whole number of 64 bits: it is too large to be told as
an index that lies outside of a list. -/
theorem item_beyond_integers :
    (Value.number 1e19).number? = some 1e19 ∧ IsExactly 1e19 (10 ^ 19) ∧
    ¬(1 ≤ (10 : ℤ) ^ 19 ∧ (10 : ℤ) ^ 19 ≤ (Value.list [.word "a", .word "b"]).extent) ∧
    item (.number 1e19) (.list [.word "a", .word "b"]) 1 = .error (.literalTooLarge 1) ∧
    item (.number 1e19) (.list [.word "a", .word "b"]) 1 ≠
      .error (.indexOutOfBounds 2 (10 ^ 19) 1) := by
  have hexact : IsExactly 1e19 (10 ^ 19) :=
    ⟨⟨false, 5 ^ 19 * 2 ^ 8, 11⟩, by decide +kernel, by norm_num [Binary.value]⟩
  have hindex : (Value.number 1e19).asInteger "item" 1 = .error (.literalTooLarge 1) := by
    rw [Value.asInteger_of_isExactly rfl hexact, if_neg (by decide)]
  have hitem := item_of_error hindex (.list [.word "a", .word "b"])
  refine ⟨rfl, hexact, by decide, hitem, ?_⟩
  rw [hitem]
  simp

end

end Logo
