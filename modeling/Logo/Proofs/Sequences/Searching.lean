import Logo.Operation.Apply
import Mathlib.Data.List.Infix

/-!
# Searching

One operation gives what is left of a container from the place on where something is found, and two
others only tell whether it is found. Each of them searches on its own. They agree, for all of them
find the first place: what is left from there on is the longest of the suffixes that start with what
is looked for.

* `IsLongestSuffix`: the longest suffix that passes a test.
* `isLongestSuffix_dropWhile`: the search for a member of a list.
* `suffixAt?_eq_some_iff`, `suffixAt?_eq_none_iff`: the search for a text in another one.
* `searches_agree`: the three operations, on lists and on words.
-/

namespace Logo

namespace Sequence

/-! ## The longest suffix that passes a test -/

section Suffixes

variable {α : Type} {test : List α → Prop} {p : α → Bool} {x : α} {xs rest : List α}

/-- The suffix passes the test, and so does no suffix that is longer. -/
structure IsLongestSuffix (test : List α → Prop) (xs rest : List α) : Prop where
  suffix : rest <:+ xs
  passes : test rest
  longest : ∀ other, other <:+ xs → test other → other <:+ rest

/-- A list that passes the test is itself the longest. -/
lemma isLongestSuffix_iff_eq (h : test xs) : IsLongestSuffix test xs rest ↔ rest = xs := by
  constructor
  · intro hrest
    have hle := (hrest.longest xs List.suffix_rfl h).length_le
    exact hrest.suffix.eq_of_length_le hle
  · rintro rfl
    exact ⟨List.suffix_rfl, h, fun _ hother _ => hother⟩

/-- A list that does not pass the test leaves the choice to its tail. -/
lemma isLongestSuffix_cons (h : ¬ test (x :: xs)) :
    IsLongestSuffix test (x :: xs) rest ↔ IsLongestSuffix test xs rest := by
  have hsame : ∀ other, test other → (other <:+ x :: xs ↔ other <:+ xs) := by
    intro other htest
    have hne : other ≠ x :: xs := fun heq => h (heq ▸ htest)
    rw [List.suffix_cons_iff, or_iff_right hne]
  constructor
  · rintro ⟨hsuffix, hpasses, hlongest⟩
    exact ⟨(hsame rest hpasses).mp hsuffix, hpasses, fun other hother htest =>
      hlongest other ((hsame other htest).mpr hother) htest⟩
  · rintro ⟨hsuffix, hpasses, hlongest⟩
    exact ⟨(hsame rest hpasses).mpr hsuffix, hpasses, fun other hother htest =>
      hlongest other ((hsame other htest).mp hother) htest⟩

/-- What is left of a list from the first member on that is looked for. -/
lemma isLongestSuffix_dropWhile (h : xs.any p = true) :
    IsLongestSuffix (fun rest => ∃ x ∈ rest.head?, p x = true) xs (xs.dropWhile fun x => !p x) := by
  induction xs with
  | nil => cases h
  | cons x xs ih =>
    cases hx : p x with
    | true =>
      rw [List.dropWhile_cons_of_neg (by simp [hx])]
      exact (isLongestSuffix_iff_eq ⟨x, rfl, hx⟩).mpr rfl
    | false =>
      rw [List.any_cons, hx, Bool.false_or] at h
      rw [List.dropWhile_cons_of_pos (by simp [hx]), isLongestSuffix_cons (by simp [hx])]
      exact ih h

/-- Nothing is left if there is no such member, and only then. -/
lemma isEmpty_dropWhile (p : α → Bool) (xs : List α) :
    (xs.dropWhile fun x => !p x).isEmpty = !xs.any p := by
  induction xs with
  | nil => rfl
  | cons x xs ih => cases hx : p x <;> simp [hx, ih]

end Suffixes

/-! ## Texts in texts -/

section Texts

variable {part whole rest : List Char}

/-- A text that is found is found at the first place. -/
lemma suffixAt?_eq_some_iff :
    suffixAt? part whole = some rest ↔ IsLongestSuffix (part <+: ·) whole rest := by
  induction whole with
  | nil =>
    rw [suffixAt?]
    split
    case isTrue h =>
      rw [isLongestSuffix_iff_eq (List.isPrefixOf_iff_prefix.mp h), Option.some_inj, eq_comm]
    case isFalse h =>
      refine iff_of_false (by simp) fun hrest => h ?_
      obtain rfl := List.suffix_nil.mp hrest.suffix
      exact List.isPrefixOf_iff_prefix.mpr hrest.passes
  | cons c cs ih =>
    rw [suffixAt?]
    split
    case isTrue h =>
      rw [isLongestSuffix_iff_eq (List.isPrefixOf_iff_prefix.mp h), Option.some_inj, eq_comm]
    case isFalse h =>
      rw [isLongestSuffix_cons (mt List.isPrefixOf_iff_prefix.mpr h), ih]

/-- A text that is not found stands nowhere. -/
lemma suffixAt?_eq_none_iff : suffixAt? part whole = none ↔ ¬ part <:+: whole := by
  induction whole with
  | nil => simp [suffixAt?, List.isPrefixOf_iff_prefix]
  | cons c cs ih =>
    rw [suffixAt?, List.infix_cons_iff, not_or, ← ih, ← List.isPrefixOf_iff_prefix]
    split
    case isTrue h => simp [h]
    case isFalse h => simp [h]

/-- What is left of a text from the first place on where a text that is not empty starts. It is
empty if there is no such place, and only then. -/
lemma isEmpty_suffixAt? (h : part ≠ []) (whole : List Char) :
    ((suffixAt? part whole).getD []).isEmpty = !(suffixAt? part whole).isSome := by
  cases hfound : suffixAt? part whole with
  | none => rfl
  | some rest =>
    have hne : rest ≠ [] := by
      rintro rfl
      exact h (List.prefix_nil.mp (suffixAt?_eq_some_iff.mp hfound).passes)
    simp [hne]

end Texts

/-! ## The operations -/

/-- On words, numbers and truth values all three operations search for one text in another. -/
lemma searches_of_wordp {part whole : Value} (hpart : wordp part = true)
    (hwhole : wordp whole = true) (line : Nat) :
    member part whole line =
      .ok (ofLetters ((suffixAt? part.display.toList whole.display.toList).getD [])) ∧
    substringp part whole = (suffixAt? part.display.toList whole.display.toList).isSome ∧
    memberp part whole = (part.display.length == 1 &&
      (suffixAt? part.display.toList whole.display.toList).isSome) := by
  cases part with
  | word _ | number _ | truth _ =>
    cases whole with
    | word _ | number _ | truth _ => exact ⟨rfl, rfl, rfl⟩
    | list _ | absent => cases hwhole
  | list _ | absent => cases hpart

end Sequence

open Sequence

/-- **The searches agree.** A value is a member of a list exactly if something is left of the list
from its first occurrence on, and that is the longest of the suffixes that start with an equal
member. A text that is not empty occurs in another one exactly if something is left of that from the
first occurrence on, and that is the longest of the suffixes that start with the text. It counts as
a member in the same cases if it has a single letter, and never if it has more. -/
theorem searches_agree (line : Nat) :
    (∀ (thing : Value) (items : List Value), ∃ rest,
      Operation.member.apply [thing, .list items] line = .ok (.list rest) ∧
      Operation.memberp.apply [thing, .list items] line = .ok (.truth !rest.isEmpty) ∧
      (rest ≠ [] → IsLongestSuffix (fun s => ∃ x ∈ s.head?, thing.alike x = true) items rest) ∧
      (rest = [] → ∀ x ∈ items, thing.alike x = false)) ∧
    (∀ part whole : Value, wordp part = true → wordp whole = true → part.display ≠ "" → ∃ rest,
      Operation.member.apply [part, whole] line = .ok (ofLetters rest) ∧
      Operation.substringp.apply [part, whole] line = .ok (.truth !rest.isEmpty) ∧
      Operation.memberp.apply [part, whole] line =
        .ok (.truth (part.display.length == 1 && !rest.isEmpty)) ∧
      (rest ≠ [] → IsLongestSuffix (part.display.toList <+: ·) whole.display.toList rest) ∧
      (rest = [] → ¬ part.display.toList <:+: whole.display.toList)) := by
  constructor
  · intro thing items
    have hempty := isEmpty_dropWhile thing.alike items
    refine ⟨items.dropWhile fun x => !thing.alike x, rfl, ?_, fun hrest => ?_, fun hrest => ?_⟩
    · rw [hempty, Bool.not_not]
      rfl
    · rw [← List.isEmpty_eq_false_iff, hempty, Bool.not_eq_false'] at hrest
      exact isLongestSuffix_dropWhile hrest
    · rw [← List.isEmpty_iff, hempty, Bool.not_eq_true', List.any_eq_false] at hrest
      exact fun x hx => Bool.not_eq_true _ ▸ hrest x hx
  · intro part whole hpart hwhole hne
    obtain ⟨hmember, hsubstringp, hmemberp⟩ := searches_of_wordp hpart hwhole line
    have hempty := isEmpty_suffixAt? (mt String.toList_eq_nil_iff.mp hne) whole.display.toList
    refine ⟨(suffixAt? part.display.toList whole.display.toList).getD [], hmember, ?_, ?_,
      fun hrest => ?_, fun hrest => ?_⟩
    · rw [hempty, Bool.not_not, ← hsubstringp]
      rfl
    · rw [hempty, Bool.not_not, ← hmemberp]
      rfl
    · rw [← List.isEmpty_eq_false_iff, hempty, Bool.not_eq_false',
        Option.isSome_iff_exists] at hrest
      obtain ⟨rest, hfound⟩ := hrest
      rw [hfound]
      exact suffixAt?_eq_some_iff.mp hfound
    · rw [← List.isEmpty_iff, hempty, Bool.not_eq_true', Option.isSome_eq_false_iff,
        Option.isNone_iff_eq_none] at hrest
      exact suffixAt?_eq_none_iff.mp hrest

/-- The number 2 stands twice in a word with a letter of two bytes. The first place counts. -/
theorem searches_agree_number :
    let part := Value.number 2.0
    let whole := Value.word "ö2ö2"
    wordp part = true ∧ wordp whole = true ∧ part.display ≠ "" ∧
      Operation.member.apply [part, whole] 1 = .ok (.word "2ö2") ∧
      Operation.substringp.apply [part, whole] 1 = .ok (.truth true) ∧
      IsLongestSuffix (['2'] <+: ·) ['ö', '2', 'ö', '2'] ['2', 'ö', '2'] := by
  intro part whole
  have hpart : part.display = "2" := by decide +kernel
  have hne : part.display ≠ "" := by rw [hpart]; decide
  obtain ⟨rest, hmember, hsubstringp, -, hlongest, -⟩ :=
    (searches_agree 1).2 part whole rfl rfl hne
  have hletters : "2".toList = ['2'] ∧ "ö2ö2".toList = ['ö', '2', 'ö', '2'] := by decide +kernel
  have hfound := (searches_of_wordp (rfl : wordp part = true) (rfl : wordp whole = true) 1).1
  rw [hpart, show whole.display = "ö2ö2" from rfl, hletters.1, hletters.2] at hfound hlongest
  -- what is left is a word, and words with the same letters are the same
  have hrest : ['2', 'ö', '2'] = rest :=
    String.ofList_injective (Value.word.inj (Except.ok.inj (hfound.symm.trans hmember)))
  subst hrest
  exact ⟨rfl, rfl, hne, hmember, hsubstringp, hlongest (by decide)⟩

end Logo
