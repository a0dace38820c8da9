import Logo.Token.Pattern
import Mathlib.Computability.Language
import Mathlib.Data.List.TakeWhile

/-!
# The languages of the patterns

Each pattern stands for a language, written here as a regular expression over classes of characters.
`Pattern.munch` computes lengths and never looks at a language; this file shows that it computes the
right ones:

* `Pattern.isLongest_munch`: the length is that of the longest start of the text in the language,
  and zero if there is none;
* `Pattern.unique_of_mem`: a lexeme lies in the language of at most one pattern, so that the longest
  lexeme also fixes its pattern.
-/

namespace Logo

open Computability

/-! ## The languages -/

/-- The texts of one character that satisfies `p`. -/
def oneOf (p : Char → Bool) : Language Char := {l | ∃ c, p c = true ∧ l = [c]}

/-- A decimal digit. -/
def digit : Language Char := oneOf Char.isDigit

/-- The rest of a line. -/
def restOfLine : Language Char := (oneOf (· != '\n'))∗

/-- A backslash and any character but a line end. -/
def backslashPair : Language Char := {['\\']} * oneOf (· != '\n')

/-- One letter of a word: a word character, or a backslash and any character but a line end. -/
def wordLetter : Language Char := oneOf isWordChar + backslashPair

/-- The first letter of a bare word. -/
def bareHead : Language Char :=
  oneOf (fun c => c.isAlpha || c == '_' || c == '?' || c == '#')
    + {['.']} * oneOf (fun c => c.isAlpha || c == '_')
    + backslashPair

/-- The lexemes of a pattern. -/
def Pattern.language : Pattern → Language Char
  | number => digit * digit∗ * (1 + {['.']} * digit∗) + {['.']} * (digit * digit∗)
  | malformedNumber =>
    digit∗ * {['.']} * digit∗ * {['.']} * (oneOf fun c => c.isDigit || c == '.')∗
  | word => {['"']} * wordLetter∗
  | reference => {[':']} * (wordLetter * wordLetter∗)
  | bare => bareHead * wordLetter∗
  | comment => {[';']} * restOfLine
  | continuation => {['~']} * restOfLine
  | blank => oneOf isSpacing * (oneOf isSpacing)∗
  | fixed spelling _ => {spelling}

/-! ## Membership -/

variable {p : Char → Bool} {l cs : List Char}

@[simp] lemma mem_oneOf : l ∈ oneOf p ↔ ∃ c, p c = true ∧ l = [c] := Iff.rfl

@[simp] lemma mem_single {w : List Char} : l ∈ ({w} : Language Char) ↔ l = w := Iff.rfl

/-- A run of characters of one class. -/
@[simp] lemma mem_oneOf_kstar : l ∈ (oneOf p)∗ ↔ ∀ c ∈ l, p c = true := by
  constructor
  · rintro ⟨units, rfl, hunits⟩ c hc
    obtain ⟨unit, hunit, hcu⟩ := List.mem_flatten.mp hc
    obtain ⟨d, hd, rfl⟩ := hunits unit hunit
    rwa [List.mem_singleton.mp hcu]
  · intro h
    refine ⟨l.map fun c => [c], by simp [← List.flatMap_def], ?_⟩
    intro unit hunit
    obtain ⟨c, hc, rfl⟩ := List.mem_map.mp hunit
    exact ⟨c, h c hc, rfl⟩

/-- A run of characters of one class that is not empty. -/
lemma mem_oneOf_mul_kstar : l ∈ oneOf p * (oneOf p)∗ ↔ l ≠ [] ∧ ∀ c ∈ l, p c = true := by
  simp only [Language.mem_mul, mem_oneOf, mem_oneOf_kstar]
  constructor
  · rintro ⟨_, ⟨c, hc, rfl⟩, rest, hrest, rfl⟩
    simpa [hc] using hrest
  · rintro ⟨hne, hall⟩
    obtain ⟨c, rest, rfl⟩ := List.exists_cons_of_ne_nil hne
    exact ⟨[c], ⟨c, hall c (by simp), rfl⟩, rest, fun d hd => hall d (by simp [hd]), rfl⟩

lemma mem_restOfLine : l ∈ restOfLine ↔ '\n' ∉ l := by
  rw [restOfLine, mem_oneOf_kstar]
  constructor
  · intro h hn
    exact absurd (h '\n' hn) (by decide)
  · rintro h c hc
    simp only [bne_iff_ne]
    rintro rfl
    exact h hc

lemma mem_backslashPair : l ∈ backslashPair ↔ ∃ c, c ≠ '\n' ∧ l = ['\\', c] := by
  simp [backslashPair, Language.mem_mul, @eq_comm _ l]

lemma mem_wordLetter :
    l ∈ wordLetter ↔ (∃ c, isWordChar c = true ∧ l = [c]) ∨ ∃ c, c ≠ '\n' ∧ l = ['\\', c] := by
  rw [wordLetter, Language.mem_add, mem_oneOf, mem_backslashPair]

/-- A number is a run of digits, or two runs of digits that are not both empty, with a point between
them. -/
lemma mem_number : l ∈ Pattern.number.language ↔
    (l ≠ [] ∧ ∀ c ∈ l, c.isDigit = true) ∨
      ∃ whole places, l = whole ++ '.' :: places ∧ (whole ≠ [] ∨ places ≠ []) ∧
        (∀ c ∈ whole, c.isDigit = true) ∧ ∀ c ∈ places, c.isDigit = true := by
  simp only [Pattern.language, digit, Language.mem_add, Language.mem_mul (l := oneOf _ * _),
    mem_oneOf_mul_kstar, Language.mem_mul (l := {_}), mem_single, Language.mem_one, mem_oneOf_kstar]
  constructor
  · rintro (⟨whole, ⟨hne, hwhole⟩, _, rfl | ⟨_, rfl, places, hplaces, rfl⟩, rfl⟩ |
      ⟨_, rfl, places, ⟨hne, hplaces⟩, rfl⟩)
    · exact Or.inl (by simpa using ⟨hne, hwhole⟩)
    · exact Or.inr ⟨whole, places, rfl, Or.inl hne, hwhole, hplaces⟩
    · exact Or.inr ⟨[], places, rfl, Or.inr hne, by simp, hplaces⟩
  · rintro (⟨hne, hall⟩ | ⟨whole, places, rfl, hne, hwhole, hplaces⟩)
    · exact Or.inl ⟨l, ⟨hne, hall⟩, [], Or.inl rfl, by simp⟩
    · by_cases hw : whole = []
      · have hp : places ≠ [] := hne.resolve_left (not_not_intro hw)
        exact Or.inr ⟨['.'], rfl, places, ⟨hp, hplaces⟩, by simp [hw]⟩
      · exact Or.inl ⟨whole, ⟨hw, hwhole⟩, '.' :: places,
          Or.inr ⟨['.'], rfl, places, hplaces, rfl⟩, rfl⟩

/-- The characters of a number are digits and points. -/
lemma digits_of_mem_number (hl : l ∈ Pattern.number.language) :
    ∀ c ∈ l, (c.isDigit || c == '.') = true := by
  intro c hc
  rcases mem_number.mp hl with ⟨-, hall⟩ | ⟨whole, places, rfl, -, hwhole, hplaces⟩
  · simp [hall c hc]
  · simp only [List.mem_append, List.mem_cons] at hc
    rcases hc with hc | rfl | hc
    · simp [hwhole c hc]
    · decide
    · simp [hplaces c hc]

/-- Digits and points, split at the first point. -/
lemma split_at_point (hall : ∀ c ∈ l, (c.isDigit || c == '.') = true) (hmem : '.' ∈ l) :
    ∃ whole rest, l = whole ++ '.' :: rest ∧ ∀ c ∈ whole, c.isDigit = true := by
  obtain ⟨whole, rest, rfl, hnot⟩ := List.eq_append_cons_of_mem hmem
  refine ⟨whole, rest, rfl, fun c hc => ?_⟩
  have hcne : c ≠ '.' := by
    rintro rfl
    exact hnot hc
  simpa [hcne] using hall c (by simp [hc])

/-- A malformed number is a run of digits and points with two or more points. -/
lemma mem_malformedNumber : l ∈ Pattern.malformedNumber.language ↔
    (∀ c ∈ l, (c.isDigit || c == '.') = true) ∧ 2 ≤ l.count '.' := by
  simp only [Pattern.language, digit, Language.mem_mul, mem_single, mem_oneOf_kstar]
  constructor
  · rintro ⟨_, ⟨_, ⟨_, ⟨whole, hwhole, _, rfl, rfl⟩, places, hplaces, rfl⟩, _, rfl, rfl⟩,
      rest, hrest, rfl⟩
    constructor
    · intro c hc
      simp only [List.mem_append, List.mem_singleton] at hc
      rcases hc with (((hc | rfl) | hc) | rfl) | hc
      · simp [hwhole c hc]
      · decide
      · simp [hplaces c hc]
      · decide
      · exact hrest c hc
    · simp only [List.count_append, List.count_singleton_self]
      omega
  · -- the digits before the first point and between the first two, and the rest
    rintro ⟨hall, hcount⟩
    obtain ⟨whole, rest, rfl, hwhole⟩ :=
      split_at_point hall (List.count_pos_iff.mp (by omega))
    have hpoint : '.' ∉ whole := fun h => absurd (hwhole _ h) (by decide)
    rw [List.count_append, List.count_cons_self, List.count_eq_zero_of_not_mem hpoint] at hcount
    obtain ⟨places, rest', rfl, hplaces⟩ := split_at_point
      (fun c hc => hall c (by simp [hc])) (List.count_pos_iff.mp (by omega : 0 < rest.count '.'))
    exact ⟨_, ⟨_, ⟨_, ⟨whole, hwhole, _, rfl, rfl⟩, places, hplaces, rfl⟩, _, rfl, rfl⟩, rest',
      fun c hc => hall c (by simp [hc]), by simp⟩

/-! ## Lengths -/

/-- `n` is the length of the longest start of the text that lies in the language, or zero. -/
structure IsLongest (language : Language Char) (cs : List Char) (n : Nat) : Prop where
  /-- There are that many characters. -/
  le_length : n ≤ cs.length
  /-- They form a lexeme. -/
  take_mem : n ≠ 0 → cs.take n ∈ language
  /-- No lexeme at the start of the text is longer. -/
  length_le : ∀ l ∈ language, l <+: cs → l.length ≤ n

lemma take_runLength (p : Char → Bool) (cs : List Char) :
    cs.take (runLength p cs) = cs.takeWhile p :=
  (List.prefix_iff_eq_take.mp (List.takeWhile_prefix p)).symm

/-- The run of a class, where the text starts with characters of the class. -/
lemma runLength_append (hl : ∀ c ∈ l, p c = true) (rest : List Char) :
    runLength p (l ++ rest) = l.length + runLength p rest := by
  rw [runLength, List.takeWhile_append_of_pos hl, List.length_append, runLength]

lemma isLongest_run (p : Char → Bool) (cs : List Char) :
    IsLongest (oneOf p)∗ cs (runLength p cs) where
  le_length := (List.takeWhile_prefix p).length_le
  take_mem _ := by
    rw [take_runLength, mem_oneOf_kstar]
    exact fun c hc => List.mem_takeWhile_imp hc
  length_le := by
    rintro l hl ⟨rest, rfl⟩
    rw [runLength_append (mem_oneOf_kstar.mp hl)]
    omega

/-- A longest length for a language without the empty text is one for the language with it. -/
lemma IsLongest.of_insert {language more : Language Char} {n : Nat} (h : IsLongest more cs n)
    (hsub : ∀ l, l ∈ language ↔ l ≠ [] ∧ l ∈ more) : IsLongest language cs n where
  le_length := h.le_length
  take_mem hn := by
    refine (hsub _).mpr ⟨?_, h.take_mem hn⟩
    rw [ne_eq, List.take_eq_nil_iff]
    rintro (h0 | rfl)
    · exact hn h0
    · exact hn (Nat.le_zero.mp h.le_length)
  length_le l hl := h.length_le l ((hsub l).mp hl).2

/-- No lexeme that starts with a mark stands at the start of a text without that mark. -/
lemma isLongest_mark_zero {mark : Char} (language : Language Char) (h : cs.head? ≠ some mark) :
    IsLongest ({[mark]} * language) cs 0 where
  le_length := Nat.zero_le _
  take_mem h0 := absurd rfl h0
  length_le := by
    rintro _ ⟨_, rfl, body, _, rfl⟩ ⟨rest, rfl⟩
    exact absurd rfl h

/-- A mark and the longest body after it, which may be empty. -/
lemma IsLongest.mark {language : Language Char} {n : Nat} (h : IsLongest language cs n)
    (hnil : [] ∈ language) (mark : Char) :
    IsLongest ({[mark]} * language) (mark :: cs) (n + 1) where
  le_length := Nat.succ_le_succ h.le_length
  take_mem _ := by
    have hbody : cs.take n ∈ language := by
      by_cases hn : n = 0
      · simpa [hn] using hnil
      · exact h.take_mem hn
    exact Language.append_mem_mul (a := [mark]) rfl hbody
  length_le := by
    rintro _ ⟨_, rfl, body, hbody, rfl⟩ hpre
    have hle := h.length_le body hbody (List.prefix_cons_inj mark |>.mp hpre)
    simpa using hle

/-- A mark and the longest body after it, which must not be empty. -/
lemma IsLongest.mark_of_ne {language : Language Char} {n : Nat} (h : IsLongest language cs n)
    (hnil : [] ∉ language) (mark : Char) :
    IsLongest ({[mark]} * language) (mark :: cs) (if n = 0 then 0 else n + 1) where
  le_length := by
    have hle := h.le_length
    split
    · exact Nat.zero_le _
    · exact Nat.succ_le_succ hle
  take_mem hne := by
    have hn : n ≠ 0 := by
      rintro rfl
      exact hne rfl
    rw [if_neg hn]
    exact Language.append_mem_mul (a := [mark]) rfl (h.take_mem hn)
  length_le := by
    rintro _ ⟨_, rfl, body, hbody, rfl⟩ hpre
    have hle := h.length_le body hbody (List.prefix_cons_inj mark |>.mp hpre)
    have hpos : body.length ≠ 0 := by
      intro h0
      exact hnil (List.eq_nil_of_length_eq_zero h0 ▸ hbody)
    rw [if_neg (by omega)]
    simpa using hle

lemma isLongest_lineLength (mark : Char) (cs : List Char) :
    IsLongest ({[mark]} * restOfLine) cs (lineLength mark cs) := by
  cases cs with
  | nil => exact isLongest_mark_zero _ (by simp)
  | cons c cs =>
    by_cases hc : c = mark
    · subst hc
      rw [lineLength, if_pos rfl]
      exact (isLongest_run _ cs).mark (Language.nil_mem_kstar _) c
    · rw [lineLength, if_neg hc]
      exact isLongest_mark_zero restOfLine (by simpa using hc)

/-! ### Words -/

/-- The longest body goes on behind a letter of a word. -/
lemma bodyLength_letter (hl : l ∈ wordLetter) (rest : List Char) :
    bodyLength (l ++ rest) = l.length + bodyLength rest := by
  rcases mem_wordLetter.mp hl with ⟨c, hc, rfl⟩ | ⟨c, hc, rfl⟩
  · rw [List.singleton_append, bodyLength.eq_def]
    simp [hc, Nat.add_comm]
  · have hback : isWordChar '\\' = false := by decide
    simp [bodyLength, hback, hc, Nat.add_comm]

/-- The longest body goes on behind letters of a word. -/
lemma bodyLength_append (hl : l ∈ wordLetter∗) (rest : List Char) :
    bodyLength (l ++ rest) = l.length + bodyLength rest := by
  obtain ⟨letters, rfl, hletters⟩ := hl
  induction letters with
  | nil => simp
  | cons letter letters ih =>
    have hrest := ih fun y hy => hletters y (by simp [hy])
    rw [List.flatten_cons, List.append_assoc, bodyLength_letter (hletters letter (by simp)), hrest]
    simp [Nat.add_assoc]

lemma cons_mem_kstar {language : Language Char} {rest : List Char} (hl : l ∈ language)
    (hrest : rest ∈ language∗) : l ++ rest ∈ language∗ := by
  rw [← Language.one_add_self_mul_kstar_eq_kstar]
  exact Or.inr (Language.append_mem_mul hl hrest)

/-- The characters that `bodyLength` counts are letters of a word, and there are that many. -/
lemma take_bodyLength_mem (cs : List Char) :
    cs.take (bodyLength cs) ∈ wordLetter∗ ∧ bodyLength cs ≤ cs.length := by
  fun_induction bodyLength cs with
  | case1 => exact ⟨Language.nil_mem_kstar _, le_rfl⟩
  | case2 c cs hc ih =>
    have hletter : [c] ∈ wordLetter := Or.inl ⟨c, hc, rfl⟩
    exact ⟨cons_mem_kstar hletter ih.1, Nat.succ_le_succ ih.2⟩
  | case5 d ds hd _ ih =>
    have hletter : ['\\', d] ∈ wordLetter := mem_wordLetter.mpr (Or.inr ⟨d, hd, rfl⟩)
    exact ⟨cons_mem_kstar hletter ih.1, Nat.succ_le_succ (Nat.succ_le_succ ih.2)⟩
  | _ => exact ⟨Language.nil_mem_kstar _, Nat.zero_le _⟩

lemma isLongest_body (cs : List Char) : IsLongest wordLetter∗ cs (bodyLength cs) where
  le_length := (take_bodyLength_mem cs).2
  take_mem _ := (take_bodyLength_mem cs).1
  length_le := by
    rintro l hl ⟨rest, rfl⟩
    rw [bodyLength_append hl]
    omega

/-- A body that is not empty is a letter and a body. -/
lemma mem_wordLetter_mul_kstar : l ∈ wordLetter * wordLetter∗ ↔ l ≠ [] ∧ l ∈ wordLetter∗ := by
  constructor
  · rintro ⟨letter, hletter, rest, hrest, rfl⟩
    refine ⟨?_, cons_mem_kstar hletter hrest⟩
    rcases mem_wordLetter.mp hletter with ⟨c, -, rfl⟩ | ⟨c, -, rfl⟩ <;> simp
  · rintro ⟨hne, hl⟩
    rw [← Language.one_add_self_mul_kstar_eq_kstar] at hl
    exact hl.resolve_left hne

lemma mem_bareHead : l ∈ bareHead ↔
    (∃ c, (c.isAlpha || c == '_' || c == '?' || c == '#') = true ∧ l = [c]) ∨
      (∃ c, (c.isAlpha || c == '_') = true ∧ l = ['.', c]) ∨ ∃ c, c ≠ '\n' ∧ l = ['\\', c] := by
  rw [bareHead, Language.mem_add, Language.mem_add, mem_oneOf, mem_backslashPair, or_assoc]
  simp only [Language.mem_mul, mem_single, exists_eq_left, mem_oneOf]
  grind

/-- The first letter of a bare word is counted by `headLength`. -/
lemma headLength_append (hl : l ∈ bareHead) (rest : List Char) :
    headLength (l ++ rest) = l.length := by
  rcases mem_bareHead.mp hl with ⟨c, hc, rfl⟩ | ⟨c, hc, rfl⟩ | ⟨c, hc, rfl⟩
  · rw [List.singleton_append, headLength.eq_def]
    simp only [hc, if_true, List.length_singleton]
  · have hpoint : (('.' : Char).isAlpha || '.' == '_' || '.' == '?' || '.' == '#') = false := by
      decide
    simp only [List.cons_append, List.nil_append, headLength, hpoint, hc]
    rfl
  · have hback : (('\\' : Char).isAlpha || '\\' == '_' || '\\' == '?' || '\\' == '#') = false := by
      decide
    simp only [List.cons_append, List.nil_append, headLength, hback, hc]
    rfl

/-- What `headLength` counts is the first letter of a bare word. -/
lemma take_headLength_mem (cs : List Char) : headLength cs = 0 ∨
    cs.take (headLength cs) ∈ bareHead ∧ headLength cs ≤ cs.length := by
  rw [mem_bareHead]
  fun_cases headLength cs with
  | case2 c cs hc => exact Or.inr ⟨Or.inl ⟨c, hc, rfl⟩, by simp⟩
  | case3 d ds hd => exact Or.inr ⟨Or.inr (Or.inl ⟨d, hd, rfl⟩), by simp⟩
  | case7 d ds hd => exact Or.inr ⟨Or.inr (Or.inr ⟨d, hd, rfl⟩), by simp⟩
  | _ => exact Or.inl rfl

/-- The longest bare word goes on behind one as far as the body does. -/
lemma bareLength_append {head body : List Char} (hhead : head ∈ bareHead)
    (hbody : body ∈ wordLetter∗) (rest : List Char) :
    bareLength (head ++ body ++ rest) = head.length + body.length + bodyLength rest := by
  have hlen : headLength (head ++ body ++ rest) = head.length := by
    rw [List.append_assoc, headLength_append hhead]
  have hpos : head.length ≠ 0 := by
    rcases mem_bareHead.mp hhead with ⟨c, -, rfl⟩ | ⟨c, -, rfl⟩ | ⟨c, -, rfl⟩ <;> simp
  rw [bareLength, hlen, if_neg hpos, List.append_assoc, List.drop_left, bodyLength_append hbody,
    Nat.add_assoc]

lemma isLongest_bare (cs : List Char) : IsLongest Pattern.bare.language cs (bareLength cs) where
  le_length := by
    rw [bareLength]
    rcases take_headLength_mem cs with h | h
    · simp [h]
    · have hbody := (isLongest_body (cs.drop (headLength cs))).le_length
      rw [List.length_drop] at hbody
      split <;> omega
  take_mem hne := by
    rw [bareLength] at hne ⊢
    have hhead : headLength cs ≠ 0 := by
      intro h0
      simp [h0] at hne
    rw [if_neg hhead, List.take_add]
    obtain ⟨hmem, -⟩ := (take_headLength_mem cs).resolve_left hhead
    exact Language.append_mem_mul hmem (take_bodyLength_mem _).1
  length_le := by
    rintro _ ⟨head, hhead, body, hbody, rfl⟩ ⟨rest, rfl⟩
    rw [bareLength_append hhead hbody, List.length_append]
    omega

/-! ### Numbers -/

lemma runLength_eq_zero (h : ∀ c ∈ cs.head?, p c = false) : runLength p cs = 0 := by
  cases cs with
  | nil => rfl
  | cons c cs => simp [runLength, h c rfl]

/-- The length of a number with a point. -/
lemma numberLength_point (hl : ∀ c ∈ l, c.isDigit = true) (places : List Char) :
    numberLength (l ++ '.' :: places) =
      if l.length = 0 ∧ runLength Char.isDigit places = 0 then 0
      else l.length + 1 + runLength Char.isDigit places := by
  have hrun : runLength Char.isDigit ('.' :: places) = 0 := rfl
  simp only [numberLength, runLength_append hl, hrun, Nat.add_zero, List.drop_left]

/-- The length of a number without a point. -/
lemma numberLength_whole (hl : ∀ c ∈ l, c.isDigit = true) {rest : List Char}
    (hdigit : ∀ c ∈ rest.head?, c.isDigit = false) (hpoint : rest.head? ≠ some '.') :
    numberLength (l ++ rest) = l.length := by
  simp only [numberLength, runLength_append hl, runLength_eq_zero hdigit, Nat.add_zero,
    List.drop_left]
  split
  · exact absurd rfl hpoint
  · rfl

/-- The digits at the start of a text and what follows them. -/
lemma exists_digits (cs : List Char) : ∃ digits rest, cs = digits ++ rest ∧
    (∀ c ∈ digits, c.isDigit = true) ∧ ∀ c ∈ rest.head?, c.isDigit = false := by
  refine ⟨cs.takeWhile Char.isDigit, cs.dropWhile Char.isDigit,
    List.takeWhile_append_dropWhile.symm, fun c hc => List.mem_takeWhile_imp hc, fun c hc => ?_⟩
  have hnot := List.head?_dropWhile_not Char.isDigit cs
  rwa [Option.mem_def.mp hc] at hnot

/-- A number at the start of a text is made of the digits at the start of the text, or of all of
them, a point and digits after it. -/
lemma number_start {digits rest : List Char} (hdigits : ∀ c ∈ digits, c.isDigit = true)
    (hrest : ∀ c ∈ rest.head?, c.isDigit = false) (hl : l ∈ Pattern.number.language)
    (h : l <+: digits ++ rest) : l.length ≤ digits.length ∨
      ∃ places, l = digits ++ '.' :: places ∧ (digits ≠ [] ∨ places ≠ []) ∧
        (∀ c ∈ places, c.isDigit = true) ∧ '.' :: places <+: rest := by
  have hrun : runLength Char.isDigit (digits ++ rest) = digits.length := by
    rw [runLength_append hdigits, runLength_eq_zero hrest, Nat.add_zero]
  rcases mem_number.mp hl with ⟨-, hall⟩ | ⟨whole, places, rfl, hne, hwhole, hplaces⟩
  · refine Or.inl ?_
    rw [← hrun]
    exact (isLongest_run _ _).length_le l (mem_oneOf_kstar.mpr hall) h
  · refine Or.inr ⟨places, ?_⟩
    obtain ⟨tail, htail⟩ := h
    -- both are the run of digits at the start of the text, so they have the same length
    have hlen : whole.length = digits.length := by
      rw [← hrun, ← htail, List.append_assoc, runLength_append hwhole]
      rfl
    rw [List.append_assoc] at htail
    obtain ⟨rfl, rfl⟩ := List.append_inj htail hlen
    exact ⟨rfl, hne, hplaces, List.prefix_append _ _⟩

/-- The longest number in a text whose digits end at a point. -/
lemma isLongest_number_point {digits : List Char} (hdigits : ∀ c ∈ digits, c.isDigit = true)
    (places : List Char) : IsLongest Pattern.number.language (digits ++ '.' :: places)
      (if digits.length = 0 ∧ runLength Char.isDigit places = 0 then 0
        else digits.length + 1 + runLength Char.isDigit places) := by
  have hrun := isLongest_run Char.isDigit places
  have hle := hrun.le_length
  by_cases hnone : digits.length = 0 ∧ runLength Char.isDigit places = 0
  · -- a point without digits on either side is no number
    rw [if_pos hnone]
    refine ⟨Nat.zero_le _, fun h0 => absurd rfl h0, fun l hl hpre => ?_⟩
    rcases number_start hdigits (by simp) hl hpre with hlen | ⟨places', rfl, hne, hall, hpre'⟩
    · omega
    · have hlen := hrun.length_le places' (mem_oneOf_kstar.mpr hall)
        ((List.prefix_cons_inj '.').mp hpre')
      rw [← List.length_pos_iff, ← List.length_pos_iff] at hne
      omega
  · rw [if_neg hnone]
    refine ⟨by simp; omega, fun _ => ?_, fun l hl hpre => ?_⟩
    · have htake : (digits ++ '.' :: places).take
            (digits.length + 1 + runLength Char.isDigit places) =
          digits ++ '.' :: places.takeWhile Char.isDigit := by
        rw [Nat.add_assoc, List.take_length_add_append, Nat.add_comm, List.take_succ_cons,
          take_runLength]
      rw [htake, mem_number]
      refine Or.inr ⟨digits, _, rfl, ?_, hdigits, fun c hc => List.mem_takeWhile_imp hc⟩
      rw [← List.length_pos_iff, ← List.length_pos_iff]
      rw [runLength] at hnone
      omega
    · rcases number_start hdigits (by simp) hl hpre with
        hlen | ⟨places', rfl, hne, hall, hpre'⟩
      · omega
      · have hlen := hrun.length_le places' (mem_oneOf_kstar.mpr hall)
          ((List.prefix_cons_inj '.').mp hpre')
        simp only [List.length_append, List.length_cons]
        omega

lemma isLongest_number (cs : List Char) :
    IsLongest Pattern.number.language cs (numberLength cs) := by
  obtain ⟨digits, rest, rfl, hdigits, hrest⟩ := exists_digits cs
  by_cases hpoint : rest.head? = some '.'
  · obtain ⟨places, rfl⟩ : ∃ places, rest = '.' :: places := by
      cases rest with
      | nil => simp at hpoint
      | cons c places => exact ⟨places, by simpa using hpoint⟩
    rw [numberLength_point hdigits]
    exact isLongest_number_point hdigits places
  · rw [numberLength_whole hdigits hrest hpoint]
    refine ⟨by simp, fun hne => ?_, fun l hl hpre => ?_⟩
    · rw [List.take_left, mem_number]
      exact Or.inl ⟨List.ne_nil_of_length_pos (Nat.pos_of_ne_zero hne), hdigits⟩
    · rcases number_start hdigits hrest hl hpre with hle | ⟨places, rfl, -, -, tail, rfl⟩
      · exact hle
      · exact absurd rfl hpoint

lemma isLongest_malformedNumber (cs : List Char) :
    IsLongest Pattern.malformedNumber.language cs (malformedLength cs) := by
  have htake := take_runLength (fun c => c.isDigit || c == '.') cs
  have hrun := isLongest_run (fun c => c.isDigit || c == '.') cs
  rw [runLength] at htake hrun
  simp only [malformedLength]
  split
  case isTrue hcount =>
    refine ⟨hrun.le_length, fun _ => ?_, fun l hl hpre => hrun.length_le l ?_ hpre⟩
    · rw [htake, mem_malformedNumber]
      exact ⟨fun c hc => List.mem_takeWhile_imp (p := fun c => c.isDigit || c == '.') hc, hcount⟩
    · exact mem_oneOf_kstar.mpr (mem_malformedNumber.mp hl).1
  case isFalse hcount =>
    refine ⟨Nat.zero_le _, fun h0 => absurd rfl h0, ?_⟩
    rintro l hl ⟨rest, rfl⟩
    obtain ⟨hall, htwo⟩ := mem_malformedNumber.mp hl
    rw [List.takeWhile_append_of_pos hall, List.count_append] at hcount
    omega

/-! ### All patterns -/

lemma isLongest_reference (cs : List Char) : IsLongest Pattern.reference.language (':' :: cs)
    (if bodyLength cs = 0 then 0 else bodyLength cs + 1) := by
  have hbody : IsLongest (wordLetter * wordLetter∗) cs (bodyLength cs) :=
    (isLongest_body cs).of_insert fun _ => mem_wordLetter_mul_kstar
  exact hbody.mark_of_ne (fun h => (mem_wordLetter_mul_kstar.mp h).1 rfl) ':'

namespace Pattern

/-- **The length that `munch` computes** is that of the longest start of the text in the language of
the pattern. -/
theorem isLongest_munch (pattern : Pattern) (cs : List Char) :
    IsLongest pattern.language cs (pattern.munch cs) := by
  fun_cases munch pattern cs with
  | case1 => exact isLongest_number cs
  | case2 => exact isLongest_malformedNumber cs
  | case3 cs => exact (isLongest_body cs).mark (Language.nil_mem_kstar _) '"'
  | case4 cs h => exact isLongest_mark_zero _ (by cases cs <;> simp_all)
  | case5 cs h => simpa [h] using isLongest_reference cs
  | case6 cs h => simpa [h] using isLongest_reference cs
  | case7 cs h => exact isLongest_mark_zero _ (by cases cs <;> simp_all)
  | case8 => exact isLongest_bare cs
  | case9 => exact isLongest_lineLength ';' cs
  | case10 => exact isLongest_lineLength '~' cs
  | case11 =>
    refine (isLongest_run isSpacing cs).of_insert fun l => ?_
    rw [mem_oneOf_kstar]
    exact mem_oneOf_mul_kstar
  | case12 spelling token _ h =>
    have hpre : spelling <+: cs := List.isPrefixOf_iff_prefix.mp h
    refine ⟨hpre.length_le, fun _ => (List.prefix_iff_eq_take.mp hpre).symm, ?_⟩
    rintro _ rfl -
    exact le_rfl
  | case13 spelling token _ h =>
    refine ⟨Nat.zero_le _, fun h0 => absurd rfl h0, ?_⟩
    rintro _ rfl hpre
    exact absurd (List.isPrefixOf_iff_prefix.mpr hpre) h

end Pattern

/-! ## One pattern for each lexeme -/

/-- A digit is no letter. -/
lemma not_isAlpha_of_isDigit {c : Char} (h : c.isDigit = true) : c.isAlpha = false := by
  have hupper : c.isUpper = decide (c.val ≥ 'A'.val ∧ c.val ≤ 'Z'.val) := rfl
  have hlower : c.isLower = (decide (c.val ≥ 'a'.val) && decide (c.val ≤ 'z'.val)) := rfl
  have halpha : c.isAlpha = (c.isUpper || c.isLower) := rfl
  simp only [halpha, hupper, hlower, Char.isDigit, Bool.and_eq_true, Bool.or_eq_false_iff,
    Bool.and_eq_false_iff, decide_eq_true_eq, decide_eq_false_iff_not, ge_iff_le,
    UInt32.le_iff_toNat_le] at h ⊢
  simp at h ⊢
  omega

/-- A character of a class differs from one outside of the class. -/
lemma ne_of_class {c d : Char} (hc : p c = true) (hd : p d = false) : c ≠ d := by
  rintro rfl
  simp [hc] at hd

/-- A digit starts no bare word. -/
lemma not_bareHead_of_isDigit {c : Char} (h : c.isDigit = true) :
    (c.isAlpha || c == '_' || c == '?' || c == '#') = false := by
  simp [not_isAlpha_of_isDigit h, ne_of_class (d := '_') h, ne_of_class (d := '?') h,
    ne_of_class (d := '#') h]

/-- No bare word starts with digits and points only. -/
lemma headLength_eq_zero (h : ∀ c ∈ cs, (c.isDigit || c == '.') = true) : headLength cs = 0 := by
  by_contra hne
  obtain ⟨hmem, -⟩ := (take_headLength_mem cs).resolve_left hne
  have hall : ∀ c ∈ cs.take (headLength cs), c.isDigit = true ∨ c = '.' :=
    fun c hc => by simpa using h c (List.mem_of_mem_take hc)
  generalize cs.take (headLength cs) = head at hmem hall
  rcases mem_bareHead.mp hmem with ⟨c, hc, rfl⟩ | ⟨c, hc, rfl⟩ | ⟨c, -, rfl⟩
  · rcases hall c (by simp) with hd | rfl
    · simp [not_bareHead_of_isDigit hd] at hc
    · exact absurd hc (by decide)
  · rcases hall c (by simp) with hd | rfl
    · simp [not_isAlpha_of_isDigit hd, ne_of_class (d := '_') hd] at hc
    · exact absurd hc (by decide)
  · exact absurd (hall '\\' (by simp)) (by decide)

namespace Pattern

/-- The pattern of a lexeme, told from its first characters and the number of its points. The
lexemes with a fixed spelling have none. -/
def ofLexeme? : List Char → Option Pattern
  | [] => none
  | c :: cs =>
    if c = '"' then some word
    else if c = ':' then some reference
    else if c = ';' then some comment
    else if c = '~' then some continuation
    else if isSpacing c then some blank
    else if headLength (c :: cs) ≠ 0 then some bare
    else if c.isDigit || c == '.' then
      if 2 ≤ (c :: cs).count '.' then some malformedNumber else some number
    else none

/-- Of the patterns, those with a fixed spelling are the operators and the punctuation. -/
lemma mem_patterns {pattern : Pattern} : pattern ∈ patterns ↔
    pattern ∈ [number, malformedNumber, word, reference, bare, comment, continuation, blank] ∨
      ∃ token ∈ Operator.all.map Token.operator ++ punctuation,
        fixed token.spelling.toList token = pattern := by
  rw [patterns, List.mem_append, List.mem_map]

/-- A character of a class without the marks and blanks starts no marked or blank lexeme. -/
lemma ofLexeme?_unmarked {c : Char} {cs : List Char} (hc : p c = true)
    (hmarks : ['"', ':', ';', '~', ' ', '\t', '\r', '\x0c'].any p = false) :
    ofLexeme? (c :: cs) =
      if headLength (c :: cs) ≠ 0 then some bare
      else if c.isDigit || c == '.' then
        if 2 ≤ (c :: cs).count '.' then some malformedNumber else some number
      else none := by
  have hne : ∀ d ∈ ['"', ':', ';', '~', ' ', '\t', '\r', '\x0c'], c ≠ d :=
    fun d hd => ne_of_class hc (Bool.eq_false_iff.mpr (List.any_eq_false.mp hmarks d hd))
  simp only [List.forall_mem_cons] at hne
  obtain ⟨h1, h2, h3, h4, h5, h6, h7, h8, -⟩ := hne
  simp [ofLexeme?, isSpacing, h1, h2, h3, h4, h5, h6, h7, h8]

/-- Digits and points belong to a number, malformed or not. -/
lemma ofLexeme?_digits (hne : l ≠ []) (h : ∀ d ∈ l, (d.isDigit || d == '.') = true) :
    ofLexeme? l = if 2 ≤ l.count '.' then some malformedNumber else some number := by
  obtain ⟨c, cs, rfl⟩ := List.exists_cons_of_ne_nil hne
  have hc : (c.isDigit || c == '.') = true := h c (by simp)
  rw [ofLexeme?_unmarked (p := fun c => c.isDigit || c == '.') hc (by decide),
    headLength_eq_zero h, if_neg (by simp), if_pos hc]

lemma ofLexeme?_number (hl : l ∈ number.language) : ofLexeme? l = some number := by
  have hplain : ∀ {ds : List Char}, (∀ c ∈ ds, c.isDigit = true) → ds.count '.' = 0 := by
    intro ds hds
    exact List.count_eq_zero_of_not_mem fun h => absurd (hds _ h) (by decide)
  have hall := digits_of_mem_number hl
  rcases mem_number.mp hl with ⟨hne, hdigits⟩ | ⟨whole, places, rfl, -, hwhole, hplaces⟩
  · rw [ofLexeme?_digits hne hall, hplain hdigits]
    rfl
  · rw [ofLexeme?_digits (by simp) hall, List.count_append, List.count_cons_self, hplain hwhole,
      hplain hplaces]
    rfl

lemma ofLexeme?_malformedNumber (hl : l ∈ malformedNumber.language) :
    ofLexeme? l = some malformedNumber := by
  obtain ⟨hall, hcount⟩ := mem_malformedNumber.mp hl
  have hne : l ≠ [] := by
    rintro rfl
    simp at hcount
  rw [ofLexeme?_digits hne hall, if_pos hcount]

/-- The first letter of a bare word tells that it is one. -/
lemma ofLexeme?_head {head : List Char} (hhead : head ∈ bareHead) (rest : List Char) :
    ofLexeme? (head ++ rest) = some bare := by
  have hlen := headLength_append hhead rest
  rcases mem_bareHead.mp hhead with ⟨c, hc, rfl⟩ | ⟨c, -, rfl⟩ | ⟨c, -, rfl⟩
  · rw [List.singleton_append] at hlen ⊢
    rw [ofLexeme?_unmarked (p := fun c => c.isAlpha || c == '_' || c == '?' || c == '#') hc
      (by decide), hlen]
    rfl
  · rw [List.cons_append] at hlen ⊢
    rw [ofLexeme?_unmarked (p := (· == '.')) rfl (by decide), hlen]
    rfl
  · rw [List.cons_append] at hlen ⊢
    rw [ofLexeme?_unmarked (p := (· == '\\')) rfl (by decide), hlen]
    rfl

lemma ofLexeme?_bare (hl : l ∈ bare.language) : ofLexeme? l = some bare := by
  obtain ⟨head, hhead, body, -, rfl⟩ := Language.mem_mul.mp hl
  exact ofLexeme?_head hhead body

lemma ofLexeme?_blank (hl : l ∈ blank.language) : ofLexeme? l = some blank := by
  obtain ⟨hne, hall⟩ := mem_oneOf_mul_kstar.mp hl
  obtain ⟨c, cs, rfl⟩ := List.exists_cons_of_ne_nil hne
  have hc : isSpacing c = true := hall c (by simp)
  have hmarks : ['"', ':', ';', '~'].any isSpacing = false := by decide
  have hne : ∀ d ∈ ['"', ':', ';', '~'], c ≠ d :=
    fun d hd => ne_of_class hc (Bool.eq_false_iff.mpr (List.any_eq_false.mp hmarks d hd))
  simp only [List.forall_mem_cons] at hne
  simp [ofLexeme?, hc, hne]

/-- A lexeme of a pattern without a fixed spelling tells its pattern, and one with a fixed spelling
tells that it has one. -/
lemma ofLexeme?_eq {pattern : Pattern} (hp : pattern ∈ patterns) (hl : l ∈ pattern.language) :
    ofLexeme? l = some pattern ∨
      ofLexeme? l = none ∧ ∃ token ∈ Operator.all.map Token.operator ++ punctuation,
        l = token.spelling.toList ∧ pattern = fixed l token := by
  rcases mem_patterns.mp hp with hp | ⟨token, htoken, rfl⟩
  · left
    simp only [List.mem_cons, List.not_mem_nil, or_false] at hp
    rcases hp with rfl | rfl | rfl | rfl | rfl | rfl | rfl | rfl
    · exact ofLexeme?_number hl
    · exact ofLexeme?_malformedNumber hl
    · obtain ⟨_, rfl, _, _, rfl⟩ := hl
      rfl
    · obtain ⟨_, rfl, _, _, rfl⟩ := hl
      rfl
    · exact ofLexeme?_bare hl
    · obtain ⟨_, rfl, _, _, rfl⟩ := hl
      rfl
    · obtain ⟨_, rfl, _, _, rfl⟩ := hl
      rfl
    · exact ofLexeme?_blank hl
  · -- the fixed spellings start with none of the characters that tell the other patterns
    right
    obtain rfl : l = token.spelling.toList := hl
    refine ⟨?_, token, htoken, rfl, rfl⟩
    revert token
    decide

/-- **A lexeme lies in the language of one pattern only.** -/
theorem unique_of_mem {p₁ p₂ : Pattern} (h₁ : p₁ ∈ patterns) (h₂ : p₂ ∈ patterns)
    (hl₁ : l ∈ p₁.language) (hl₂ : l ∈ p₂.language) : p₁ = p₂ := by
  have hspelling : ∀ t ∈ Operator.all.map Token.operator ++ punctuation,
      ∀ u ∈ Operator.all.map Token.operator ++ punctuation,
        t.spelling.toList = u.spelling.toList → t = u := by decide
  rcases ofLexeme?_eq h₁ hl₁ with e₁ | ⟨e₁, t₁, ht₁, hs₁, rfl⟩ <;>
    rcases ofLexeme?_eq h₂ hl₂ with e₂ | ⟨e₂, t₂, ht₂, hs₂, rfl⟩
  · exact Option.some_injective _ (e₁.symm.trans e₂)
  · simp [e₁] at e₂
  · simp [e₁] at e₂
  · rw [hspelling t₁ ht₁ t₂ ht₂ (hs₁.symm.trans hs₂)]

end Pattern

end Logo
