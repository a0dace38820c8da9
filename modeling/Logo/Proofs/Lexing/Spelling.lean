import Logo.Proofs.Lexing.LineEnds

/-!
# Tokens that are written again

`Token.spelling` writes a token as it can stand in a text. This file shows that such a spelling is a
lexeme for that token, wherever a blank, a closing bracket or the end of the text comes after it. A
lexeme does not go on with one of these, unless it is a comment, a continuation line or a run of
blanks, which are no spellings of tokens. Bare words that start with a few characters are left out:
they have to be written with a backslash before that character, but their spelling does without it
and reads as something else.

* `isMunch_of_gap`: a lexeme before a blank or a closing bracket.
* `pattern_of_letters`: what starts like letters of a word is a number or a bare word.
* `Token.exists_spelling`: the spelling of a token as a lexeme.
-/

namespace Logo

open Computability

variable {l s rest : List Char}

/-! ## Gaps -/

/-- A blank or a closing bracket, with which no lexeme goes on. -/
def isGap (c : Char) : Bool := isSpacing c || c == ']'

/-- No gap belongs to a class without blanks and closing brackets. -/
lemma not_of_isGap {p : Char → Bool} {c : Char} (hc : isGap c = true)
    (hp : [' ', '\t', '\r', '\x0c', ']'].any p = false) : p c = false := by
  have hmem : c ∈ [' ', '\t', '\r', '\x0c', ']'] := by
    simpa [isGap, isSpacing, or_assoc] using hc
  exact Bool.eq_false_iff.mpr (List.any_eq_false.mp hp c hmem)

lemma bodyLength_gap {c : Char} (hc : isGap c = true) (cs : List Char) :
    bodyLength (c :: cs) = 0 := by
  have hword : isWordChar c = false := not_of_isGap hc (by decide)
  have hback : c ≠ '\\' := ne_of_class hc (by decide)
  rw [bodyLength.eq_def]
  simp [hword, hback]

/-- A lexeme that ends with the body of a word goes on as far as the body does. -/
lemma munch_append {pattern : Pattern} (hp : pattern ∈ [Pattern.word, .reference, .bare])
    (hs : s ∈ pattern.language) (rest : List Char) :
    pattern.munch (s ++ rest) = s.length + bodyLength rest := by
  simp only [List.mem_cons, List.not_mem_nil, or_false] at hp
  rcases hp with rfl | rfl | rfl
  · obtain ⟨_, rfl, body, hbody, rfl⟩ := Language.mem_mul.mp hs
    simp only [List.cons_append, List.nil_append, Pattern.munch, bodyLength_append hbody,
      List.length_cons]
    omega
  · obtain ⟨_, rfl, body, hbody, rfl⟩ := Language.mem_mul.mp hs
    obtain ⟨hne, hletters⟩ := mem_wordLetter_mul_kstar.mp hbody
    have hpos := List.length_pos_of_ne_nil hne
    simp only [List.cons_append, List.nil_append, Pattern.munch, bodyLength_append hletters,
      List.length_cons]
    rw [if_neg (by omega)]
    omega
  · obtain ⟨head, hhead, body, hbody, rfl⟩ := Language.mem_mul.mp hs
    rw [Pattern.munch, bareLength_append hhead hbody, List.length_append]

/-- The body of a word ends at a gap. -/
lemma notMem_body_of_gap {pattern : Pattern} {c : Char} {cs : List Char}
    (hp : pattern ∈ [Pattern.word, .reference, .bare]) (hs : s ∈ pattern.language)
    (hc : isGap c = true) : s ++ c :: cs ∉ pattern.language := by
  intro hl
  have hle := (pattern.isLongest_munch (s ++ c :: cs)).length_le _ hl (List.prefix_refl _)
  rw [munch_append hp hs, bodyLength_gap hc] at hle
  simp only [List.length_append, List.length_cons] at hle
  omega

/-- A bare word that goes on past a gap starts with the first letter of one before it. -/
lemma exists_head_of_bare {c : Char} {cs : List Char} (hc : isGap c = true) (hs : s ≠ [])
    (hback : s ≠ ['\\']) (hl : s ++ c :: cs ∈ Pattern.bare.language) :
    ∃ head body, head ∈ bareHead ∧ s = head ++ body := by
  obtain ⟨head, hhead, body, -, heq⟩ := Language.mem_mul.mp hl
  rcases s with _ | ⟨a, s⟩
  · exact absurd rfl hs
  rcases mem_bareHead.mp hhead with ⟨x, -, rfl⟩ | ⟨x, hx, rfl⟩ | ⟨x, -, rfl⟩
  · obtain ⟨rfl, -⟩ := List.cons.inj heq
    exact ⟨[x], s, hhead, rfl⟩
  · obtain ⟨rfl, htail⟩ := List.cons.inj heq
    rcases s with _ | ⟨b, s⟩
    · -- the gap itself would have to be the letter after the point
      obtain ⟨rfl, -⟩ := List.cons.inj htail
      have hgap := not_of_isGap (p := fun c => c.isAlpha || c == '_') hc (by decide)
      exact absurd hx (Bool.eq_false_iff.mp hgap)
    · obtain ⟨rfl, -⟩ := List.cons.inj htail
      exact ⟨['.', x], s, hhead, rfl⟩
  · obtain ⟨rfl, htail⟩ := List.cons.inj heq
    rcases s with _ | ⟨b, s⟩
    · exact absurd rfl hback
    · obtain ⟨rfl, -⟩ := List.cons.inj htail
      exact ⟨['\\', x], s, hhead, rfl⟩

/-- No lexeme is empty. -/
lemma ne_nil_of_mem {pattern : Pattern} (hp : pattern ∈ patterns) (hs : s ∈ pattern.language) :
    s ≠ [] := by
  rintro rfl
  have hspelling : ∀ t ∈ Operator.all.map Token.operator ++ punctuation,
      t.spelling.toList ≠ [] := by decide
  rcases Pattern.ofLexeme?_eq hp hs with h | ⟨-, token, htoken, h, -⟩
  · simp [Pattern.ofLexeme?] at h
  · exact hspelling token htoken h.symm

/-- A backslash alone is no lexeme. -/
lemma backslash_notMem {pattern : Pattern} (hp : pattern ∈ patterns) :
    ['\\'] ∉ pattern.language := by
  intro hl
  have hspelling : ∀ t ∈ Operator.all.map Token.operator ++ punctuation,
      t.spelling.toList ≠ ['\\'] := by decide
  rcases Pattern.ofLexeme?_eq hp hl with h | ⟨-, token, htoken, h, -⟩
  · simp [show Pattern.ofLexeme? ['\\'] = none by decide] at h
  · exact hspelling token htoken h.symm

lemma restOfLine_of_append (h : s ++ rest ∈ restOfLine) : s ∈ restOfLine :=
  mem_restOfLine.mpr fun hn => mem_restOfLine.mp h (by simp [hn])

/-- A lexeme does not go on with a gap, unless it is a comment, a continuation line or a run of
blanks. -/
lemma notMem_of_gap {pattern other : Pattern} {c : Char} {cs : List Char} (hp : pattern ∈ patterns)
    (hs : s ∈ pattern.language) (hplain : pattern ∉ [Pattern.comment, .continuation, .blank])
    (hc : isGap c = true) (hother : other ∈ patterns) : s ++ c :: cs ∉ other.language := by
  intro hl
  have hmem : c ∈ s ++ c :: cs := by simp
  have hdigits : (c.isDigit || c == '.') = false :=
    not_of_isGap (p := fun c => c.isDigit || c == '.') hc (by decide)
  -- the first characters tell the pattern, so both lexemes are words of the same kind
  have hbody : other ∈ [Pattern.word, .reference, .bare] → Pattern.ofLexeme? s ≠ some other := by
    intro hmarked heq
    obtain rfl : pattern = other := by
      rcases Pattern.ofLexeme?_eq hp hs with h | ⟨h, -⟩
      · exact Option.some.inj (h.symm.trans heq)
      · simp [h] at heq
    exact notMem_body_of_gap hmarked hs hc hl
  -- in the other patterns the shorter lexeme would belong to them as well
  have hfits : s ∈ other.language → other ∉ [Pattern.comment, .continuation, .blank] := by
    intro hso
    rwa [← Pattern.unique_of_mem hp hother hs hso]
  obtain ⟨a, s, rfl⟩ := List.exists_cons_of_ne_nil (ne_nil_of_mem hp hs)
  rcases Pattern.mem_patterns.mp hother with hother | ⟨token, htoken, rfl⟩
  · simp only [List.mem_cons, List.not_mem_nil, or_false] at hother
    rcases hother with rfl | rfl | rfl | rfl | rfl | rfl | rfl | rfl
    · simp [digits_of_mem_number hl c hmem] at hdigits
    · simp [(mem_malformedNumber.mp hl).1 c hmem] at hdigits
    · obtain ⟨_, rfl, body, -, heq⟩ := Language.mem_mul.mp hl
      obtain ⟨rfl, -⟩ := List.cons.inj heq
      exact hbody (by simp) rfl
    · obtain ⟨_, rfl, body, -, heq⟩ := Language.mem_mul.mp hl
      obtain ⟨rfl, -⟩ := List.cons.inj heq
      exact hbody (by simp) rfl
    · have hback : a :: s ≠ ['\\'] := by
        intro hback
        exact backslash_notMem hp (hback ▸ hs)
      obtain ⟨head, body, hhead, heq⟩ := exists_head_of_bare hc (by simp) hback hl
      exact hbody (by simp) (heq ▸ Pattern.ofLexeme?_head hhead body)
    · obtain ⟨_, rfl, body, hline, heq⟩ := Language.mem_mul.mp hl
      obtain ⟨rfl, rfl⟩ := List.cons.inj heq
      exact hfits (Language.append_mem_mul (a := [';']) rfl (restOfLine_of_append hline)) (by simp)
    · obtain ⟨_, rfl, body, hline, heq⟩ := Language.mem_mul.mp hl
      obtain ⟨rfl, rfl⟩ := List.cons.inj heq
      exact hfits (Language.append_mem_mul (a := ['~']) rfl (restOfLine_of_append hline)) (by simp)
    · have hall := (mem_oneOf_mul_kstar.mp hl).2
      refine hfits (mem_oneOf_mul_kstar.mpr ⟨by simp, fun d hd => hall d ?_⟩) (by simp)
      exact List.mem_append_left _ hd
  · have hspelling : ∀ t ∈ Operator.all.map Token.operator ++ punctuation,
        t.spelling.toList.any isGap = true → t.spelling.toList.length = 1 := by decide
    obtain hl : a :: s ++ c :: cs = token.spelling.toList := hl
    have hlen := hspelling token htoken (List.any_eq_true.mpr ⟨c, hl ▸ hmem, hc⟩)
    simp [← hl] at hlen

/-- A lexeme is the longest one where a gap or the end of the text comes after it. -/
lemma isMunch_of_gap {pattern : Pattern} (hp : pattern ∈ patterns) (hs : s ∈ pattern.language)
    (hplain : pattern ∉ [Pattern.comment, .continuation, .blank])
    (hgap : ∀ c ∈ rest.head?, isGap c = true) : IsMunch pattern s (s ++ rest) where
  known := hp
  starts := List.prefix_append _ _
  ne_nil := ne_nil_of_mem hp hs
  fits := hs
  longest other hother l hl hpre := by
    rcases List.prefix_or_prefix_of_prefix hpre (List.prefix_append s rest) with hle | ⟨tail, rfl⟩
    · exact hle.length_le
    · cases tail with
      | nil => simp
      | cons c cs =>
        obtain ⟨more, rfl⟩ := (List.prefix_append_right_inj s).mp hpre
        exact absurd hl (notMem_of_gap hp hs hplain (hgap c (by simp)) hother)

/-- An opening bracket is a lexeme whatever comes after it. -/
lemma isMunch_openBracket (rest : List Char) :
    IsMunch (.fixed ['['] .openBracket) ['['] ('[' :: rest) where
  known := by decide
  starts := ⟨rest, rfl⟩
  ne_nil := by simp
  fits := rfl
  longest other hother l hl hpre := by
    cases l with
    | nil => simp
    | cons c l =>
      obtain ⟨rfl, -⟩ := List.cons_prefix_cons.mp hpre
      have hspelling : ∀ t ∈ Operator.all.map Token.operator ++ punctuation,
          t.spelling.toList.head? = some '[' → t.spelling.toList.length = 1 := by decide
      rcases Pattern.ofLexeme?_eq hother hl with h | ⟨-, token, htoken, h, -⟩
      · rw [Pattern.ofLexeme?_unmarked (p := (· == '[')) rfl (by decide)] at h
        simp [headLength] at h
      · rw [h, hspelling token htoken (by rw [← h]; rfl)]
        rfl

/-- A lexeme that starts with a blank is a run of blanks. -/
lemma eq_blank_of_isSpacing {pattern : Pattern} {c : Char} {cs : List Char}
    (hp : pattern ∈ patterns) (hl : c :: cs ∈ pattern.language) (hc : isSpacing c = true) :
    pattern = .blank := by
  have hblank : Pattern.ofLexeme? [c] = some .blank :=
    Pattern.ofLexeme?_blank (mem_oneOf_mul_kstar.mpr ⟨by simp, by simpa using hc⟩)
  have hlexeme : Pattern.ofLexeme? (c :: cs) = some .blank := by
    simp only [Pattern.ofLexeme?, hc, if_true] at hblank ⊢
    exact hblank
  rcases Pattern.ofLexeme?_eq hp hl with h | ⟨h, -⟩
  · exact Option.some.inj (h.symm.trans hlexeme)
  · simp [h] at hlexeme

/-- One blank is a lexeme before any other character. -/
lemma isMunch_blank (h : ∀ c ∈ rest.head?, isSpacing c = false) :
    IsMunch .blank [' '] (' ' :: rest) where
  known := by decide
  starts := ⟨rest, rfl⟩
  ne_nil := by simp
  fits := mem_oneOf_mul_kstar.mpr ⟨by simp, by simp [isSpacing]⟩
  longest other hother l hl hpre := by
    cases l with
    | nil => simp
    | cons c l =>
      obtain ⟨rfl, hrest⟩ := List.cons_prefix_cons.mp hpre
      obtain rfl := eq_blank_of_isSpacing hother hl (by decide)
      cases l with
      | nil => simp
      | cons d l =>
        obtain ⟨more, rfl⟩ := hrest
        have hd := (mem_oneOf_mul_kstar.mp hl).2 d (by simp)
        simp [h d (by simp)] at hd

/-! ## Letters of a word -/

lemma isWordChar_of_isAlpha {c : Char} (h : (c.isAlpha || c == '_') = true) :
    isWordChar c = true := by
  rcases Bool.or_eq_true_iff.mp h with h | h
  · simp [isWordChar, Char.isAlphanum, h]
  · simp [isWordChar, h]

/-- The first character of letters of a word. -/
lemma head_of_letters {c : Char} {cs : List Char} (h : c :: cs ∈ wordLetter∗) :
    isWordChar c = true ∧ cs ∈ wordLetter∗ ∨
      c = '\\' ∧ ∃ d ds, d ≠ '\n' ∧ cs = d :: ds ∧ ds ∈ wordLetter∗ := by
  obtain ⟨letter, hletter, body, hbody, heq⟩ := Language.mem_mul.mp
    (mem_wordLetter_mul_kstar.mpr ⟨by simp, h⟩)
  rcases mem_wordLetter.mp hletter with ⟨d, hd, rfl⟩ | ⟨d, hd, rfl⟩
  · obtain ⟨rfl, rfl⟩ := List.cons.inj heq
    exact .inl ⟨hd, hbody⟩
  · obtain ⟨rfl, rfl⟩ := List.cons.inj heq
    exact .inr ⟨rfl, d, body, hd, rfl, hbody⟩

/-- Word characters can be left out at the start. -/
lemma letters_of_append (hl : ∀ c ∈ l, isWordChar c = true) (h : l ++ s ∈ wordLetter∗) :
    s ∈ wordLetter∗ := by
  induction l with
  | nil => exact h
  | cons c l ih =>
    refine ih (fun d hd => hl d (by simp [hd])) ?_
    rcases head_of_letters h with ⟨-, hrest⟩ | ⟨rfl, -⟩
    · exact hrest
    · exact absurd (hl '\\' (by simp)) (by decide)

/-- What starts like letters of a word is a number or a bare word, if it is a lexeme. -/
lemma pattern_of_letters {pattern : Pattern} {c : Char} {cs : List Char}
    (hc : isWordChar c = true ∨ c = '\\') (hp : pattern ∈ patterns)
    (hl : c :: cs ∈ pattern.language) :
    pattern = .number ∨ pattern = .malformedNumber ∨ pattern = .bare := by
  have hclass : ∀ d, isWordChar d = false → d ≠ '\\' → c ≠ d := by
    rintro d hword hback rfl
    rcases hc with hc | hc
    · simp [hc] at hword
    · exact hback hc
  rcases Pattern.mem_patterns.mp hp with hp | ⟨token, htoken, rfl⟩
  · simp only [List.mem_cons, List.not_mem_nil, or_false] at hp
    rcases hp with rfl | rfl | rfl | rfl | rfl | rfl | rfl | rfl
    · exact .inl rfl
    · exact .inr (.inl rfl)
    · obtain ⟨_, rfl, body, -, heq⟩ := Language.mem_mul.mp hl
      exact absurd (List.cons.inj heq).1.symm (hclass '"' (by decide) (by decide))
    · obtain ⟨_, rfl, body, -, heq⟩ := Language.mem_mul.mp hl
      exact absurd (List.cons.inj heq).1.symm (hclass ':' (by decide) (by decide))
    · exact .inr (.inr rfl)
    · obtain ⟨_, rfl, body, -, heq⟩ := Language.mem_mul.mp hl
      exact absurd (List.cons.inj heq).1.symm (hclass ';' (by decide) (by decide))
    · obtain ⟨_, rfl, body, -, heq⟩ := Language.mem_mul.mp hl
      exact absurd (List.cons.inj heq).1.symm (hclass '~' (by decide) (by decide))
    · have hspacing : (c == ' ' || c == '\t' || c == '\r' || c == '\x0c') = true :=
        (mem_oneOf_mul_kstar.mp hl).2 c (by simp)
      simp only [Bool.or_eq_true, beq_iff_eq] at hspacing
      rcases hspacing with ((h | h) | h) | h
      all_goals exact absurd h (hclass _ (by decide) (by decide))
  · obtain hl : c :: cs = token.spelling.toList := hl
    have hfixed : ∀ t ∈ Operator.all.map Token.operator ++ punctuation,
        t.spelling.toList.head?.all (fun d => !isWordChar d && d != '\\') = true := by decide
    have hhead := hfixed token htoken
    rw [← hl] at hhead
    simp only [List.head?_cons, Option.all_some, Bool.and_eq_true, Bool.not_eq_true',
      bne_iff_ne] at hhead
    exact absurd rfl (hclass c hhead.1 hhead.2)

/-- The first character of letters of a word is a word character or a backslash. -/
lemma start_of_letters {c : Char} {cs : List Char} (h : c :: cs ∈ wordLetter∗) :
    isWordChar c = true ∨ c = '\\' := by
  rcases head_of_letters h with ⟨hc, -⟩ | ⟨hc, -⟩
  · exact .inl hc
  · exact .inr hc

/-- Letters of a word that start like a bare word are one. -/
lemma bare_of_letters {head body : List Char} (hhead : head ∈ bareHead)
    (h : head ++ body ∈ wordLetter∗) : head ++ body ∈ Pattern.bare.language := by
  refine Language.append_mem_mul hhead ?_
  rcases mem_bareHead.mp hhead with ⟨c, hc, rfl⟩ | ⟨c, hc, rfl⟩ | ⟨c, -, rfl⟩
  · rcases head_of_letters h with ⟨-, hbody⟩ | ⟨rfl, -⟩
    · exact hbody
    · exact absurd hc (by decide)
  · refine letters_of_append ?_ h
    simp [isWordChar_of_isAlpha hc, show isWordChar '.' = true by decide]
  · rcases head_of_letters h with ⟨hback, -⟩ | ⟨-, d, ds, -, heq, hbody⟩
    · exact absurd hback (by decide)
    · obtain ⟨rfl, rfl⟩ := List.cons.inj heq
      exact hbody

/-- Letters of a word are part of no lexeme that goes on past the gap behind them. -/
lemma letters_notMem_of_gap {pattern : Pattern} {c : Char} {cs : List Char} (hs : s ∈ wordLetter∗)
    (hne : s ≠ []) (hc : isGap c = true) (hp : pattern ∈ patterns) :
    s ++ c :: cs ∉ pattern.language := by
  intro hl
  have hmem : c ∈ s ++ c :: cs := by simp
  have hdigits : (c.isDigit || c == '.') = false :=
    not_of_isGap (p := fun c => c.isDigit || c == '.') hc (by decide)
  obtain ⟨a, s, rfl⟩ := List.exists_cons_of_ne_nil hne
  rcases pattern_of_letters (start_of_letters hs) hp hl with rfl | rfl | rfl
  · simp [digits_of_mem_number hl c hmem] at hdigits
  · simp [(mem_malformedNumber.mp hl).1 c hmem] at hdigits
  · have hback : a :: s ≠ ['\\'] := by
      intro hback
      rcases head_of_letters (hback ▸ hs) with ⟨h, -⟩ | ⟨-, _, _, -, h, -⟩
      · exact absurd h (by decide)
      · simp at h
    obtain ⟨head, body, hhead, heq⟩ := exists_head_of_bare hc (by simp) hback hl
    exact notMem_body_of_gap (by simp) (heq ▸ bare_of_letters hhead (heq ▸ hs)) hc hl

/-! ## Escapes -/

lemma escapeChars_cons (c : Char) (cs : List Char) :
    escapeChars (c :: cs) = (if isWordChar c then [c] else ['\\', c]) ++ escapeChars cs := rfl

lemma escapeChars_append (cs ds : List Char) :
    escapeChars (cs ++ ds) = escapeChars cs ++ escapeChars ds := List.flatMap_append

/-- An escaped word is made of letters of a word. -/
lemma escapeChars_mem (h : '\n' ∉ l) : escapeChars l ∈ wordLetter∗ := by
  induction l with
  | nil => exact Language.nil_mem_kstar _
  | cons c l ih =>
    rw [List.mem_cons, not_or] at h
    rw [escapeChars_cons]
    refine cons_mem_kstar (mem_wordLetter.mpr ?_) (ih h.2)
    split
    case isTrue hc => exact Or.inl ⟨c, hc, rfl⟩
    case isFalse hc => exact Or.inr ⟨c, fun hn => h.1 hn.symm, rfl⟩

lemma escapeChars_ne_nil (h : l ≠ []) : escapeChars l ≠ [] := by
  obtain ⟨c, l, rfl⟩ := List.exists_cons_of_ne_nil h
  rw [escapeChars_cons]
  split <;> simp

/-- An escaped text starts with its own first character, or with a backslash. -/
lemma eq_of_prefix_escapeChars {c : Char} (h : [c] <+: escapeChars l) :
    c = '\\' ∨ l.head? = some c := by
  cases l with
  | nil => simp [escapeChars] at h
  | cons d l =>
    rw [escapeChars_cons] at h
    split at h
    case isTrue => exact .inr (congrArg some (List.cons_prefix_cons.mp h).1.symm)
    case isFalse => exact .inl (List.cons_prefix_cons.mp h).1

/-- Escaping is undone by leaving out the backslashes. -/
lemma decodes_escapeChars (l : List Char) : Decodes (escapeChars l) l := by
  induction l with
  | nil => exact .nil
  | cons c l ih =>
    rw [escapeChars_cons]
    split
    case isTrue hc => exact .plain (ne_of_class hc (by decide)) ih
    case isFalse hc => exact .pair ih

/-! ## Spellings -/

/-- The token is none of the bare words that are spelled without a backslash which they need: those
that start with a digit, with an apostrophe, or with a point before anything but a letter or `_`. -/
def Token.isRereadable : Token → Bool
  | .bare text =>
    match text.toList with
    | '.' :: c :: _ => c.isAlpha || c == '_'
    | c :: _ => !c.isDigit && c != '\'' && c != '.'
    | [] => true
  | _ => true

/-- The bare words that cannot be read again start with a digit, with an apostrophe, or with a point
before anything but a letter or `_`. -/
lemma Token.isRereadable_eq_false_iff {t : Token} : t.isRereadable = false ↔
    ∃ c cs, t = .bare (String.ofList (c :: cs)) ∧
      (c.isDigit = true ∨ c = '\'' ∨ c = '.' ∧ ∀ d ∈ cs.head?, (d.isAlpha || d == '_') = false) := by
  constructor
  · intro h
    cases t with
    | bare text =>
      rw [← text.ofList_toList]
      simp only [Token.isRereadable] at h
      split at h
      case h_1 d cs heq => exact ⟨'.', d :: cs, by rw [heq], .inr (.inr ⟨rfl, by simpa using h⟩)⟩
      case h_2 c cs hpoint heq =>
        refine ⟨c, cs, by rw [heq], ?_⟩
        by_cases hc : c = '.'
        · -- a point with a character after it was the first case
          cases cs with
          | nil => exact .inr (.inr ⟨hc, by simp⟩)
          | cons d cs =>
            subst hc
            exact (hpoint d cs rfl rfl).elim
        · simpa [hc, or_iff_not_imp_left] using h
      case h_3 => simp at h
    | _ => cases h
  · rintro ⟨c, cs, rfl, hc⟩
    rw [Token.isRereadable, String.toList_ofList]
    split
    case h_1 d ds heq =>
      obtain ⟨rfl, rfl⟩ := List.cons.inj heq
      simpa using hc
    case h_2 d ds hpoint heq =>
      obtain ⟨rfl, rfl⟩ := List.cons.inj heq
      rcases hc with hc | rfl | ⟨rfl, -⟩
      · simp [hc]
      · rfl
      · rfl
    case h_3 heq => simp at heq

/-- A bare word is escaped throughout, except for a leading `#`. -/
lemma toList_spelling_bare {text : String} (h : text.toList.head? ≠ some '#') :
    (Token.bare text).spelling.toList = escapeChars text.toList := by
  simp only [Token.spelling]
  split
  case h_1 rest heq => simp [heq] at h
  case h_2 => exact String.toList_ofList

lemma toList_spelling_hash {text : String} {rest : List Char} (h : text.toList = '#' :: rest) :
    (Token.bare text).spelling.toList = '#' :: escapeChars rest := by
  simp [Token.spelling, h]

/-- An escaped word reads as a bare word. It may start with any character that is escaped, and of the
others with those that can start a bare word. -/
lemma escapeChars_mem_bare {c : Char} {cs : List Char} (hline : '\n' ∉ c :: cs) (hc : c ≠ '#')
    (hread : (Token.bare (String.ofList (c :: cs))).isRereadable = true) :
    escapeChars (c :: cs) ∈ Pattern.bare.language := by
  rw [List.mem_cons, not_or] at hline
  rw [Token.isRereadable, String.toList_ofList] at hread
  by_cases hword : isWordChar c
  · by_cases hpoint : c = '.'
    · -- a point belongs to the first letter together with the character after it
      subst hpoint
      rcases cs with _ | ⟨d, ds⟩
      · exact absurd hread (by decide)
      · have hd : (d.isAlpha || d == '_') = true := hread
        have hdword : isWordChar d = true := isWordChar_of_isAlpha hd
        rw [List.mem_cons, not_or] at hline
        rw [escapeChars_cons, escapeChars_cons, if_pos hword, if_pos hdword, ← List.append_assoc]
        exact Language.append_mem_mul (mem_bareHead.mpr (Or.inr (Or.inl ⟨d, hd, rfl⟩)))
          (escapeChars_mem hline.2.2)
    · -- of the word characters, the digits and the apostrophe start no bare word
      rw [escapeChars_cons, if_pos hword]
      refine Language.append_mem_mul (mem_bareHead.mpr (Or.inl ⟨c, ?_, rfl⟩))
        (escapeChars_mem hline.2)
      have hstart : (!c.isDigit && c != '\'' && c != '.') = true := by
        split at hread
        case h_1 heq => exact absurd (List.cons.inj heq).1 hpoint
        case h_2 heq => rwa [(List.cons.inj heq).1]
        case h_3 heq => simp at heq
      simp only [isWordChar, Char.isAlphanum] at hword
      simp only [Bool.or_eq_true, Bool.and_eq_true, Bool.not_eq_true', bne_iff_ne, beq_iff_eq]
        at hword hstart ⊢
      grind
  · rw [escapeChars_cons, if_neg hword]
    refine Language.append_mem_mul (mem_bareHead.mpr (Or.inr (Or.inr ⟨c, ?_, rfl⟩)))
      (escapeChars_mem hline.2)
    exact fun hn => hline.1 hn.symm

/-- The spelling of a bare word. -/
lemma spelling_bare_mem {text : String} (hne : text.toList ≠ []) (hline : '\n' ∉ text.toList)
    (hread : (Token.bare text).isRereadable = true) :
    (Token.bare text).spelling.toList ∈ Pattern.bare.language ∧
      Decodes (Token.bare text).spelling.toList text.toList := by
  obtain ⟨c, cs, heq⟩ := List.exists_cons_of_ne_nil hne
  obtain rfl : text = String.ofList (c :: cs) := by rw [← heq, String.ofList_toList]
  rw [heq] at hline
  by_cases hc : c = '#'
  · subst hc
    rw [toList_spelling_hash heq, heq]
    rw [List.mem_cons, not_or] at hline
    exact ⟨Language.append_mem_mul (a := ['#']) (mem_bareHead.mpr (Or.inl ⟨'#', rfl, rfl⟩))
      (escapeChars_mem hline.2), .plain (by decide) (decodes_escapeChars cs)⟩
  · rw [toList_spelling_bare (by simpa [heq] using hc), heq]
    exact ⟨escapeChars_mem_bare hline hc hread, decodes_escapeChars _⟩

/-- **The spelling of a token is a lexeme for it.** Line ends and comments are left out, which no
list holds. -/
theorem Token.exists_spelling {token : Token} (h : token.Lexical) (hsep : token.isSeparator = false)
    (hread : token.isRereadable = true) :
    ∃ pattern ∈ patterns, pattern ∉ [Pattern.comment, .continuation, .blank] ∧
      token.spelling.toList ∈ pattern.language ∧
      Denotes pattern token.spelling.toList (some token) := by
  cases token with
  | number text =>
    refine ⟨.number, by decide, by decide, h, ?_⟩
    simpa [Token.spelling] using Denotes.number text.toList
  | word text =>
    have hspelling : (Token.word text).spelling.toList = '"' :: escapeChars text.toList := by
      simp [Token.spelling, escape]
    refine ⟨.word, by decide, by decide, ?_, ?_⟩
    · rw [hspelling]
      exact Language.append_mem_mul (a := ['"']) rfl (escapeChars_mem h)
    · simpa [hspelling] using Denotes.word (decodes_escapeChars text.toList)
  | reference name =>
    have hspelling : (Token.reference name).spelling.toList = ':' :: escapeChars name.toList := by
      simp [Token.spelling, escape]
    refine ⟨.reference, by decide, by decide, ?_, ?_⟩
    · rw [hspelling]
      exact Language.append_mem_mul (a := [':']) rfl
        (mem_wordLetter_mul_kstar.mpr ⟨escapeChars_ne_nil h.1, escapeChars_mem h.2⟩)
    · simpa [hspelling] using Denotes.reference (decodes_escapeChars name.toList)
  | bare text =>
    obtain ⟨hmem, hdecodes⟩ := spelling_bare_mem h.1 h.2 hread
    refine ⟨.bare, by decide, by decide, hmem, ?_⟩
    simpa using Denotes.bare hdecodes
  | operator op =>
    refine ⟨.fixed op.symbol.toList (.operator op), ?_, by simp, rfl, .fixed _ _⟩
    cases op <;> decide
  | openParen | closeParen | openBracket | closeBracket | openBrace | closeBrace =>
    exact ⟨.fixed _ _, by decide, by decide, rfl, .fixed _ _⟩
  | newline | comment => simp [Token.isSeparator] at hsep
  | continuation | blank | endOfText => exact absurd h id

/-! ## Spellings of all tokens -/

/-- The bare words that cannot be read again are spelled like other words. -/
lemma letters_of_not_isRereadable {t : Token} (ht : t.Lexical) (h : t.isRereadable = false) :
    t.spelling.toList ≠ [] ∧ t.spelling.toList ∈ wordLetter∗ := by
  cases t with
  | bare text =>
    have hhash : text.toList.head? ≠ some '#' := by
      intro hhead
      obtain ⟨cs, hcs⟩ := List.head?_eq_some_iff.mp hhead
      simp [Token.isRereadable, hcs] at h
    rw [toList_spelling_bare hhash]
    exact ⟨escapeChars_ne_nil ht.1, escapeChars_mem ht.2⟩
  | _ => cases h

lemma Token.newline_notMem_spelling {t : Token} (ht : t.Lexical) (hsep : t.isSeparator = false) :
    '\n' ∉ t.spelling.toList := by
  cases hread : t.isRereadable with
  | true =>
    obtain ⟨pattern, hp, -, hmem, htoken⟩ := Token.exists_spelling ht hsep hread
    intro hnewline
    -- only the token of a line end is spelled with one
    have hspelling := eq_newline_of_mem hp hmem hnewline
    rw [hspelling] at hmem htoken
    have hline : ['\n'] ∈ (Pattern.fixed ['\n'] .newline).language := rfl
    obtain rfl := Pattern.unique_of_mem hp (by decide) hmem hline
    cases htoken
    simp [Token.isSeparator] at hsep
  | false => exact newline_notMem_letters (letters_of_not_isRereadable ht hread).2

end Logo
