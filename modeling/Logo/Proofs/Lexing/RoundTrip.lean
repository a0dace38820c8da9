import Logo.Proofs.Lexing.Spelling

/-!
# Words and tokens that read back

`escape` and `Token.spelling` write what the scanner reads. This file says when the scanner reads
back what they write. A text that is one lexeme reads as one token, so the question is which
spellings are lexemes; and of those that are not, where the scanner cuts them or gets stuck.

* `Token.tokenize_spelling`: a token whose spelling is a lexeme reads back.
* `escaped_word_reads_back`: so does an escaped word behind a quote, unless it holds a line end. A
  backslash is written before the line end, but the two are no letter of a word.
* `spelling_reads_back_iff`: of the tokens of a text, all read back but the bare words that are
  spelled without a backslash which they need; the others read back in the midst of a text as well.
-/

namespace Logo

open Computability

variable {l cs rest : List Char}

/-! ## Texts of one lexeme -/

/-- The place after characters of one line. -/
lemma Position.after_of_notMem (p : Position) (h : '\n' ∉ cs) :
    p.after cs = ⟨p.line, p.column + cs.length⟩ := by
  induction cs generalizing p with
  | nil => rfl
  | cons c cs ih =>
    rw [List.mem_cons, not_or] at h
    rw [show p.after (c :: cs) = (p.next c).after cs from rfl, ih _ h.2, Position.next,
      if_neg (Ne.symm h.1), List.length_cons, Nat.add_right_comm, Nat.add_assoc]

/-- A lexeme gives its token, and the scanner goes on behind it. -/
lemma IsMunch.scan_eq {pattern : Pattern} {token : Token} (h : IsMunch pattern l (l ++ rest))
    (htoken : Denotes pattern l (some token)) (p : Position) :
    scan p 0 (l ++ rest) = (scan (p.after l) 0 rest).map (p.place token :: ·) := by
  rw [scan_munch h, htoken.read_eq]
  rfl

/-- **A token that can be read again reads back from its spelling**, if that is the whole text. -/
theorem Token.tokenize_spelling {t : Token} (ht : t.Lexical) (hsep : t.isSeparator = false)
    (hread : t.isRereadable = true) :
    tokenize t.spelling = .ok [⟨t, 1, 1⟩, ⟨.endOfText, 1, 1 + t.spelling.length⟩] := by
  obtain ⟨pattern, hp, hplain, hmem, htoken⟩ := t.exists_spelling ht hsep hread
  have hmunch : IsMunch pattern t.spelling.toList (t.spelling.toList ++ []) :=
    isMunch_of_gap hp hmem hplain (by simp)
  have hscan := hmunch.scan_eq htoken .start
  have hline : t ≠ .newline := by
    rintro rfl
    simp [Token.isSeparator] at hsep
  rw [List.append_nil, Position.after_of_notMem _ (Token.newline_notMem_spelling ht hsep)] at hscan
  rw [tokenize, hscan]
  simp [scan, Except.map, Position.place, Position.start, hline, String.length_toList]

/-! ## Escaped words -/

/-- A quoted word is the longest lexeme where no letter of a word comes after it. -/
lemma isMunch_word (hl : l ∈ Pattern.word.language) (hrest : bodyLength rest = 0) :
    IsMunch .word l (l ++ rest) where
  known := by decide
  starts := List.prefix_append _ _
  ne_nil := ne_nil_of_mem (by decide) hl
  fits := hl
  longest other hother m hm hpre := by
    obtain ⟨_, rfl, body, -, rfl⟩ := Language.mem_mul.mp hl
    cases m with
    | nil => simp
    | cons c m =>
      -- the mark tells that the other lexeme is a quoted word as well
      obtain ⟨rfl, -⟩ := List.cons_prefix_cons.mp hpre
      obtain rfl : Pattern.word = other := by
        rcases Pattern.ofLexeme?_eq hother hm with h | ⟨h, -⟩
        · exact Option.some.inj h
        · exact absurd h (by simp [Pattern.ofLexeme?])
      have hle := (Pattern.isLongest_munch .word _).length_le _ hm hpre
      rwa [munch_append (by simp) hl, hrest, Nat.add_zero] at hle

/-- A backslash before a line end starts no lexeme. -/
lemma stuck_backslash (cs : List Char) :
    Stuck ('\\' :: '\n' :: cs) (.unknownCharacter '\\') := by
  refine .unknown fun pattern hp m hm hpre => ?_
  rcases m with _ | ⟨c, _ | ⟨d, m⟩⟩
  · rfl
  · obtain ⟨rfl, -⟩ := List.cons_prefix_cons.mp hpre
    exact absurd hm (backslash_notMem hp)
  · obtain ⟨rfl, hrest⟩ := List.cons_prefix_cons.mp hpre
    obtain ⟨rfl, -⟩ := List.cons_prefix_cons.mp hrest
    have hline := eq_newline_of_mem hp hm (by simp)
    simp at hline

lemma toList_quoted_escape (w : String) :
    ("\"" ++ escape w).toList = '"' :: escapeChars w.toList := by
  simp [escape]

/-- An escaped word behind a quote is cut off before its first line end, and the backslash that
stands before that is reported. -/
lemma tokenize_escape_of_newline {w : String} {before after : List Char}
    (hw : w.toList = before ++ '\n' :: after) (hbefore : '\n' ∉ before) :
    tokenize ("\"" ++ escape w) =
      .error ⟨.unknownCharacter '\\', 1, 2 + (escapeChars before).length⟩ := by
  have htext : ("\"" ++ escape w).toList =
      ('"' :: escapeChars before) ++ '\\' :: '\n' :: escapeChars after := by
    rw [toList_quoted_escape, hw, escapeChars_append]
    rfl
  have hword : '"' :: escapeChars before ∈ Pattern.word.language :=
    Language.append_mem_mul (a := ['"']) rfl (escapeChars_mem hbefore)
  have hmunch : IsMunch .word ('"' :: escapeChars before)
      (('"' :: escapeChars before) ++ '\\' :: '\n' :: escapeChars after) :=
    isMunch_word hword (by simp [bodyLength, show isWordChar '\\' = false by decide])
  have hline : '\n' ∉ '"' :: escapeChars before := by
    simpa using newline_notMem_letters (escapeChars_mem hbefore)
  have hcuts := Cuts.step hmunch (.word (decodes_escapeChars before)) (.stop _)
  rw [← htext] at hcuts
  rw [tokenize_of_stuck hcuts (stuck_backslash _)]
  simp only [Lexeme.joined_cons, Lexeme.joined_nil, List.append_nil,
    Position.after_of_notMem _ hline, Position.start, List.length_cons]
  congr 2
  omega

/-- **An escaped word behind a quote reads back, unless it holds a line end.** Leaving out the
backslashes always gives the word again.
* Without a line end in it the tokens are the word and the mark of the end.
* With one the scanner stops at the backslash before the first of them: that pair is no letter of a
  word, and no other lexeme starts with it. -/
theorem escaped_word_reads_back (w : String) :
    unescapeChars (escapeChars w.toList) = w.toList ∧
    ('\n' ∉ w.toList → tokenize ("\"" ++ escape w) =
      .ok [⟨.word w, 1, 1⟩, ⟨.endOfText, 1, 2 + (escape w).length⟩]) ∧
    ∀ before after, w.toList = before ++ '\n' :: after → '\n' ∉ before →
      tokenize ("\"" ++ escape w) =
        .error ⟨.unknownCharacter '\\', 1, 2 + (escapeChars before).length⟩ := by
  refine ⟨(decodes_escapeChars w.toList).eq, fun hline => ?_,
    fun before after hw hbefore => tokenize_escape_of_newline hw hbefore⟩
  have hread := Token.tokenize_spelling (t := .word w) hline rfl rfl
  rw [Token.spelling, String.length_append, ← Nat.add_assoc] at hread
  exact hread

/-- A word with all kinds of escapes, and one with two line ends. -/
theorem escaped_word_reads_back_lines :
    tokenize ("\"" ++ escape "a ]\\é") =
      .ok [⟨.word "a ]\\é", 1, 1⟩, ⟨.endOfText, 1, 11⟩] ∧
    tokenize ("\"" ++ escape "a b\nc\n") = .error ⟨.unknownCharacter '\\', 1, 6⟩ :=
  ⟨(escaped_word_reads_back "a ]\\é").2.1 (by decide),
    (escaped_word_reads_back "a b\nc\n").2.2 ['a', ' ', 'b'] ['c', '\n'] (by decide) (by decide)⟩

/-- Not every escaped word reads back. -/
theorem escaped_line_end_not_read_back :
    ¬ ∀ w : String, (tokenize ("\"" ++ escape w)).map (List.map Placed.token) =
      .ok [.word w, .endOfText] := by
  intro h
  exact absurd (h "\n") (by decide +kernel)

/-! ## Tokens of a text -/

/-- The spelling of a bare word that cannot be read again does not start like a bare word. -/
lemma not_prefix_of_not_isRereadable {t : Token} (h : t.isRereadable = false)
    (hl : l ∈ Pattern.bare.language) : ¬ l <+: t.spelling.toList := by
  obtain ⟨c, cs, rfl, hc⟩ := Token.isRereadable_eq_false_iff.mp h
  obtain ⟨head, hhead, body, -, rfl⟩ := Language.mem_mul.mp hl
  have hword : isWordChar c = true := by
    rcases hc with hc | rfl | ⟨rfl, -⟩
    · simp [isWordChar, Char.isAlphanum, hc]
    · decide
    · decide
  have hhash : c ≠ '#' := by
    rintro rfl
    exact absurd hword (by decide)
  rw [toList_spelling_bare (by simpa using hhash), String.toList_ofList, escapeChars_cons,
    if_pos hword]
  intro hbare
  have hpre := (List.prefix_append head body).trans hbare
  rcases mem_bareHead.mp hhead with ⟨d, hd, rfl⟩ | ⟨d, hd, rfl⟩ | ⟨d, -, rfl⟩
  · obtain ⟨rfl, -⟩ := List.cons_prefix_cons.mp hpre
    rcases hc with hc | rfl | ⟨rfl, -⟩
    · simp [not_bareHead_of_isDigit hc] at hd
    · exact absurd hd (by decide)
    · exact absurd hd (by decide)
  · obtain ⟨rfl, hrest⟩ := List.cons_prefix_cons.mp hpre
    rcases hc with hc | hc | ⟨-, hnext⟩
    · exact absurd hc (by decide)
    · exact absurd hc (by decide)
    · -- the character after the point is the next one of the text, or a backslash
      rcases eq_of_prefix_escapeChars hrest with rfl | hsecond
      · exact absurd hd (by decide)
      · exact absurd hd (Bool.eq_false_iff.mp (hnext d hsecond))
  · obtain ⟨rfl, -⟩ := List.cons_prefix_cons.mp hpre
    exact absurd hword (by decide)

/-- A bare word that cannot be read again does not read back. -/
lemma Token.tokenize_spelling_ne {t : Token} (ht : t.Lexical) (h : t.isRereadable = false) :
    (tokenize t.spelling).map (List.map Placed.token) ≠ .ok [t, .endOfText] := by
  intro heq
  obtain ⟨hne, hletters⟩ := letters_of_not_isRereadable ht h
  cases htokens : tokenize t.spelling with
  | error e => simp [htokens, Except.map] at heq
  | ok us =>
    obtain ⟨lexemes, hcuts, rfl⟩ := cuts_of_tokenize htokens
    have hone : lexemes.filterMap Lexeme.token = [t] := by
      rw [htokens] at heq
      have hmap := Except.ok.inj heq
      rw [List.map_append, map_token_placed] at hmap
      exact (List.append_inj' hmap rfl).1
    -- the first lexeme tells the token, and there is one because the spelling is not empty
    have hbare : ∀ l, l ∈ Pattern.bare.language → ¬ l <+: t.spelling.toList :=
      fun l hl => not_prefix_of_not_isRereadable h hl
    generalize t.spelling.toList = text at hne hletters hcuts hbare
    cases hcuts with
    | stop => exact hne rfl
    | @step pattern lexeme cs _ token _ hmunch htoken _ =>
      obtain ⟨c, lexeme, rfl⟩ := List.exists_cons_of_ne_nil hmunch.ne_nil
      obtain ⟨_, _, rfl, -⟩ := Token.isRereadable_eq_false_iff.mp h
      rcases pattern_of_letters (start_of_letters hletters) hmunch.known hmunch.fits with
        rfl | rfl | rfl
      · cases htoken
        simp at hone
      · cases htoken
      · exact hbare _ hmunch.fits hmunch.starts

/-- **All tokens read back from their spellings, but the bare words that cannot be read again.**
Line ends, comments and the mark of the end are left out.
* A token of a text reads back from its spelling, as one token with nothing after it, if and only if
  it is no bare word that starts with a digit, with an apostrophe, or with a point before anything
  but a letter or `_`.
* Where a token reads back, it does so in the midst of a text as well: before a blank, a closing
  bracket or the end of the text its spelling is the longest match, and stands for the token. -/
theorem spelling_reads_back_iff {source : String} {tokens : List Placed} {t : Placed}
    (hsource : tokenize source = .ok tokens) (ht : t ∈ tokens)
    (hkind : t.token ∉ [.newline, .comment, .endOfText]) :
    ((tokenize t.token.spelling).map (List.map Placed.token) = .ok [t.token, .endOfText] ↔
      t.token.isRereadable = true) ∧
    (t.token.isRereadable = false ↔ ∃ c cs, t.token = .bare (String.ofList (c :: cs)) ∧
      (c.isDigit = true ∨ c = '\'' ∨ c = '.' ∧ ∀ d ∈ cs.head?, (d.isAlpha || d == '_') = false)) ∧
    (t.token.isRereadable = true → ∀ rest : List Char, (∀ c ∈ rest.head?, isGap c = true) →
      ∃ pattern,
        longest (t.token.spelling.toList ++ rest) = some (pattern, t.token.spelling.toList.length) ∧
        pattern.read t.token.spelling.toList = .emit t.token ∧
        ∀ p : Position, scan p 0 (t.token.spelling.toList ++ rest) =
          (scan (p.after t.token.spelling.toList) 0 rest).map (p.place t.token :: ·)) := by
  have hlexical : t.token.Lexical := lexical_of_tokenize hsource ht fun h => hkind (by simp [h])
  have hsep : t.token.isSeparator = false := by
    cases htoken : t.token with
    | newline | comment => simp [htoken] at hkind
    | _ => rfl
  refine ⟨⟨fun heq => ?_, fun hread => ?_⟩, Token.isRereadable_eq_false_iff,
    fun hread rest hgap => ?_⟩
  · by_contra hread
    exact Token.tokenize_spelling_ne hlexical (Bool.eq_false_iff.mpr hread) heq
  · rw [Token.tokenize_spelling hlexical hsep hread]
    rfl
  · obtain ⟨pattern, hp, hplain, hmem, htoken⟩ := Token.exists_spelling hlexical hsep hread
    have hmunch := isMunch_of_gap hp hmem hplain hgap
    exact ⟨pattern, hmunch.longest_eq, htoken.read_eq, hmunch.scan_eq htoken⟩

/-- Of two bare words of a text the first is spelled as a number and a word, and the second reads
back, also before the bracket that closes a list. -/
theorem spelling_reads_back_iff_bare :
    tokenize "\\1a #\\]" = .ok [⟨.bare "1a", 1, 1⟩, ⟨.bare "#]", 1, 5⟩, ⟨.endOfText, 1, 8⟩] ∧
    (tokenize (Token.bare "1a").spelling).map (List.map Placed.token) ≠
      .ok [.bare "1a", .endOfText] ∧
    (tokenize (Token.bare "#]").spelling).map (List.map Placed.token) =
      .ok [.bare "#]", .endOfText] ∧
    ∃ pattern, longest ((Token.bare "#]").spelling.toList ++ [']', '"', 'x']) = some (pattern, 3) ∧
      pattern.read (Token.bare "#]").spelling.toList = .emit (.bare "#]") := by
  have htokens : tokenize "\\1a #\\]" =
      .ok [⟨.bare "1a", 1, 1⟩, ⟨.bare "#]", 1, 5⟩, ⟨.endOfText, 1, 8⟩] := by
    decide +kernel
  obtain ⟨hfirst, -⟩ := spelling_reads_back_iff (t := ⟨.bare "1a", 1, 1⟩) htokens (by simp)
    (by decide)
  obtain ⟨hsecond, -, hmidst⟩ := spelling_reads_back_iff (t := ⟨.bare "#]", 1, 5⟩) htokens (by simp)
    (by decide)
  obtain ⟨pattern, hlongest, hread, -⟩ := hmidst (by decide) [']', '"', 'x'] (by simp [isGap])
  exact ⟨htokens, fun h => absurd (hfirst.mp h) (by decide), hsecond.mpr (by decide),
    pattern, hlongest, hread⟩

end Logo
