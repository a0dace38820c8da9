import Logo.Proofs.Lexing.LineEnds
import Mathlib.Data.List.DropRight

/-!
# Where tokens stand

The scanner carries a place along and moves it by one character at a time. This file says what the
place is without walking: the line is told by the line ends of all that stands before it, and the
column by the characters after the last of them. Blanks, comments and continued lines are part of
what stands before, like everything else.

* `Position.start_after`: the place after a text, counted in the text.
* `Cuts.countP_newline`: each line end of a text is one token, and nothing else is such a token.
* `Lexeme.inOrder_placed`: from token to token the lines do not go back.
* `tokens_placed_exactly`: every token and every error stands where its lexeme starts.
-/

namespace Logo

variable {cs rest : List Char} {lexemes : List Lexeme}

/-! ## Counting lines and columns -/

/-- The line of the first character after a text. -/
def lineAfter (before : List Char) : Nat := 1 + before.count '\n'

/-- The column of the first character after a text. -/
def columnAfter (before : List Char) : Nat := 1 + (before.rtakeWhile (· ≠ '\n')).length

/-- A token whose lexeme stands after a text. A line end is given column zero. -/
def placedAfter (before : List Char) (token : Token) : Placed :=
  ⟨token, lineAfter before, if token = .newline then 0 else columnAfter before⟩

lemma lineAfter_concat (cs : List Char) (c : Char) :
    lineAfter (cs ++ [c]) = lineAfter cs + if c = '\n' then 1 else 0 := by
  rw [lineAfter, lineAfter, List.count_append, List.count_singleton, Nat.add_assoc]
  simp

lemma columnAfter_concat (cs : List Char) (c : Char) :
    columnAfter (cs ++ [c]) = if c = '\n' then 1 else columnAfter cs + 1 := by
  unfold columnAfter
  split
  case isTrue hc => rw [List.rtakeWhile_concat_neg _ _ _ (by simp [hc]), List.length_nil]
  case isFalse hc =>
    rw [List.rtakeWhile_concat_pos _ _ _ (by simp [hc]), List.length_append, List.length_singleton,
      Nat.add_assoc]

/-- The place after a text is counted in the text. -/
lemma Position.start_after (cs : List Char) :
    Position.start.after cs = ⟨lineAfter cs, columnAfter cs⟩ := by
  induction cs using List.reverseRecOn with
  | nil => rfl
  | append_singleton cs c ih =>
    rw [Position.after_append, ih, lineAfter_concat, columnAfter_concat]
    show next _ c = _
    unfold next
    split <;> rfl

/-- The tokens of lexemes that stand after a text, each with all that stands before it. -/
def Lexeme.starts (before : List Char) : List Lexeme → List (List Char × Token)
  | [] => []
  | lexeme :: lexemes =>
    (lexeme.token.map (before, ·)).toList ++ Lexeme.starts (before ++ lexeme.text) lexemes

/-- The places that the scanner gives to the tokens are those that are counted. -/
lemma Lexeme.placed_eq (before : List Char) (lexemes : List Lexeme) :
    Lexeme.placed (Position.start.after before) lexemes =
      (Lexeme.starts before lexemes).map fun start => placedAfter start.1 start.2 := by
  induction lexemes generalizing before with
  | nil => rfl
  | cons lexeme lexemes ih =>
    obtain ⟨text, token⟩ := lexeme
    rw [Lexeme.placed, Lexeme.starts, ← Position.after_append, ih, List.map_append]
    cases token with
    | none => rfl
    | some token => rw [Position.start_after]; rfl

/-! ## Line ends -/

/-- A lexeme holds a line end exactly if it stands for one. -/
lemma IsMunch.count_newline {pattern : Pattern} {text cs : List Char} {token : Option Token}
    (hmunch : IsMunch pattern text cs) (htoken : Denotes pattern text token) :
    text.count '\n' = (token.toList.countP (· = .newline)) := by
  by_cases hmem : '\n' ∈ text
  · obtain rfl := eq_newline_of_mem hmunch.known hmunch.fits hmem
    obtain rfl : pattern = .fixed ['\n'] .newline :=
      Pattern.unique_of_mem hmunch.known (isMunch_newline []).known hmunch.fits rfl
    cases htoken
    rfl
  · rw [List.count_eq_zero_of_not_mem hmem]
    cases htoken with
    | fixed text token =>
      have hne : token ≠ .newline := by
        rintro rfl
        rcases Pattern.mem_patterns.mp hmunch.known with hp | ⟨t, -, heq⟩
        · simp at hp
        · obtain ⟨rfl, rfl⟩ := Pattern.fixed.inj heq
          exact hmem (by decide)
      simp [hne]
    | _ => rfl

/-- The tokens of the lexemes that are line ends are as many as the line ends in their text. -/
lemma Cuts.countP_newline (h : Cuts cs lexemes rest) :
    (lexemes.filterMap Lexeme.token).countP (· = .newline) =
      (Lexeme.joined lexemes).count '\n' := by
  induction h with
  | stop cs => rfl
  | @step pattern text cs rest token lexemes hmunch htoken _ ih =>
    rw [Lexeme.joined_cons, List.count_append, hmunch.count_newline htoken, ← ih]
    cases token with
    | none => simp
    | some token => simp [List.countP_cons, Nat.add_comm]

/-- From token to token the lines do not go back. -/
lemma Lexeme.inOrder_placed (p : Position) (lexemes : List Lexeme) :
    (Lexeme.placed p lexemes).Pairwise (fun t t' => t.line ≤ t'.line) ∧
      ∀ t ∈ Lexeme.placed p lexemes,
        p.line ≤ t.line ∧ t.line ≤ (p.after (Lexeme.joined lexemes)).line := by
  induction lexemes generalizing p with
  | nil => exact ⟨.nil, by simp [Lexeme.placed]⟩
  | cons lexeme lexemes ih =>
    obtain ⟨hpairs, hlines⟩ := ih (p.after lexeme.text)
    have hstep := Position.line_after p lexeme.text
    have hend := Position.line_after (p.after lexeme.text) (Lexeme.joined lexemes)
    rw [Lexeme.placed, Lexeme.joined_cons, Position.after_append]
    cases lexeme.token with
    | none =>
      refine ⟨hpairs, fun t ht => ?_⟩
      have hline := hlines t ht
      omega
    | some token =>
      refine ⟨List.pairwise_cons.mpr ⟨fun t ht => ?_, hpairs⟩, fun t ht => ?_⟩
      · show p.line ≤ t.line
        have hline := hlines t ht
        omega
      · rcases List.mem_cons.mp ht with rfl | ht
        · show p.line ≤ p.line ∧ p.line ≤ _
          omega
        · have hline := hlines t ht
          omega

/-! ## The places of a text -/

/-- **Every token stands where it is said to stand.** If a text has tokens, they are those of the
lexemes that it falls into, in their order, and the one mark of the end.
* The place of a token is counted in all that stands before its lexeme; the mark of the end stands
  after the whole text.
* There are as many tokens for line ends as there are line ends in the text.

If a text has no tokens, the error stands where the lexeme at fault starts, counted in the same
way. -/
theorem tokens_placed_exactly (source : String) :
    (∀ tokens, tokenize source = .ok tokens →
      ∃ lexemes, Cuts source.toList lexemes [] ∧
        tokens = (Lexeme.starts [] lexemes).map (fun start => placedAfter start.1 start.2) ++
          [⟨.endOfText, lineAfter source.toList, columnAfter source.toList⟩] ∧
        tokens.countP (fun t => t.token = .endOfText) = 1 ∧
        tokens.countP (fun t => t.token = .newline) = source.toList.count '\n') ∧
    ∀ error, tokenize source = .error error →
      ∃ lexemes rest, Cuts source.toList lexemes rest ∧ Stuck rest error.problem ∧
        source.toList = Lexeme.joined lexemes ++ rest ∧
        error.line = lineAfter (Lexeme.joined lexemes) ∧
        error.column = columnAfter (Lexeme.joined lexemes) := by
  constructor
  · intro tokens h
    obtain ⟨lexemes, hcuts, htokens⟩ := cuts_of_tokenize h
    have hjoined := hcuts.joined_append
    rw [List.append_nil] at hjoined
    refine ⟨lexemes, hcuts, ?_, ?_, ?_⟩
    · rw [htokens, Position.start_after, ← Lexeme.placed_eq]
      rfl
    · have hnone : ∀ t ∈ Lexeme.placed .start lexemes, ¬ t.token = .endOfText := by
        intro t ht hend
        have hlexical := hcuts.lexical .start t ht
        rw [hend] at hlexical
        exact hlexical
      rw [htokens, List.countP_append, List.countP_eq_zero.mpr (by simpa using hnone)]
      rfl
    · rw [htokens, List.countP_append, ← hjoined, ← hcuts.countP_newline, ← map_token_placed .start,
        List.countP_map]
      rfl
  · intro error h
    obtain ⟨lexemes, rest, hcuts, hstuck, hplace⟩ := stuck_of_tokenize h
    rw [Position.start_after] at hplace
    obtain ⟨hline, hcolumn⟩ := Position.mk.inj hplace
    exact ⟨lexemes, rest, hcuts, hstuck, hcuts.joined_append.symm, hline, hcolumn⟩

/-- A comment and a continued line with letters of several bytes, before a word and a malformed
number on their lines. -/
theorem tokens_placed_exactly_marks :
    tokenize "; é\n ~ü\n\\é b" = .ok [⟨.comment, 1, 1⟩, ⟨.newline, 1, 0⟩, ⟨.newline, 2, 0⟩,
      ⟨.bare "é", 3, 1⟩, ⟨.bare "b", 3, 4⟩, ⟨.endOfText, 3, 5⟩] ∧
    (∃ lexemes, Cuts "; é\n ~ü\n\\é b".toList lexemes [] ∧
      [⟨.comment, 1, 1⟩, ⟨.newline, 1, 0⟩, ⟨.newline, 2, 0⟩, ⟨.bare "é", 3, 1⟩, ⟨.bare "b", 3, 4⟩,
        ⟨.endOfText, 3, 5⟩] = (Lexeme.starts [] lexemes).map
          (fun start => placedAfter start.1 start.2) ++ [⟨.endOfText, 3, 5⟩]) ∧
    tokenize "\n\\é 1.2.3" = .error ⟨.malformedNumber "1.2.3", 2, 4⟩ ∧
    ∃ lexemes rest, Stuck rest (.malformedNumber "1.2.3") ∧
      "\n\\é 1.2.3".toList = Lexeme.joined lexemes ++ rest ∧
      2 = lineAfter (Lexeme.joined lexemes) ∧ 4 = columnAfter (Lexeme.joined lexemes) := by
  have htokens : tokenize "; é\n ~ü\n\\é b" = .ok [⟨.comment, 1, 1⟩, ⟨.newline, 1, 0⟩,
      ⟨.newline, 2, 0⟩, ⟨.bare "é", 3, 1⟩, ⟨.bare "b", 3, 4⟩, ⟨.endOfText, 3, 5⟩] := by
    decide +kernel
  have herror : tokenize "\n\\é 1.2.3" = .error ⟨.malformedNumber "1.2.3", 2, 4⟩ := by
    decide +kernel
  obtain ⟨lexemes, hcuts, hplaces, -⟩ := (tokens_placed_exactly _).1 _ htokens
  obtain ⟨lexemes', rest, -, hstuck, hjoined, hline, hcolumn⟩ :=
    (tokens_placed_exactly _).2 _ herror
  exact ⟨htokens, ⟨lexemes, hcuts, hplaces⟩, herror, lexemes', rest, hstuck, hjoined, hline,
    hcolumn⟩

end Logo
