import Logo.Proofs.Lexing.MaximalMunch
import Logo.Proofs.Lines

/-!
# Lexemes end at line ends

No lexeme goes on past a line end, except that a line end is a lexeme of its own. So a text that
falls into lexemes falls into the same ones when more lines follow, and the lines that follow have
the tokens that they have alone, only on later lines. `tokenize_append_newline` says this for whole
texts.
-/

namespace Logo

open Computability

variable {l cs : List Char}

/-! ## Lexemes and line ends -/

lemma newline_notMem_letters (hl : l ∈ wordLetter∗) : '\n' ∉ l := by
  obtain ⟨letters, rfl, hletters⟩ := hl
  intro hmem
  obtain ⟨letter, hletter, hin⟩ := List.mem_flatten.mp hmem
  rcases mem_wordLetter.mp (hletters letter hletter) with ⟨c, hc, rfl⟩ | ⟨c, hc, rfl⟩
  · rw [← List.mem_singleton.mp hin] at hc
    exact absurd hc (by decide)
  · rcases List.mem_cons.mp hin with h | h
    · exact absurd h (by decide)
    · exact hc (List.mem_singleton.mp h).symm

lemma newline_notMem_bareHead (hl : l ∈ bareHead) : '\n' ∉ l := by
  intro hmem
  rcases mem_bareHead.mp hl with ⟨c, hc, rfl⟩ | ⟨c, hc, rfl⟩ | ⟨c, hc, rfl⟩
  · rw [← List.mem_singleton.mp hmem] at hc
    exact absurd hc (by decide)
  · rcases List.mem_cons.mp hmem with h | h
    · exact absurd h (by decide)
    · rw [← List.mem_singleton.mp h] at hc
      exact absurd hc (by decide)
  · rcases List.mem_cons.mp hmem with h | h
    · exact absurd h (by decide)
    · exact hc (List.mem_singleton.mp h).symm

lemma newline_notMem_bare (hl : l ∈ Pattern.bare.language) : '\n' ∉ l := by
  obtain ⟨head, hhead, body, hbody, rfl⟩ := Language.mem_mul.mp hl
  intro hmem
  rcases List.mem_append.mp hmem with h | h
  · exact newline_notMem_bareHead hhead h
  · exact newline_notMem_letters hbody h

/-- Of the lexemes, only the line end holds a line end. -/
lemma eq_newline_of_mem {pattern : Pattern} (hp : pattern ∈ patterns) (hl : l ∈ pattern.language)
    (hmem : '\n' ∈ l) : l = ['\n'] := by
  -- neither the mark of a lexeme nor what comes after it is a line end
  have hmarked : ∀ {mark : Char} {body : List Char}, mark ≠ '\n' → '\n' ∉ body →
      '\n' ∈ [mark] ++ body → l = ['\n'] := by
    intro mark body hmark hbody h
    rcases List.mem_cons.mp h with h | h
    · exact absurd h.symm hmark
    · exact absurd h hbody
  rcases Pattern.mem_patterns.mp hp with hp | ⟨token, htoken, rfl⟩
  · simp only [List.mem_cons, List.not_mem_nil, or_false] at hp
    rcases hp with rfl | rfl | rfl | rfl | rfl | rfl | rfl | rfl
    · exact absurd (digits_of_mem_number hl _ hmem) (by decide)
    · exact absurd ((mem_malformedNumber.mp hl).1 _ hmem) (by decide)
    · obtain ⟨_, rfl, body, hbody, rfl⟩ := Language.mem_mul.mp hl
      exact hmarked (by decide) (newline_notMem_letters hbody) hmem
    · obtain ⟨_, rfl, body, hbody, rfl⟩ := Language.mem_mul.mp hl
      exact hmarked (by decide) (newline_notMem_letters (mem_wordLetter_mul_kstar.mp hbody).2) hmem
    · exact absurd hmem (newline_notMem_bare hl)
    · obtain ⟨_, rfl, body, hbody, rfl⟩ := Language.mem_mul.mp hl
      exact hmarked (by decide) (mem_restOfLine.mp hbody) hmem
    · obtain ⟨_, rfl, body, hbody, rfl⟩ := Language.mem_mul.mp hl
      exact hmarked (by decide) (mem_restOfLine.mp hbody) hmem
    · exact absurd ((mem_oneOf_mul_kstar.mp hl).2 _ hmem) (by decide)
  · obtain rfl : l = token.spelling.toList := hl
    have hfixed : ∀ t ∈ Operator.all.map Token.operator ++ punctuation,
        '\n' ∈ t.spelling.toList → t.spelling.toList = ['\n'] := by decide
    exact hfixed token htoken hmem

/-- A start of a text without line ends does not reach past the first line end. -/
lemma starts_of_newline_notMem {rest : List Char} (hl : '\n' ∉ l) (h : l <+: cs ++ '\n' :: rest) :
    l <+: cs := by
  rcases List.prefix_or_prefix_of_prefix h (List.prefix_append cs _) with hle | ⟨tail, rfl⟩
  · exact hle
  · cases tail with
    | nil => simp
    | cons c tail =>
      rw [List.prefix_append_right_inj, List.cons_prefix_cons] at h
      exact absurd (by simp [h.1]) hl

/-- A lexeme at the start of a text is one of the text up to the next line end. -/
lemma starts_of_append_newline {pattern : Pattern} {rest : List Char} (hp : pattern ∈ patterns)
    (hl : l ∈ pattern.language) (hcs : cs ≠ []) (h : l <+: cs ++ '\n' :: rest) : l <+: cs := by
  by_cases hmem : '\n' ∈ l
  · obtain rfl := eq_newline_of_mem hp hl hmem
    obtain ⟨c, cs, rfl⟩ := List.exists_cons_of_ne_nil hcs
    rw [List.cons_append, List.cons_prefix_cons] at h
    rw [h.1]
    exact ⟨cs, rfl⟩
  · exact starts_of_newline_notMem hmem h

/-! ## Cutting past a line end -/

/-- The longest match stays the longest one when more lines follow. -/
lemma IsMunch.append_newline {pattern : Pattern} (h : IsMunch pattern l cs) (rest : List Char) :
    IsMunch pattern l (cs ++ '\n' :: rest) where
  known := h.known
  starts := h.starts.trans (List.prefix_append _ _)
  ne_nil := h.ne_nil
  fits := h.fits
  longest other hother l' hl' hpre := by
    have hcs : cs ≠ [] := by
      rintro rfl
      exact h.ne_nil (List.prefix_nil.mp h.starts)
    exact h.longest other hother l' hl' (starts_of_append_newline hother hl' hcs hpre)

/-- A line end is the longest match where it stands. -/
lemma isMunch_newline (rest : List Char) :
    IsMunch (.fixed ['\n'] .newline) ['\n'] ('\n' :: rest) where
  known := by decide
  starts := ⟨rest, rfl⟩
  ne_nil := by simp
  fits := rfl
  longest other hother l hl hpre := by
    cases l with
    | nil => simp
    | cons c l =>
      obtain ⟨rfl, -⟩ := List.cons_prefix_cons.mp hpre
      rw [eq_newline_of_mem hother hl (by simp)]

/-- What is cut off from a text is cut off from it when more lines follow. -/
lemma Cuts.append_newline {rest : List Char} {lexemes : List Lexeme} (h : Cuts cs lexemes rest)
    (more : List Char) : Cuts (cs ++ '\n' :: more) lexemes (rest ++ '\n' :: more) := by
  induction h with
  | stop cs => exact .stop _
  | step hmunch htoken _ ih =>
    have hmunch' := hmunch.append_newline more
    rw [List.append_assoc] at hmunch' ⊢
    exact .step hmunch' htoken ih

lemma Cuts.trans {rest rest' : List Char} {lexemes lexemes' : List Lexeme}
    (h : Cuts cs lexemes rest) (h' : Cuts rest lexemes' rest') :
    Cuts cs (lexemes ++ lexemes') rest' := by
  induction h with
  | stop cs => exact h'
  | step hmunch htoken _ ih => exact .step hmunch htoken (ih h')

/-! ## Places -/

namespace Position

/-- The place `n` lines further down. -/
def down (n : Nat) (p : Position) : Position := ⟨p.line + n, p.column⟩

/-- Characters move the place down by the number of their line ends. -/
lemma line_after (p : Position) (cs : List Char) :
    (p.after cs).line = p.line + cs.count '\n' := by
  induction cs generalizing p with
  | nil => rfl
  | cons c cs ih =>
    rw [show p.after (c :: cs) = (p.next c).after cs from rfl, ih, List.count_cons]
    by_cases hc : c = '\n'
    · simp [next, hc]
      omega
    · simp [next, hc]

lemma next_down (n : Nat) (p : Position) (c : Char) : (p.down n).next c = (p.next c).down n := by
  simp only [next, down]
  split
  · simp [Nat.add_right_comm]
  · rfl

lemma after_down (n : Nat) (p : Position) (cs : List Char) :
    (p.down n).after cs = (p.after cs).down n := by
  induction cs generalizing p with
  | nil => rfl
  | cons c cs ih =>
    show ((p.down n).next c).after cs = ((p.next c).after cs).down n
    rw [next_down, ih]

lemma place_down (n : Nat) (p : Position) (token : Token) :
    (p.down n).place token = (p.place token).mapLine (· + n) := rfl

end Position

lemma Lexeme.placed_down (n : Nat) (p : Position) (lexemes : List Lexeme) :
    Lexeme.placed (p.down n) lexemes = (Lexeme.placed p lexemes).map (Placed.mapLine (· + n)) := by
  induction lexemes generalizing p with
  | nil => rfl
  | cons lexeme lexemes ih =>
    obtain ⟨text, token⟩ := lexeme
    simp only [Lexeme.placed, Position.after_down, ih, List.map_append]
    cases token <;> rfl

lemma Lexeme.joined_concat (lexemes : List Lexeme) (lexeme : Lexeme) :
    Lexeme.joined (lexemes ++ [lexeme]) = Lexeme.joined lexemes ++ lexeme.text := by
  simp [Lexeme.joined]

lemma map_token_placed (p : Position) (lexemes : List Lexeme) :
    (Lexeme.placed p lexemes).map Placed.token = lexemes.filterMap Lexeme.token := by
  induction lexemes generalizing p with
  | nil => rfl
  | cons lexeme lexemes ih =>
    obtain ⟨text, token⟩ := lexeme
    rw [Lexeme.placed, List.map_append, ih]
    cases token <;> rfl

lemma Lexeme.placed_append (p : Position) (lexemes more : List Lexeme) :
    Lexeme.placed p (lexemes ++ more) =
      Lexeme.placed p lexemes ++ Lexeme.placed (p.after (Lexeme.joined lexemes)) more := by
  induction lexemes generalizing p with
  | nil => rfl
  | cons lexeme lexemes ih =>
    rw [List.cons_append, Lexeme.placed, ih, Lexeme.placed, Lexeme.joined_cons,
      Position.after_append, List.append_assoc]

/-- The tokens or the error of a text that starts `n` lines further down. -/
def Scanned.down (n : Nat) : Except LexError (List Placed) → Except LexError (List Placed)
  | .ok tokens => .ok (tokens.map (Placed.mapLine (· + n)))
  | .error e => .error (e.mapLine (· + n))

/-- Starting further down moves all tokens and errors down. -/
lemma scan_down (n : Nat) (p : Position) (cs : List Char) :
    scan (p.down n) 0 cs = Scanned.down n (scan p 0 cs) := by
  obtain ⟨lexemes, rest, hcuts, hend⟩ := exists_cuts cs
  rw [scan_of_cuts hcuts, scan_of_cuts hcuts, Position.after_down, Lexeme.placed_down]
  rcases hend with rfl | ⟨problem, hstuck⟩
  · simp [scan, Except.map, Scanned.down, Position.place_down]
  · rw [hstuck.scan_eq, hstuck.scan_eq]
    rfl

/-! ## The tokens of a text -/

/-- A token that a lexeme can stand for. Words hold no line ends, and variables and bare words are
not empty. -/
def Token.Lexical : Token → Prop
  | .number text => text.toList ∈ Pattern.number.language
  | .word text => '\n' ∉ text.toList
  | .reference name => name.toList ≠ [] ∧ '\n' ∉ name.toList
  | .bare text => text.toList ≠ [] ∧ '\n' ∉ text.toList
  | .continuation | .blank | .endOfText => False
  | _ => True

lemma Decodes.newline_notMem {ds : List Char} (h : Decodes cs ds) (hcs : '\n' ∉ cs) :
    '\n' ∉ ds := by
  induction h with
  | nil => exact hcs
  | plain _ _ ih =>
    simp only [List.mem_cons, not_or] at hcs ⊢
    exact ⟨hcs.1, ih hcs.2⟩
  | pair _ ih =>
    simp only [List.mem_cons, not_or] at hcs ⊢
    exact ⟨hcs.2.1, ih hcs.2.2⟩

lemma Decodes.ne_nil {ds : List Char} (h : Decodes cs ds) (hcs : cs ≠ []) : ds ≠ [] := by
  cases h with
  | nil => exact absurd rfl hcs
  | plain _ _ => simp
  | pair _ => simp

lemma Denotes.lexical {pattern : Pattern} {token : Token} (hp : pattern ∈ patterns)
    (hl : l ∈ pattern.language) (h : Denotes pattern l (some token)) : token.Lexical := by
  cases h with
  | number => simpa [Token.Lexical] using hl
  | word h =>
    obtain ⟨_, rfl, body, hbody, heq⟩ := Language.mem_mul.mp hl
    obtain rfl := (List.cons.inj heq).2
    simpa [Token.Lexical] using h.newline_notMem (newline_notMem_letters hbody)
  | reference h =>
    obtain ⟨_, rfl, body, hbody, heq⟩ := Language.mem_mul.mp hl
    obtain rfl := (List.cons.inj heq).2
    obtain ⟨hne, hletters⟩ := mem_wordLetter_mul_kstar.mp hbody
    simpa [Token.Lexical] using ⟨h.ne_nil hne, h.newline_notMem (newline_notMem_letters hletters)⟩
  | bare h =>
    have hne : l ≠ [] := by
      rintro rfl
      exact absurd (Pattern.ofLexeme?_bare hl) (by simp [Pattern.ofLexeme?])
    simpa [Token.Lexical] using ⟨h.ne_nil hne, h.newline_notMem (newline_notMem_bare hl)⟩
  | comment => trivial
  | fixed spelling token =>
    -- only operators and punctuation have a pattern of this kind
    rcases Pattern.mem_patterns.mp hp with hp | ⟨t, ht, heq⟩
    · simp at hp
    · obtain ⟨-, rfl⟩ := Pattern.fixed.inj heq
      simp only [List.mem_append, List.mem_map, punctuation, List.mem_cons, List.not_mem_nil,
        or_false] at ht
      rcases ht with ⟨op, -, rfl⟩ | rfl | rfl | rfl | rfl | rfl | rfl | rfl <;> trivial

lemma Cuts.lexical {rest : List Char} {lexemes : List Lexeme} (h : Cuts cs lexemes rest)
    (p : Position) : ∀ t ∈ Lexeme.placed p lexemes, t.token.Lexical := by
  induction h generalizing p with
  | stop cs => simp [Lexeme.placed]
  | @step pattern text cs rest token lexemes hmunch htoken _ ih =>
    intro t ht
    rcases List.mem_append.mp ht with ht | ht
    · cases token with
      | none => simp at ht
      | some token =>
        obtain rfl : t = p.place token := by simpa using ht
        exact htoken.lexical hmunch.known hmunch.fits
    · exact ih _ t ht

/-- The tokens of a text end with the one mark of the end. -/
lemma tokenize_lexical {source : String} {tokens : List Placed} (h : tokenize source = .ok tokens) :
    ∃ body mark, tokens = body ++ [mark] ∧ mark.token = .endOfText ∧
      ∀ t ∈ body, t.token.Lexical := by
  obtain ⟨lexemes, hcuts, rfl⟩ := cuts_of_tokenize h
  exact ⟨_, _, rfl, rfl, hcuts.lexical .start⟩

/-- All tokens of a text but the mark of the end stand for lexemes. -/
lemma lexical_of_tokenize {source : String} {tokens : List Placed} {t : Placed}
    (h : tokenize source = .ok tokens) (ht : t ∈ tokens) (hne : t.token ≠ .endOfText) :
    t.token.Lexical := by
  obtain ⟨body, mark, rfl, hmark, hbody⟩ := tokenize_lexical h
  rcases List.mem_append.mp ht with ht | ht
  · exact hbody t ht
  · rw [List.mem_singleton.mp ht] at hne
    exact absurd hmark hne

/-- The lexemes of a text, a line end, and what comes after it. -/
lemma scan_append_newline {lexemes : List Lexeme} (h : Cuts cs lexemes []) (more : List Char) :
    scan .start 0 (cs ++ '\n' :: more) =
      (Scanned.down (1 + cs.count '\n') (scan .start 0 more)).map fun tokens =>
        Lexeme.placed .start lexemes ++ (Position.start.after cs).place .newline :: tokens := by
  have hcuts : Cuts (cs ++ '\n' :: more) (lexemes ++ [⟨['\n'], some .newline⟩]) more :=
    (h.append_newline more).trans (.step (isMunch_newline more) (.fixed _ _) (.stop more))
  have hjoined : Lexeme.joined lexemes = cs := by
    rw [← h.joined_append, List.append_nil]
  have hplace : (Position.start.after cs).next '\n' = Position.start.down (1 + cs.count '\n') := by
    simp only [Position.next, Position.line_after, Position.down, Position.start, if_true]
    congr 1
    omega
  have hafter : Position.start.after (Lexeme.joined (lexemes ++ [⟨['\n'], some .newline⟩])) =
      Position.start.down (1 + cs.count '\n') := by
    rw [Lexeme.joined_concat, hjoined, Position.after_append, ← hplace]
    rfl
  rw [scan_of_cuts hcuts, hafter, scan_down, Lexeme.placed_append, hjoined]
  cases scan .start 0 more <;> simp [Scanned.down, Except.map, Lexeme.placed]

/-- **A text and the lines after it.** If a text has tokens, the tokens of the text with further
lines are its own, without the mark of the end, a line end, and the tokens of those lines, further
down. An error in those lines is moved down in the same way. -/
theorem tokenize_append_newline {a : String} {tokens : List Placed} (h : tokenize a = .ok tokens)
    (b : String) : ∃ body lineEnd mark, tokens = body ++ [mark] ∧ mark.token = .endOfText ∧
      lineEnd.token = .newline ∧ (∀ t ∈ body, t.token.Lexical) ∧
      tokenize (a ++ "\n" ++ b) =
        (Scanned.down (1 + a.toList.count '\n') (tokenize b)).map (body ++ lineEnd :: ·) := by
  obtain ⟨lexemes, hcuts, rfl⟩ := cuts_of_tokenize h
  refine ⟨_, (Position.start.after a.toList).place .newline, _, rfl, rfl, rfl,
    hcuts.lexical .start, ?_⟩
  rw [tokenize, String.toList_append, String.toList_append, List.append_assoc]
  exact scan_append_newline hcuts b.toList

end Logo
