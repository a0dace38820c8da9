import Logo.Number.Text
import Logo.Proofs.Lexing.Language
import Logo.Token.Scan

/-!
# Maximal munch

`Cuts` says how a text falls into lexemes: each of them is the longest start of what is left that
fits a pattern, and stands for a token or for nothing. The relation speaks of languages and of
nothing else; it knows neither of lengths nor of the order of the patterns. `Stuck` says when the
cutting cannot go on. The scanner follows the relation:

* `scan_of_cuts`: the tokens of the lexemes come first, then those of the rest;
* `exists_cuts`: the cutting goes on up to the end of the text, or until it is stuck;
* `tokenize_iff_cuts`: hence the tokens of a text are those of its lexemes, and an error is reported
  exactly where the cutting is stuck.
-/

namespace Logo

open Computability

/-! ## Cutting -/

/-- `lexeme` fits the pattern and is the longest start of the text that fits any. -/
structure IsMunch (pattern : Pattern) (lexeme cs : List Char) : Prop where
  /-- The pattern is one of those that there are. -/
  known : pattern ∈ patterns
  /-- The text starts with the lexeme. -/
  starts : lexeme <+: cs
  /-- The lexeme is not empty. -/
  ne_nil : lexeme ≠ []
  /-- The lexeme fits the pattern. -/
  fits : lexeme ∈ pattern.language
  /-- What fits any pattern is not longer. -/
  longest : ∀ other ∈ patterns, ∀ l ∈ other.language, l <+: cs → l.length ≤ lexeme.length

/-- The second text is the first without its backslashes. -/
inductive Decodes : List Char → List Char → Prop
  | nil : Decodes [] []
  | plain {c : Char} {cs ds : List Char} (hc : c ≠ '\\') (h : Decodes cs ds) :
    Decodes (c :: cs) (c :: ds)
  | pair {c : Char} {cs ds : List Char} (h : Decodes cs ds) : Decodes ('\\' :: c :: cs) (c :: ds)

/-- The token that a lexeme of a pattern stands for, if it stands for one. A malformed number stands
for nothing at all. -/
inductive Denotes : Pattern → List Char → Option Token → Prop
  | number (l : List Char) : Denotes .number l (some (.number (String.ofList l)))
  | word {body text : List Char} (h : Decodes body text) :
    Denotes .word ('"' :: body) (some (.word (String.ofList text)))
  | reference {body text : List Char} (h : Decodes body text) :
    Denotes .reference (':' :: body) (some (.reference (String.ofList text)))
  | bare {body text : List Char} (h : Decodes body text) :
    Denotes .bare body (some (.bare (String.ofList text)))
  | comment (l : List Char) : Denotes .comment l (some .comment)
  | continuation (l : List Char) : Denotes .continuation l none
  | blank (l : List Char) : Denotes .blank l none
  | fixed (spelling : List Char) (token : Token) :
    Denotes (.fixed spelling token) spelling (some token)

/-- A lexeme and the token that it stands for, if it stands for one. -/
structure Lexeme where
  /-- The characters of the lexeme. -/
  text : List Char
  /-- The token. -/
  token : Option Token

/-- The text falls into the lexemes and a rest. -/
inductive Cuts : List Char → List Lexeme → List Char → Prop
  | stop (cs : List Char) : Cuts cs [] cs
  | step {pattern : Pattern} {text cs rest : List Char} {token : Option Token}
      {lexemes : List Lexeme} (hmunch : IsMunch pattern text (text ++ cs))
      (htoken : Denotes pattern text token) (hrest : Cuts cs lexemes rest) :
    Cuts (text ++ cs) (⟨text, token⟩ :: lexemes) rest

/-- The text cannot be cut any further: nothing fits a pattern, or a malformed number comes next. -/
inductive Stuck : List Char → LexProblem → Prop
  | unknown {c : Char} {cs : List Char}
      (h : ∀ pattern ∈ patterns, ∀ l ∈ pattern.language, l <+: c :: cs → l = []) :
    Stuck (c :: cs) (.unknownCharacter c)
  | malformed {l cs : List Char} (h : IsMunch .malformedNumber l cs) :
    Stuck cs (.malformedNumber (String.ofList l))

/-- The place after a text. -/
def Position.after (p : Position) (cs : List Char) : Position := cs.foldl Position.next p

/-- The characters of the lexemes. -/
def Lexeme.joined (lexemes : List Lexeme) : List Char := (lexemes.map Lexeme.text).flatten

/-- The tokens of the lexemes, each at the place where its lexeme starts. -/
def Lexeme.placed (p : Position) : List Lexeme → List Placed
  | [] => []
  | lexeme :: lexemes =>
    (lexeme.token.map p.place).toList ++ Lexeme.placed (p.after lexeme.text) lexemes

/-! ## The longest match -/

variable {cs : List Char}

/-- How far a candidate reaches. -/
def reachOf : Option (Pattern × Nat) → Nat
  | some (_, n) => n
  | none => 0

lemma farthest_cons (best : Option (Pattern × Nat)) (cs : List Char) (p : Pattern)
    (ps : List Pattern) : farthest best cs (p :: ps) =
      farthest (if reachOf best < p.munch cs then some (p, p.munch cs) else best) cs ps := by
  rcases best with _ | ⟨q, n⟩ <;> rfl

/-- What `farthest` finds: the old candidate or a new one, which reaches at least as far as all. -/
lemma farthest_spec (cs : List Char) (ps : List Pattern) (best : Option (Pattern × Nat)) :
    (farthest best cs ps = best ∨
      ∃ p ∈ ps, p.munch cs ≠ 0 ∧ farthest best cs ps = some (p, p.munch cs)) ∧
      reachOf best ≤ reachOf (farthest best cs ps) ∧
      ∀ p ∈ ps, p.munch cs ≤ reachOf (farthest best cs ps) := by
  induction ps generalizing best with
  | nil => exact ⟨Or.inl rfl, le_rfl, by simp⟩
  | cons p ps ih =>
    rw [farthest_cons]
    split
    -- the new candidate takes the place of the old one, or the old one stays
    case isTrue hfar =>
      obtain ⟨hfound, hreach, hall⟩ := ih (some (p, p.munch cs))
      refine ⟨Or.inr ?_, le_trans hfar.le hreach, ?_⟩
      · rcases hfound with hfound | ⟨q, hq, hne, hfound⟩
        · exact ⟨p, by simp, by omega, hfound⟩
        · exact ⟨q, by simp [hq], hne, hfound⟩
      · rintro q (_ | ⟨_, hq⟩)
        · exact hreach
        · exact hall q hq
    case isFalse hfar =>
      obtain ⟨hfound, hreach, hall⟩ := ih best
      refine ⟨?_, hreach, ?_⟩
      · rcases hfound with hfound | ⟨q, hq, hne, hfound⟩
        · exact Or.inl hfound
        · exact Or.inr ⟨q, by simp [hq], hne, hfound⟩
      · rintro q (_ | ⟨_, hq⟩)
        · exact le_trans (Nat.le_of_not_lt hfar) hreach
        · exact hall q hq

/-- The characters that a pattern reaches over, if there are any, are a longest match of it. -/
lemma munch_lexeme {pattern : Pattern} (hne : pattern.munch cs ≠ 0) :
    ∃ lexeme, lexeme.length = pattern.munch cs ∧ lexeme <+: cs ∧ lexeme ≠ [] ∧
      lexeme ∈ pattern.language := by
  have hspec := pattern.isLongest_munch cs
  have hlen : (cs.take (pattern.munch cs)).length = pattern.munch cs := by
    rw [List.length_take, Nat.min_eq_left hspec.le_length]
  refine ⟨cs.take (pattern.munch cs), hlen, List.take_prefix _ _, ?_, hspec.take_mem hne⟩
  intro hnil
  rw [hnil] at hlen
  exact hne hlen.symm

/-- Nothing but the empty text fits a pattern where none is found. -/
lemma longest_eq_none_iff : longest cs = none ↔
    ∀ pattern ∈ patterns, ∀ l ∈ pattern.language, l <+: cs → l = [] := by
  obtain ⟨hfound, -, hall⟩ := farthest_spec cs patterns none
  constructor
  · intro hnone pattern hp l hl hpre
    have hle := (pattern.isLongest_munch cs).length_le l hl hpre
    have hzero := hall pattern hp
    rw [show farthest none cs patterns = none from hnone] at hzero
    exact List.eq_nil_of_length_eq_zero (Nat.le_zero.mp (hle.trans hzero))
  · intro hempty
    rcases hfound with hnone | ⟨p, hp, hne, -⟩
    · exact hnone
    · obtain ⟨lexeme, -, hpre, hlexeme, hmem⟩ := munch_lexeme hne
      exact absurd (hempty p hp lexeme hmem hpre) hlexeme

/-- The longest match at the start of a text is unique, and so is its pattern. -/
lemma IsMunch.unique {p₁ p₂ : Pattern} {l₁ l₂ : List Char} (h₁ : IsMunch p₁ l₁ cs)
    (h₂ : IsMunch p₂ l₂ cs) : p₁ = p₂ ∧ l₁ = l₂ := by
  have hlen : l₁.length = l₂.length := le_antisymm
    (h₂.longest p₁ h₁.known l₁ h₁.fits h₁.starts) (h₁.longest p₂ h₂.known l₂ h₂.fits h₂.starts)
  have hl : l₁ = l₂ :=
    (List.prefix_of_prefix_length_le h₁.starts h₂.starts hlen.le).eq_of_length hlen
  subst hl
  exact ⟨Pattern.unique_of_mem h₁.known h₂.known h₁.fits h₂.fits, rfl⟩

/-- What is found is the longest match. -/
lemma isMunch_of_longest {pattern : Pattern} {n : Nat} (h : longest cs = some (pattern, n)) :
    ∃ lexeme, lexeme.length = n ∧ IsMunch pattern lexeme cs := by
  obtain ⟨hfound, -, hall⟩ := farthest_spec cs patterns none
  rw [show farthest none cs patterns = some (pattern, n) from h] at hfound hall
  rcases hfound with hnone | ⟨p, hp, hne, hsome⟩
  · simp at hnone
  · obtain ⟨rfl, rfl⟩ : pattern = p ∧ n = p.munch cs := by simpa using hsome
    obtain ⟨lexeme, hlen, hpre, hlexeme, hmem⟩ := munch_lexeme hne
    refine ⟨lexeme, hlen, hp, hpre, hlexeme, hmem, fun other hother l hl hl' => ?_⟩
    rw [hlen]
    exact ((other.isLongest_munch cs).length_le l hl hl').trans (hall other hother)

/-- The longest match is found. -/
lemma IsMunch.longest_eq {pattern : Pattern} {lexeme : List Char}
    (h : IsMunch pattern lexeme cs) : Logo.longest cs = some (pattern, lexeme.length) := by
  cases hlongest : Logo.longest cs with
  | none => exact absurd (longest_eq_none_iff.mp hlongest _ h.known _ h.fits h.starts) h.ne_nil
  | some found =>
    obtain ⟨lexeme', hlen, hmunch⟩ := isMunch_of_longest hlongest
    obtain ⟨hp, rfl⟩ := h.unique hmunch
    rw [hp, hlen]

/-! ## From lexemes to tokens -/

/-- Taking the backslashes away computes what `Decodes` says. -/
lemma Decodes.eq {cs ds : List Char} (h : Decodes cs ds) : unescapeChars cs = ds := by
  induction h with
  | nil => rfl
  | plain hc _ ih =>
    rw [unescapeChars.eq_def]
    simp [hc, ih]
  | pair _ ih => simp [unescapeChars, ih]

/-- The letters of a word can be decoded. -/
lemma exists_decodes {l : List Char} (hl : l ∈ wordLetter∗) : ∃ text, Decodes l text := by
  obtain ⟨letters, rfl, hletters⟩ := hl
  induction letters with
  | nil => exact ⟨[], .nil⟩
  | cons letter letters ih =>
    obtain ⟨text, htext⟩ := ih fun y hy => hletters y (by simp [hy])
    rcases mem_wordLetter.mp (hletters letter (by simp)) with ⟨c, hc, rfl⟩ | ⟨c, -, rfl⟩
    · exact ⟨c :: text, .plain (ne_of_class hc (by decide)) htext⟩
    · exact ⟨c :: text, .pair htext⟩

/-- A bare word can be decoded. -/
lemma exists_decodes_bare {l : List Char} (hl : l ∈ Pattern.bare.language) :
    ∃ text, Decodes l text := by
  obtain ⟨head, hhead, body, hbody, rfl⟩ := Language.mem_mul.mp hl
  obtain ⟨text, htext⟩ := exists_decodes hbody
  rcases mem_bareHead.mp hhead with ⟨c, hc, rfl⟩ | ⟨c, hc, rfl⟩ | ⟨c, -, rfl⟩
  · refine ⟨c :: text, .plain (fun h => ?_) htext⟩
    subst h
    exact absurd hc (by decide)
  · refine ⟨'.' :: c :: text, .plain (by decide) (.plain (fun h => ?_) htext)⟩
    subst h
    exact absurd hc (by decide)
  · exact ⟨c :: text, .pair htext⟩

/-- What a lexeme stands for, as an answer of the scanner. -/
def Reading.ofToken : Option Token → Reading
  | some token => .emit token
  | none => .skip

/-- `read` computes what `Denotes` says. -/
lemma Denotes.read_eq {pattern : Pattern} {l : List Char} {token : Option Token}
    (h : Denotes pattern l token) : pattern.read l = .ofToken token := by
  cases h with
  | word h => simp [Pattern.read, Reading.ofToken, h.eq]
  | reference h => simp [Pattern.read, Reading.ofToken, h.eq]
  | bare h => simp [Pattern.read, Reading.ofToken, h.eq]
  | _ => rfl

/-- Every lexeme stands for a token or for nothing, unless it is a malformed number. -/
lemma exists_denotes {pattern : Pattern} {l : List Char} (hl : l ∈ pattern.language)
    (hne : pattern ≠ .malformedNumber) : ∃ token, Denotes pattern l token := by
  cases pattern with
  | number => exact ⟨_, .number l⟩
  | malformedNumber => exact absurd rfl hne
  | word =>
    obtain ⟨_, rfl, body, hbody, rfl⟩ := Language.mem_mul.mp hl
    obtain ⟨text, htext⟩ := exists_decodes hbody
    exact ⟨_, .word htext⟩
  | reference =>
    obtain ⟨_, rfl, body, hbody, rfl⟩ := Language.mem_mul.mp hl
    obtain ⟨text, htext⟩ := exists_decodes (mem_wordLetter_mul_kstar.mp hbody).2
    exact ⟨_, .reference htext⟩
  | bare =>
    obtain ⟨text, htext⟩ := exists_decodes_bare hl
    exact ⟨_, .bare htext⟩
  | comment => exact ⟨_, .comment l⟩
  | continuation => exact ⟨_, .continuation l⟩
  | blank => exact ⟨_, .blank l⟩
  | fixed spelling token =>
    obtain rfl : l = spelling := hl
    exact ⟨_, .fixed l token⟩

/-! ## The walk of the scanner -/

/-- The scanner counts off the characters of a lexeme. -/
lemma scan_pending (l cs : List Char) (p : Position) :
    scan p l.length (l ++ cs) = scan (p.after l) 0 cs := by
  induction l generalizing p with
  | nil => rfl
  | cons c l ih => exact ih (p.next c)

/-- One lexeme, and then the rest. -/
lemma scan_munch {pattern : Pattern} {text cs : List Char}
    (h : IsMunch pattern text (text ++ cs)) (p : Position) :
    scan p 0 (text ++ cs) =
      match pattern.read text with
      | .emit token => (scan (p.after text) 0 cs).map (p.place token :: ·)
      | .skip => scan (p.after text) 0 cs
      | .refuse problem => .error ⟨problem, p.line, p.column⟩ := by
  obtain ⟨c, l, rfl⟩ := List.exists_cons_of_ne_nil h.ne_nil
  have hlongest := h.longest_eq
  have hrest : scan (p.next c) l.length (l ++ cs) = scan (p.after (c :: l)) 0 cs :=
    scan_pending l cs (p.next c)
  rw [List.cons_append] at hlongest ⊢
  rw [scan, hlongest]
  simp only [List.length_cons, Nat.add_sub_cancel, hrest, List.take_succ_cons, List.take_left]
  cases pattern.read (c :: l) with
  | emit token => cases scan (p.after (c :: l)) 0 cs <;> rfl
  | skip => rfl
  | refuse problem => rfl

@[simp] lemma Position.after_append (p : Position) (cs ds : List Char) :
    p.after (cs ++ ds) = (p.after cs).after ds := List.foldl_append

@[simp] lemma Lexeme.joined_nil : Lexeme.joined [] = [] := rfl

@[simp] lemma Lexeme.joined_cons (lexeme : Lexeme) (lexemes : List Lexeme) :
    Lexeme.joined (lexeme :: lexemes) = lexeme.text ++ Lexeme.joined lexemes := rfl

/-- The lexemes and the rest make up the text. -/
lemma Cuts.joined_append {cs rest : List Char} {lexemes : List Lexeme}
    (h : Cuts cs lexemes rest) : Lexeme.joined lexemes ++ rest = cs := by
  induction h with
  | stop cs => rfl
  | step _ _ _ ih => rw [Lexeme.joined_cons, List.append_assoc, ih]

/-- **The tokens of the lexemes come first**, then those of the rest. -/
theorem scan_of_cuts {cs rest : List Char} {lexemes : List Lexeme} (h : Cuts cs lexemes rest)
    (p : Position) : scan p 0 cs =
      (scan (p.after (Lexeme.joined lexemes)) 0 rest).map (Lexeme.placed p lexemes ++ ·) := by
  induction h generalizing p with
  | stop cs =>
    show scan p 0 cs = (scan p 0 cs).map id
    cases scan p 0 cs <;> rfl
  | @step pattern text cs rest token lexemes hmunch htoken _ ih =>
    rw [scan_munch hmunch, htoken.read_eq, ih, Lexeme.joined_cons, Position.after_append]
    cases token <;> cases scan _ 0 rest <;> rfl

/-- Where the cutting is stuck, the scanner reports the problem at that place. -/
lemma Stuck.scan_eq {cs : List Char} {problem : LexProblem} (h : Stuck cs problem) (p : Position) :
    scan p 0 cs = .error ⟨problem, p.line, p.column⟩ := by
  cases h with
  | @unknown c cs h => rw [scan, longest_eq_none_iff.mpr h]
  | @malformed l cs h =>
    obtain ⟨rest, rfl⟩ := h.starts
    rw [scan_munch h]
    rfl

/-- The cutting goes on up to the end of the text, or until it is stuck. -/
theorem exists_cuts (cs : List Char) : ∃ lexemes rest, Cuts cs lexemes rest ∧
    (rest = [] ∨ ∃ problem, Stuck rest problem) := by
  -- what is left after a lexeme is shorter, but not by one character, so the length is induced on
  induction hn : cs.length using Nat.strong_induction_on generalizing cs with
  | h n ih =>
    subst hn
    cases hlongest : longest cs with
    | none =>
      cases cs with
      | nil => exact ⟨[], [], .stop [], Or.inl rfl⟩
      | cons c cs =>
        exact ⟨[], c :: cs, .stop _, Or.inr ⟨_, .unknown (longest_eq_none_iff.mp hlongest)⟩⟩
    | some found =>
      obtain ⟨pattern, n⟩ := found
      obtain ⟨text, -, hmunch⟩ := isMunch_of_longest hlongest
      by_cases hbad : pattern = .malformedNumber
      · subst hbad
        exact ⟨[], cs, .stop cs, Or.inr ⟨_, .malformed hmunch⟩⟩
      · obtain ⟨tail, rfl⟩ := hmunch.starts
        have hshorter : tail.length < (text ++ tail).length := by
          rw [List.length_append]
          exact Nat.lt_add_of_pos_left (List.length_pos_iff.mpr hmunch.ne_nil)
        obtain ⟨token, htoken⟩ := exists_denotes hmunch.fits hbad
        obtain ⟨lexemes, rest, hcuts, hend⟩ := ih tail.length hshorter tail rfl
        exact ⟨_, rest, .step hmunch htoken hcuts, hend⟩

/-! ## Numbers can be read -/

/-- A text of digits, with a point and digits behind them or without, is read as a number. -/
lemma isSome_readDigits? {whole rest : List Char} (hwhole : ∀ c ∈ whole, c.isDigit = true)
    (hrest : rest = [] ∧ whole ≠ [] ∨ ∃ places, rest = '.' :: places ∧ (whole ≠ [] ∨ places ≠ []) ∧
      ∀ c ∈ places, c.isDigit = true) : (Number.readDigits? (whole ++ rest)).isSome = true := by
  have hhead : rest.takeWhile Char.isDigit = [] ∧ rest.dropWhile Char.isDigit = rest := by
    rcases hrest with ⟨rfl, -⟩ | ⟨places, rfl, -⟩
    · exact ⟨rfl, rfl⟩
    · exact ⟨rfl, rfl⟩
  simp only [Number.readDigits?, List.takeWhile_append_of_pos hwhole,
    List.dropWhile_append_of_pos hwhole, hhead, List.append_nil]
  rcases hrest with ⟨rfl, hne⟩ | ⟨places, rfl, hne, hplaces⟩
  · simp [hne, Number.readExponent?]
  · have htake : places.takeWhile Char.isDigit = places := List.takeWhile_eq_self_iff.mpr hplaces
    have hdrop : places.dropWhile Char.isDigit = [] := List.dropWhile_eq_nil_iff.mpr hplaces
    have hsome : whole = [] → places ≠ [] := fun hw => hne.resolve_left (not_not_intro hw)
    simpa [htake, hdrop, Number.readExponent?] using hsome

lemma isSome_readDigits?_number {l : List Char} (hl : l ∈ Pattern.number.language) :
    (Number.readDigits? l).isSome = true := by
  rcases mem_number.mp hl with ⟨hne, hall⟩ | ⟨whole, places, rfl, hne, hwhole, hplaces⟩
  · simpa using isSome_readDigits? hall (Or.inl ⟨rfl, hne⟩)
  · exact isSome_readDigits? hwhole (Or.inr ⟨places, rfl, hne, hplaces⟩)

/-- Numbers have no sign, so that the digits are all there is to read. -/
lemma read?_of_readDigits? {l : List Char} {x : Float} (hl : l ∈ Pattern.number.language)
    (hx : Number.readDigits? l = some x) : Number.read? (String.ofList l) = some x := by
  have hsign : Number.splitSign l = (false, l) := by
    have hchars := digits_of_mem_number hl
    unfold Number.splitSign
    split
    · exact absurd (hchars '-' (by simp)) (by decide)
    · exact absurd (hchars '+' (by simp)) (by decide)
    · rfl
  simp [Number.read?, hsign, hx]

/-- Every lexeme of the pattern of numbers is read as a number. -/
lemma isSome_read?_number {l : List Char} (hl : l ∈ Pattern.number.language) :
    (Number.read? (String.ofList l)).isSome = true := by
  obtain ⟨x, hx⟩ := Option.isSome_iff_exists.mp (isSome_readDigits?_number hl)
  rw [read?_of_readDigits? hl hx, Option.isSome_some]

/-! ## The scanner is maximal munch -/

/-- A text that falls into lexemes without a rest has their tokens and the mark of the end. -/
lemma tokenize_of_cuts {source : String} {lexemes : List Lexeme}
    (h : Cuts source.toList lexemes []) :
    tokenize source = .ok (Lexeme.placed .start lexemes ++
      [(Position.start.after source.toList).place .endOfText]) := by
  have hjoined := h.joined_append
  rw [List.append_nil] at hjoined
  rw [tokenize, scan_of_cuts h, hjoined, scan]
  rfl

/-- A text in which the cutting is stuck has an error there. -/
lemma tokenize_of_stuck {source : String} {lexemes : List Lexeme} {rest : List Char}
    {problem : LexProblem} (h : Cuts source.toList lexemes rest) (hstuck : Stuck rest problem) :
    tokenize source = .error ⟨problem, (Position.start.after (Lexeme.joined lexemes)).line,
      (Position.start.after (Lexeme.joined lexemes)).column⟩ := by
  rw [tokenize, scan_of_cuts h, hstuck.scan_eq]
  rfl

/-- Tokens come from lexemes. -/
lemma cuts_of_tokenize {source : String} {tokens : List Placed} (h : tokenize source = .ok tokens) :
    ∃ lexemes, Cuts source.toList lexemes [] ∧ tokens = Lexeme.placed .start lexemes
      ++ [(Position.start.after source.toList).place .endOfText] := by
  obtain ⟨lexemes, rest, hcuts, rfl | ⟨problem, hstuck⟩⟩ := exists_cuts source.toList
  · exact ⟨lexemes, hcuts, Except.ok.inj (h.symm.trans (tokenize_of_cuts hcuts))⟩
  · exact absurd (h.symm.trans (tokenize_of_stuck hcuts hstuck)) (by simp)

/-- Errors come from where the cutting is stuck. -/
lemma stuck_of_tokenize {source : String} {error : LexError} (h : tokenize source = .error error) :
    ∃ lexemes rest, Cuts source.toList lexemes rest ∧ Stuck rest error.problem ∧
      ⟨error.line, error.column⟩ = Position.start.after (Lexeme.joined lexemes) := by
  obtain ⟨lexemes, rest, hcuts, rfl | ⟨problem, hstuck⟩⟩ := exists_cuts source.toList
  · exact absurd (h.symm.trans (tokenize_of_cuts hcuts)) (by simp)
  · obtain rfl := Except.error.inj (h.symm.trans (tokenize_of_stuck hcuts hstuck))
    exact ⟨lexemes, rest, hcuts, hstuck, rfl⟩

/-- **The scanner is maximal munch.** A text has the tokens of its lexemes, followed by the mark of
the end, exactly if it falls into lexemes without a rest; there is an error exactly if the cutting
is stuck before, and it tells the problem and the place there. The lexemes make up the text, at each
place there is one longest match with one pattern, and numbers can be read. -/
theorem tokenize_iff_cuts (source : String) :
    (∀ tokens, tokenize source = .ok tokens ↔
      ∃ lexemes, Cuts source.toList lexemes [] ∧ tokens = Lexeme.placed .start lexemes
        ++ [(Position.start.after source.toList).place .endOfText]) ∧
    (∀ error, tokenize source = .error error ↔
      ∃ lexemes rest, Cuts source.toList lexemes rest ∧ Stuck rest error.problem ∧
        ⟨error.line, error.column⟩ = Position.start.after (Lexeme.joined lexemes)) ∧
    (∀ lexemes rest, Cuts source.toList lexemes rest →
      Lexeme.joined lexemes ++ rest = source.toList) ∧
    (∀ (p₁ p₂ : Pattern) (l₁ l₂ cs : List Char), IsMunch p₁ l₁ cs → IsMunch p₂ l₂ cs →
      p₁ = p₂ ∧ l₁ = l₂) ∧
    ∀ l ∈ Pattern.number.language, (Number.read? (String.ofList l)).isSome = true := by
  refine ⟨fun tokens => ⟨cuts_of_tokenize, ?_⟩, fun error => ⟨stuck_of_tokenize, ?_⟩,
    fun _ _ h => h.joined_append, fun _ _ _ _ _ h₁ h₂ => h₁.unique h₂,
    fun _ hl => isSome_read?_number hl⟩
  · rintro ⟨lexemes, hcuts, rfl⟩
    exact tokenize_of_cuts hcuts
  · rintro ⟨lexemes, rest, hcuts, hstuck, hplace⟩
    rw [tokenize_of_stuck hcuts hstuck, ← hplace]

/-- A number with two points is found after a word and a blank, and reported where it starts. -/
theorem tokenize_iff_cuts_malformed :
    tokenize "a 1.2.3" = .error ⟨.malformedNumber "1.2.3", 1, 3⟩ ∧
    ∃ lexemes rest, Cuts "a 1.2.3".toList lexemes rest ∧ Stuck rest (.malformedNumber "1.2.3") ∧
      ⟨1, 3⟩ = Position.start.after (Lexeme.joined lexemes) ∧
      Lexeme.joined lexemes ++ rest = "a 1.2.3".toList := by
  have herror : tokenize "a 1.2.3" = .error ⟨.malformedNumber "1.2.3", 1, 3⟩ := by decide +kernel
  obtain ⟨-, hstuck, hjoined, -⟩ := tokenize_iff_cuts "a 1.2.3"
  obtain ⟨lexemes, rest, hcuts, hrest, hplace⟩ := (hstuck _).mp herror
  exact ⟨herror, lexemes, rest, hcuts, hrest, hplace, hjoined lexemes rest hcuts⟩

end Logo
