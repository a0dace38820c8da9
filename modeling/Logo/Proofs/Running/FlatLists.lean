import Logo.Proofs.Running.Reentry

/-!
# Lists without inner lists

The text of a list is its items with blanks between them. Some bare words are spelled without a
backslash which they need, and such a spelling is not one lexeme: it may fall into several, or be
none at all. But no lexeme goes on past the blank after it. So the text of a list without inner
lists is still cut item by item, and what an item is cut into does not depend on the other items.

* `Recut`: what a text is cut into, whatever comes after the gap behind it.
* `Token.exists_recut`: the spelling of a token.
* `Itemizes.recut`: the text of a list without inner lists.
-/

namespace Logo

open Computability

variable {s l rest : List Char}

/-! ## Cutting up to a gap -/

/-- A start of the text that fits a pattern does not reach past the gap. -/
lemma starts_of_gap {pattern : Pattern} (hs : s ∈ wordLetter∗) (hne : s ≠ [])
    (hgap : ∀ c ∈ rest.head?, isGap c = true) (hp : pattern ∈ patterns)
    (hl : l ∈ pattern.language) (h : l <+: s ++ rest) : l <+: s := by
  rcases List.prefix_or_prefix_of_prefix h (List.prefix_append s rest) with hle | ⟨tail, rfl⟩
  · exact hle
  · cases tail with
    | nil => simp
    | cons c cs =>
      obtain ⟨more, rfl⟩ := (List.prefix_append_right_inj s).mp h
      exact absurd hl (letters_notMem_of_gap hs hne (hgap c (by simp)) hp)

/-- The longest match in letters of a word stays the longest one before a gap. -/
lemma IsMunch.append_gap {pattern : Pattern} (h : IsMunch pattern l s) (hs : s ∈ wordLetter∗)
    (hgap : ∀ c ∈ rest.head?, isGap c = true) : IsMunch pattern l (s ++ rest) where
  known := h.known
  starts := h.starts.trans (List.prefix_append _ _)
  ne_nil := h.ne_nil
  fits := h.fits
  longest other hother l' hl' hpre := by
    have hne : s ≠ [] := by
      rintro rfl
      exact h.ne_nil (List.prefix_nil.mp h.starts)
    exact h.longest other hother l' hl' (starts_of_gap hs hne hgap hother hl' hpre)

/-- What the text is cut into, whatever comes after the gap behind it: tokens, or what stands before
a problem. -/
inductive Recut (s : List Char) : Except LexProblem (List Token) → Prop
  | cut {tokens : List Token} : (∀ rest : List Char, (∀ c ∈ rest.head?, isGap c = true) →
      CutsInto (s ++ rest) tokens rest) → Recut s (.ok tokens)
  | stuck {problem : LexProblem} : (∀ rest : List Char, (∀ c ∈ rest.head?, isGap c = true) →
      ∃ lexemes left, Cuts (s ++ rest) lexemes left ∧ Stuck left problem) →
      Recut s (.error problem)

/-- Something is cut off before the text. -/
lemma Recut.prepend {result : Except LexProblem (List Token)} {tokens : List Token}
    (h : ∀ rest : List Char, (∀ c ∈ rest.head?, isGap c = true) →
      CutsInto (l ++ (s ++ rest)) tokens (s ++ rest)) (hs : Recut s result) :
    Recut (l ++ s) (result.map (tokens ++ ·)) := by
  cases hs with
  | cut hcut =>
    refine .cut fun rest hgap => ?_
    rw [List.append_assoc]
    exact (h rest hgap).trans (hcut rest hgap)
  | stuck hstuck =>
    refine .stuck fun rest hgap => ?_
    obtain ⟨lexemes, hcuts, -⟩ := h rest hgap
    obtain ⟨lexemes', left, hcuts', hleft⟩ := hstuck rest hgap
    rw [List.append_assoc]
    exact ⟨_, left, hcuts.trans hcuts', hleft⟩

/-- No opening bracket is cut off. -/
def Unbracketed (result : Except LexProblem (List Token)) : Prop :=
  ∀ tokens, result = .ok tokens → .openBracket ∉ tokens

lemma unbracketed_ok {tokens : List Token} (h : .openBracket ∉ tokens) :
    Unbracketed (.ok tokens) := by
  rintro _ ⟨⟩
  exact h

lemma unbracketed_error (problem : LexProblem) : Unbracketed (.error problem) := by
  rintro _ ⟨⟩

lemma Unbracketed.map {result : Except LexProblem (List Token)} {tokens : List Token}
    (h : Unbracketed result) (htokens : .openBracket ∉ tokens) :
    Unbracketed (result.map (tokens ++ ·)) := by
  cases result with
  | error problem => exact unbracketed_error problem
  | ok more =>
    refine unbracketed_ok ?_
    rw [List.mem_append, not_or]
    exact ⟨htokens, h more rfl⟩

lemma isWordChar_of_number {c : Char} (h : (c.isDigit || c == '.') = true) :
    isWordChar c = true := by
  rcases Bool.or_eq_true_iff.mp h with h | h
  · simp [isWordChar, Char.isAlphanum, h]
  · simp [isWordChar, h]

/-- In letters of a word a bare word reaches up to the end. -/
lemma IsMunch.eq_of_bare (h : IsMunch .bare l (l ++ s)) (hs : l ++ s ∈ wordLetter∗) : s = [] := by
  obtain ⟨head, hhead, body, -, heq⟩ := Language.mem_mul.mp h.fits
  have hbare : l ++ s ∈ Pattern.bare.language := by
    rw [← heq, List.append_assoc] at hs ⊢
    exact bare_of_letters hhead hs
  have hle := h.longest .bare h.known _ hbare (List.prefix_refl _)
  rw [List.length_append] at hle
  exact List.eq_nil_of_length_eq_zero (by omega)

/-- Letters of a word are cut into numbers, with a bare word behind them or without. -/
lemma exists_recut_letters (hs : s ∈ wordLetter∗) :
    ∃ result, Recut s result ∧ Unbracketed result := by
  -- what is left after a number is shorter, but not by one character
  induction hn : s.length using Nat.strong_induction_on generalizing s with
  | h n ih =>
    subst hn
    rcases s with _ | ⟨c, cs⟩
    · exact ⟨.ok [], .cut fun rest _ => ⟨[], .stop rest, rfl⟩, unbracketed_ok (by simp)⟩
    cases hlongest : longest (c :: cs) with
    | none =>
      have hnone := longest_eq_none_iff.mp hlongest
      refine ⟨.error _, .stuck fun rest hgap => ⟨[], _, .stop _, .unknown ?_⟩,
        unbracketed_error (.unknownCharacter c)⟩
      intro pattern hp l hl hpre
      exact hnone pattern hp l hl (starts_of_gap hs (by simp) hgap hp hl hpre)
    | some found =>
      obtain ⟨pattern, n⟩ := found
      obtain ⟨text, -, hmunch⟩ := isMunch_of_longest hlongest
      have hkind : pattern = .number ∨ pattern = .malformedNumber ∨ pattern = .bare := by
        obtain ⟨d, ds, rfl⟩ := List.exists_cons_of_ne_nil hmunch.ne_nil
        have hd := (List.cons_prefix_cons.mp hmunch.starts).1
        exact pattern_of_letters (hd ▸ start_of_letters hs) hmunch.known hmunch.fits
      obtain ⟨tail, heq⟩ := hmunch.starts
      rw [← heq] at hs hmunch ih ⊢
      rcases hkind with rfl | rfl | rfl
      · -- a number, and then the other letters
        have hword : ∀ c ∈ text, isWordChar c = true := fun c hc =>
          isWordChar_of_number (digits_of_mem_number hmunch.fits c hc)
        have hshorter : tail.length < (text ++ tail).length := by
          have hpos := List.length_pos_of_ne_nil hmunch.ne_nil
          rw [List.length_append]
          omega
        have hfirst : ∀ rest : List Char, (∀ c ∈ rest.head?, isGap c = true) →
            CutsInto (text ++ (tail ++ rest)) [.number (String.ofList text)] (tail ++ rest) := by
          intro rest hgap
          have hmunch' := hmunch.append_gap hs hgap
          rw [List.append_assoc] at hmunch'
          exact CutsInto.single hmunch' (.number text)
        obtain ⟨result, hresult, hbracket⟩ := ih _ hshorter (letters_of_append hword hs) rfl
        exact ⟨_, hresult.prepend hfirst, hbracket.map (by simp)⟩
      · refine ⟨.error _, .stuck fun rest hgap => ?_,
          unbracketed_error (.malformedNumber (String.ofList text))⟩
        exact ⟨[], _, .stop _, .malformed (hmunch.append_gap hs hgap)⟩
      · -- a bare word reaches up to the gap
        obtain rfl := hmunch.eq_of_bare hs
        obtain ⟨word, hword⟩ := exists_decodes_bare hmunch.fits
        refine ⟨.ok [.bare (String.ofList word)], .cut fun rest hgap => ?_,
          unbracketed_ok (by simp)⟩
        have hmunch' := hmunch.append_gap hs hgap
        rw [List.append_nil] at hmunch' ⊢
        exact CutsInto.single hmunch' (.bare hword)

/-! ## Items -/

/-- The spelling of a token that can be read again is cut into that token. -/
lemma recut_of_isRereadable {t : Token} (ht : t.Lexical) (hsep : t.isSeparator = false)
    (hread : t.isRereadable = true) : Recut t.spelling.toList (.ok [t]) := by
  obtain ⟨pattern, hp, hplain, hmem, htoken⟩ := Token.exists_spelling ht hsep hread
  exact .cut fun rest hgap => CutsInto.single (isMunch_of_gap hp hmem hplain hgap) htoken

/-- **The spelling of a token is cut in the same way before every gap.** -/
theorem Token.exists_recut {t : Token} (ht : t.Lexical) (hsep : t.isSeparator = false)
    (hbracket : t ≠ .openBracket) :
    ∃ result, Recut t.spelling.toList result ∧ Unbracketed result := by
  cases hread : t.isRereadable with
  | true =>
    refine ⟨_, recut_of_isRereadable ht hsep hread, unbracketed_ok ?_⟩
    simpa using hbracket.symm
  | false => exact exists_recut_letters (letters_of_not_isRereadable ht hread).2

/-- No spelling starts with a blank. -/
lemma Token.exists_spelling_head {t : Token} (ht : t.Lexical) (hsep : t.isSeparator = false) :
    ∃ c cs, t.spelling.toList = c :: cs ∧ isSpacing c = false := by
  cases hread : t.isRereadable with
  | true =>
    obtain ⟨pattern, hp, hplain, hmem, -⟩ := Token.exists_spelling ht hsep hread
    obtain ⟨c, cs, hspelling⟩ := List.exists_cons_of_ne_nil (ne_nil_of_mem hp hmem)
    refine ⟨c, cs, hspelling, Bool.eq_false_iff.mpr fun hspacing => hplain ?_⟩
    rw [hspelling] at hmem
    simp [eq_blank_of_isSpacing hp hmem hspacing]
  | false =>
    obtain ⟨hne, hletters⟩ := letters_of_not_isRereadable ht hread
    obtain ⟨c, cs, hspelling⟩ := List.exists_cons_of_ne_nil hne
    refine ⟨c, cs, hspelling, Bool.eq_false_iff.mpr fun hspacing => ?_⟩
    rw [hspelling] at hletters
    have hblank : [c] ∈ Pattern.blank.language :=
      mem_oneOf_mul_kstar.mpr ⟨by simp, by simpa using hspacing⟩
    simpa using pattern_of_letters (start_of_letters hletters) (by decide) hblank

/-- What several texts with blanks between them are cut into. -/
def joinResults : List (Except LexProblem (List Token)) → Except LexProblem (List Token)
  | [] => .ok []
  | .error problem :: _ => .error problem
  | .ok tokens :: results => (joinResults results).map (tokens ++ ·)

lemma isGap_addedText_append (nodes : List Node) (hgap : ∀ c ∈ rest.head?, isGap c = true) :
    ∀ c ∈ (addedText nodes ++ rest).head?, isGap c = true := by
  cases nodes with
  | nil => exact hgap
  | cons node nodes => simp [addedText, isGap, isSpacing]

/-- The blank before an item is passed over. -/
lemma Recut.addedText {nodes : List Node} {result : Except LexProblem (List Token)}
    (hstart : nodes ≠ [] → ∃ c cs, textOf nodes = c :: cs ∧ isSpacing c = false)
    (h : Recut (textOf nodes) result) : Recut (Logo.addedText nodes) result := by
  cases nodes with
  | nil => exact h
  | cons node nodes =>
    obtain ⟨c, cs, htext, hc⟩ := hstart (by simp)
    have hblank : ∀ rest : List Char, (∀ c ∈ rest.head?, isGap c = true) →
        CutsInto ([' '] ++ (textOf (node :: nodes) ++ rest)) []
          (textOf (node :: nodes) ++ rest) := by
      intro rest _
      refine CutsInto.single (isMunch_blank ?_) (.blank _)
      simpa [htext] using hc
    have hresult := h.prepend hblank
    cases result <;> exact hresult

lemma Itemizes.textOf_head {ts : List Placed} {nodes : List Node} (h : Itemizes ts nodes)
    (hts : ∀ t ∈ ts, t.token.Lexical) (hflat : ∀ t ∈ ts, t.token ≠ .openBracket)
    (hne : nodes ≠ []) : ∃ c cs, textOf nodes = c :: cs ∧ isSpacing c = false := by
  induction h with
  | nil => exact absurd rfl hne
  | separator _ _ ih =>
    exact ih (fun t ht => hts t (by simp [ht])) (fun t ht => hflat t (by simp [ht])) hne
  | @word t ts nodes _ hsep _ _ =>
    obtain ⟨c, cs, hspelling, hc⟩ := Token.exists_spelling_head (hts t (by simp)) hsep
    refine ⟨c, cs ++ addedText nodes, ?_, hc⟩
    rw [textOf_cons, Node.quoted, Value.display, hspelling, List.cons_append]
  | list ho _ _ _ _ _ => exact absurd ho (hflat _ (by simp))

/-- **The text of a list without inner lists is cut item by item.** -/
theorem Itemizes.recut {ts : List Placed} {nodes : List Node} (h : Itemizes ts nodes)
    (hts : ∀ t ∈ ts, t.token.Lexical) (hflat : ∀ t ∈ ts, t.token ≠ .openBracket)
    {results : List (Except LexProblem (List Token))}
    (hresults : List.Forall₂ (fun t => Recut t.token.spelling.toList) (significant ts) results) :
    Recut (textOf nodes) (joinResults results) := by
  induction h generalizing results with
  | nil =>
    cases hresults
    exact .cut fun rest _ => ⟨[], .stop rest, rfl⟩
  | @separator t ts nodes hsep _ ih =>
    rw [significant, List.filter_cons_of_neg (by simp [hsep])] at hresults
    exact ih (fun t ht => hts t (by simp [ht])) (fun t ht => hflat t (by simp [ht])) hresults
  | @word t ts nodes _ hsep hrest ih =>
    have hts' : ∀ t ∈ ts, t.token.Lexical := fun t ht => hts t (by simp [ht])
    have hflat' : ∀ t ∈ ts, t.token ≠ .openBracket := fun t ht => hflat t (by simp [ht])
    rw [significant, List.filter_cons_of_pos (by simp [hsep])] at hresults
    cases hresults with
    | @cons _ result _ results hfirst hresults =>
      have hadded := (ih hts' hflat' hresults).addedText (hrest.textOf_head hts' hflat')
      rw [textOf_cons, Node.quoted, Value.display]
      cases hfirst with
      | cut hcut =>
        exact hadded.prepend fun rest hgap => hcut _ (isGap_addedText_append nodes hgap)
      | stuck hstuck =>
        refine .stuck fun rest hgap => ?_
        rw [List.append_assoc]
        exact hstuck _ (isGap_addedText_append nodes hgap)
  | list ho _ _ _ _ _ => exact absurd ho (hflat _ (by simp))

/-! ## The tokens of the text -/

/-- The text of a list without inner lists stands on one line. -/
lemma Itemizes.newline_notMem {ts : List Placed} {nodes : List Node} (h : Itemizes ts nodes)
    (hts : ∀ t ∈ ts, t.token.Lexical) (hflat : ∀ t ∈ ts, t.token ≠ .openBracket) :
    '\n' ∉ textOf nodes := by
  induction h with
  | nil => simp [textOf, Node.quotedEach, Value.printForm, Value.displayEach]
  | separator _ _ ih =>
    exact ih (fun t ht => hts t (by simp [ht])) (fun t ht => hflat t (by simp [ht]))
  | @word t ts nodes _ hsep _ ih =>
    have hrest := ih (fun t ht => hts t (by simp [ht])) (fun t ht => hflat t (by simp [ht]))
    have hadded : '\n' ∉ addedText nodes := by
      cases nodes with
      | nil => simp [addedText]
      | cons node nodes => simpa [addedText] using hrest
    rw [textOf_cons, Node.quoted, Value.display, List.mem_append, not_or]
    exact ⟨Token.newline_notMem_spelling (hts t (by simp)) hsep, hadded⟩
  | list ho _ _ _ _ _ => exact absurd ho (hflat _ (by simp))

lemma line_of_placed {p : Position} {lexemes : List Lexeme} (h : '\n' ∉ Lexeme.joined lexemes) :
    ∀ t ∈ Lexeme.placed p lexemes, t.line = p.line := by
  induction lexemes generalizing p with
  | nil => simp [Lexeme.placed]
  | cons lexeme lexemes ih =>
    rw [Lexeme.joined_cons, List.mem_append, not_or] at h
    intro t ht
    rcases List.mem_append.mp ht with ht | ht
    · obtain ⟨token, -, rfl⟩ : ∃ token, lexeme.token = some token ∧ p.place token = t := by
        simpa using ht
      rfl
    · rw [ih h.2 t ht, Position.line_after, List.count_eq_zero.mpr h.1, Nat.add_zero]

/-- The tokens of a text of one line. -/
lemma Recut.tokenize_ok {source : String} {tokens : List Token}
    (h : Recut source.toList (.ok tokens)) (hline : '\n' ∉ source.toList) :
    ∃ us, tokenize source = .ok us ∧ us.map Placed.token = tokens ++ [.endOfText] ∧
      ∀ t ∈ us, t.line = 1 := by
  cases h with
  | cut hcut =>
    obtain ⟨lexemes, hcuts, htokens⟩ := hcut [] (by simp)
    rw [List.append_nil] at hcuts
    have hjoined := hcuts.joined_append
    rw [List.append_nil] at hjoined
    refine ⟨_, tokenize_of_cuts hcuts, ?_, ?_⟩
    · rw [List.map_append, map_token_placed, htokens]
      rfl
    · refine List.forall_mem_append.mpr ⟨line_of_placed (hjoined ▸ hline), ?_⟩
      rw [List.forall_mem_singleton]
      show (Position.start.after source.toList).line = 1
      rw [Position.line_after, List.count_eq_zero.mpr hline]
      rfl

/-- The problem of a text of one line. -/
lemma Recut.tokenize_error {source : String} {problem : LexProblem}
    (h : Recut source.toList (.error problem)) (hline : '\n' ∉ source.toList) :
    ∃ column, tokenize source = .error ⟨problem, 1, column⟩ := by
  cases h with
  | stuck hstuck =>
    obtain ⟨lexemes, left, hcuts, hleft⟩ := hstuck [] (by simp)
    rw [List.append_nil] at hcuts
    have hbefore : '\n' ∉ Lexeme.joined lexemes := by
      rw [← hcuts.joined_append, List.mem_append, not_or] at hline
      exact hline.1
    refine ⟨(Position.start.after (Lexeme.joined lexemes)).column, ?_⟩
    rw [tokenize_of_stuck hcuts hleft, Position.line_after, List.count_eq_zero.mpr hbefore]
    rfl

end Logo
