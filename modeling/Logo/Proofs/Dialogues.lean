import Logo.Console.Dialogue
import Logo.Proofs.Lexing.Spelling
import Logo.Proofs.Reading.Nesting

/-!
# Definitions in a dialogue

A dialogue collects the lines of a definition up to the first one whose last word is `end`. It sees
words between blanks, and no tokens: a comment, a list, the rest of a continued line or an inner
definition can end a line with that word, too, and then the definition is cut off there. This file
says when a definition is handed over whole.

* `blocks_of_open`: an open definition is run with the first line that ends one.
* `Cuts.exists_bare`: without marks that hide blanks, a word between blanks is a lexeme.
* `definition_handed_over`: a definition is handed over whole if no earlier line ends in `end`.
-/

namespace Logo

open Computability Console Enclosure

/-! ## Collecting lines -/

namespace Console

/-- The lines, each with its line end. -/
def joined (lines : List String) : String := String.join (lines.map (· ++ "\n"))

/-- A definition is open, or the lines start with one that opens it. -/
def Opens (pending : Pending) (lines : List String) : Prop :=
  pending.isEmpty = false ∨ lines.head?.any startsDefinition = true

variable {pending : Pending} {line : String} {before lines : List String}

lemma joined_cons (line : String) (lines : List String) :
    joined (line :: lines) = line ++ "\n" ++ joined lines := by
  simp [joined, String.join_cons]

lemma feed_of_opens (h : Opens pending (line :: lines)) : feed pending line =
    if endsDefinition line then ("", some (pending ++ line ++ "\n"))
    else (pending ++ line ++ "\n", none) := by
  have hopen : (pending.isEmpty && !startsDefinition line) = false := by
    rcases h with h | h
    · simp [h]
    · simp [show startsDefinition line = true from h]
  simp [feed, hopen]

/-- After a line the definition that it belongs to is open. -/
lemma opens_collected (pending : Pending) (line : String) (lines : List String) :
    Opens (pending ++ line ++ "\n") lines := .inl (by simp [String.isEmpty_eq_false_iff])

/-- While a definition is open, nothing is run. -/
lemma blocks_of_collecting {more : List String} (h : Opens pending (before ++ more))
    (hbefore : ∀ l ∈ before, endsDefinition l = false) : blocks pending before = [] := by
  induction before generalizing pending with
  | nil => rfl
  | cons line before ih =>
    obtain ⟨hline, hrest⟩ := List.forall_mem_cons.mp hbefore
    rw [blocks, feed_of_opens h, hline]
    exact ih (opens_collected pending line (before ++ more)) hrest

/-- **An open definition is run with the first line that ends one**, and the lines after it start
afresh. -/
theorem blocks_of_open {more : List String} (h : Opens pending (before ++ line :: more))
    (hbefore : ∀ l ∈ before, endsDefinition l = false) (hline : endsDefinition line = true) :
    blocks pending (before ++ line :: more) =
      (pending ++ joined (before ++ [line])) :: blocks "" more := by
  induction before generalizing pending with
  | nil =>
    rw [List.nil_append, blocks, feed_of_opens h, hline]
    simp [joined, String.append_assoc]
  | cons first before ih =>
    obtain ⟨hfirst, hrest⟩ := List.forall_mem_cons.mp hbefore
    rw [List.cons_append, blocks, feed_of_opens h, hfirst]
    rw [List.cons_append, joined_cons, ← String.append_assoc, ← String.append_assoc]
    exact ih (opens_collected pending first _) hrest

/-- The lines are handed over whole: after the last of them, and not before, they are run as one
text, and the dialogue goes on without an open definition. -/
def HandedOver (lines : List String) : Prop :=
  blocks "" lines.dropLast = [] ∧ ∀ more, blocks "" (lines ++ more) = joined lines :: blocks "" more

/-- The first line that ends a definition. -/
lemma exists_first_end (h : ∃ l ∈ lines, endsDefinition l = true) :
    ∃ before line after, lines = before ++ line :: after ∧ endsDefinition line = true ∧
      ∀ l ∈ before, endsDefinition l = false := by
  induction lines with
  | nil => simp at h
  | cons line lines ih =>
    cases hline : endsDefinition line with
    | true => exact ⟨[], line, lines, rfl, hline, by simp⟩
    | false =>
      obtain ⟨l, hl, hend⟩ := h
      rcases List.mem_cons.mp hl with rfl | hl
      · simp [hline] at hend
      obtain ⟨before, first, after, rfl, hfirst, hbefore⟩ := ih ⟨l, hl, hend⟩
      exact ⟨line :: before, first, after, rfl, hfirst, List.forall_mem_cons.mpr ⟨hline, hbefore⟩⟩

/-- **Lines are handed over whole if none before the last ends a definition, and only then.** -/
theorem handedOver_iff (hstart : lines.head?.any startsDefinition = true)
    (hend : lines.getLast?.any endsDefinition = true) :
    HandedOver lines ↔ ∀ l ∈ lines.dropLast, endsDefinition l = false := by
  obtain ⟨last, hlast, hlastEnd⟩ := (Option.any_eq_true _ _).mp hend
  obtain ⟨init, rfl⟩ := List.getLast?_eq_some_iff.mp hlast
  rw [List.dropLast_concat]
  have hopens : ∀ more, Opens "" (init ++ last :: more) := by
    intro more
    refine .inr ?_
    cases init <;> exact hstart
  constructor
  · rintro ⟨hnone, -⟩
    by_contra hnot
    push Not at hnot
    obtain ⟨l, hl, hlend⟩ := hnot
    obtain ⟨before, line, after, rfl, hline, hbefore⟩ :=
      exists_first_end ⟨l, hl, Bool.eq_true_of_not_eq_false hlend⟩
    have hopen : Opens "" (before ++ line :: after) := by
      refine .inr ?_
      cases before <;> exact hstart
    rw [List.dropLast_concat, blocks_of_open hopen hbefore hline] at hnone
    cases hnone
  · intro hinit
    refine ⟨?_, fun more => ?_⟩
    · rw [List.dropLast_concat]
      exact blocks_of_collecting (hopens []) hinit
    · rw [List.append_assoc]
      exact blocks_of_open (hopens more) hinit hlastEnd

end Console

/-! ## Lines and words in a text -/

open Text in
/-- The characters end with a blank, if there are any. -/
def EndsBlank (cs : List Char) : Prop := ∀ c ∈ cs.getLast?, isBlank c = true

open Text in
/-- The characters start with a blank, if there are any. -/
def StartsBlank (cs : List Char) : Prop := ∀ c ∈ cs.head?, isBlank c = true

lemma EndsBlank.append {cs ds : List Char} (hcs : EndsBlank cs) (hds : EndsBlank ds) :
    EndsBlank (cs ++ ds) := by
  intro c hc
  rw [List.getLast?_append, Option.mem_def] at hc
  rcases Option.or_eq_some_iff.mp hc with h | ⟨-, h⟩
  · exact hds c h
  · exact hcs c h

lemma endsBlank_of_forall {cs : List Char} (h : ∀ c ∈ cs, Text.isBlank c = true) : EndsBlank cs :=
  fun c hc => h c (List.mem_of_mem_getLast? hc)

namespace Console

/-- A line of a text, with what comes before and after it. -/
lemma exists_of_linesFrom {cs word : List Char} {before after : List String} {line : String}
    (h : linesFrom word cs = before ++ line :: after) :
    ∃ start gap more, word.reverse ++ cs = start ++ (line.toList ++ (gap ++ more)) ∧
      EndsBlank start ∧ (∀ c ∈ gap, Text.isBlank c = true) ∧ (gap = [] → more = []) ∧
      linesFrom [] more = after := by
  induction cs generalizing word before with
  | nil =>
    rw [linesFrom] at h
    split at h
    · simp at h
    · obtain ⟨rfl, rfl, rfl⟩ : before = [] ∧ line = String.ofList word.reverse ∧ after = [] := by
        simpa [List.append_eq_cons_iff, eq_comm] using h
      exact ⟨[], [], [], by simp, by simp [EndsBlank], by simp, fun _ => rfl, rfl⟩
  | cons c cs ih =>
    rw [linesFrom] at h
    split at h
    · next hc =>
      subst hc
      rcases before with _ | ⟨first, before⟩
      · -- this is the line that ends here, perhaps with a carriage return
        obtain ⟨hline, hafter⟩ := List.cons.inj h
        rw [← hline, String.toList_ofList]
        split
        · next hreturn =>
          obtain ⟨word, rfl⟩ := List.head?_eq_some_iff.mp hreturn
          exact ⟨[], ['\r', '\n'], cs, by simp, by simp [EndsBlank], by simp [Text.isBlank],
            by simp, hafter⟩
        · exact ⟨[], ['\n'], cs, by simp, by simp [EndsBlank], by simp [Text.isBlank],
            by simp, hafter⟩
      · obtain ⟨-, hrest⟩ := List.cons.inj h
        obtain ⟨start, gap, more, heq, hstart, hgap, hmore, hafter⟩ := ih hrest
        refine ⟨word.reverse ++ ['\n'] ++ start, gap, more, ?_, ?_, hgap, hmore, hafter⟩
        · rw [List.reverse_nil, List.nil_append] at heq
          simp [heq]
        · refine EndsBlank.append ?_ hstart
          simp [EndsBlank, Text.isBlank]
    · obtain ⟨start, gap, more, heq, hrest⟩ := ih h
      exact ⟨start, gap, more, by simpa using heq, hrest⟩

end Console

namespace Text

lemma isBlank_of_wordsFrom_eq_nil {word cs : List Char} (h : wordsFrom word cs = []) :
    word = [] ∧ ∀ c ∈ cs, isBlank c = true := by
  induction cs generalizing word with
  | nil => simpa [wordsFrom] using h
  | cons c cs ih =>
    rw [wordsFrom] at h
    split at h
    · next hblank =>
      split at h
      · next hword => exact ⟨by simpa using hword, List.forall_mem_cons.mpr ⟨hblank, (ih h).2⟩⟩
      · cases h
    · cases (ih h).1

/-- The last word of a line, with what comes before and after it. -/
lemma exists_of_getLast?_wordsFrom {cs word last : List Char}
    (h : (wordsFrom word cs).getLast? = some last) :
    ∃ start gap, word.reverse ++ cs = start ++ (last ++ gap) ∧ EndsBlank start ∧
      ∀ c ∈ gap, isBlank c = true := by
  induction cs generalizing word with
  | nil =>
    rw [wordsFrom] at h
    split at h
    · cases h
    · obtain rfl : word.reverse = last := by simpa using h
      exact ⟨[], [], by simp, by simp [EndsBlank], by simp⟩
  | cons c cs ih =>
    rw [wordsFrom] at h
    split at h
    · next hblank =>
      have hlater : (wordsFrom [] cs).getLast? = some last → ∃ start gap,
          word.reverse ++ c :: cs = start ++ (last ++ gap) ∧ EndsBlank start ∧
          ∀ c ∈ gap, isBlank c = true := by
        intro hlast
        obtain ⟨start, gap, heq, hstart, hgap⟩ := ih hlast
        refine ⟨word.reverse ++ [c] ++ start, gap, ?_, EndsBlank.append ?_ hstart, hgap⟩
        · rw [List.reverse_nil, List.nil_append] at heq
          simp [heq]
        · simpa [EndsBlank] using hblank
      split at h
      · exact hlater h
      · -- the word that ends here is the last one if only blanks follow
        rw [List.getLast?_cons] at h
        cases hwords : (wordsFrom [] cs).getLast? with
        | some other =>
          obtain rfl : other = last := by simpa [hwords] using h
          exact hlater hwords
        | none =>
          obtain rfl : word.reverse = last := by simpa [hwords] using h
          have hgap := (isBlank_of_wordsFrom_eq_nil (List.getLast?_eq_none_iff.mp hwords)).2
          exact ⟨[], c :: cs, by simp, by simp [EndsBlank],
            List.forall_mem_cons.mpr ⟨hblank, hgap⟩⟩
    · obtain ⟨start, gap, heq, hrest⟩ := ih h
      exact ⟨start, gap, by simpa using heq, hrest⟩

end Text

/-! ## Words that are lexemes -/

/-- The characters after which blanks do not separate words. -/
def hidingMarks : List Char := [';', '~', '\\']

lemma isBlank_eq_false {c : Char} (h : 32 < c.toNat ∧ c.toNat < 127) : Text.isBlank c = false := by
  simp only [Text.isBlank, Bool.or_eq_false_iff, Bool.and_eq_false_iff, decide_eq_false_iff_not,
    beq_eq_false_iff_ne]
  omega

lemma isBlank_of_isWordChar {c : Char} (h : isWordChar c = true) : Text.isBlank c = false := by
  refine isBlank_eq_false ?_
  have halpha : c.isAlpha = (c.isUpper || c.isLower) := rfl
  have hupper : c.isUpper = decide (c.val ≥ 'A'.val ∧ c.val ≤ 'Z'.val) := rfl
  have hlower : c.isLower = (decide (c.val ≥ 'a'.val) && decide (c.val ≤ 'z'.val)) := rfl
  simp only [isWordChar, Char.isAlphanum, halpha, hupper, hlower, Char.isDigit,
    Bool.or_eq_true, Bool.and_eq_true, decide_eq_true_eq, beq_iff_eq, ge_iff_le,
    UInt32.le_iff_toNat_le] at h
  have hval : c.toNat = c.val.toNat := rfl
  rcases h with ((((h | h) | rfl) | rfl) | rfl) | rfl
  · simp at h
    omega
  · simp at h
    omega
  all_goals decide

/-- The body of a word without backslashes. -/
lemma isWordChar_of_letters {l : List Char} (hl : l ∈ wordLetter∗) (hback : '\\' ∉ l) :
    ∀ c ∈ l, isWordChar c = true := by
  obtain ⟨letters, rfl, hletters⟩ := Language.mem_kstar.mp hl
  intro c hc
  obtain ⟨letter, hmem, hletter⟩ := List.mem_flatten.mp hc
  rcases mem_wordLetter.mp (hletters letter hmem) with ⟨d, hd, rfl⟩ | ⟨d, -, rfl⟩
  · rwa [List.mem_singleton.mp hletter]
  · exact absurd (List.mem_flatten.mpr ⟨_, hmem, by simp⟩) hback

lemma isBlank_of_bareHead {l : List Char} (hl : l ∈ bareHead) (hback : '\\' ∉ l) :
    ∀ c ∈ l, Text.isBlank c = false := by
  rcases mem_bareHead.mp hl with ⟨d, hd, rfl⟩ | ⟨d, hd, rfl⟩ | ⟨d, -, rfl⟩
  · refine List.forall_mem_singleton.mpr ?_
    rcases Bool.or_eq_true_iff.mp hd with hd | hd
    · refine isBlank_of_isWordChar ?_
      simp only [Bool.or_eq_true] at hd
      rcases hd with (hd | hd) | hd <;> simp [isWordChar, Char.isAlphanum, hd]
    · rw [beq_iff_eq.mp hd]
      decide
  · have hword : isWordChar d = true := isWordChar_of_isAlpha hd
    exact List.forall_mem_cons.mpr ⟨by decide, by simpa using isBlank_of_isWordChar hword⟩
  · simp at hback

/-- A lexeme without marks that hide blanks is a run of blanks or holds none. -/
lemma blank_or_not {pattern : Pattern} {l : List Char} (hp : pattern ∈ patterns)
    (hl : l ∈ pattern.language) (hmarks : ∀ c ∈ l, c ∉ hidingMarks) :
    (∀ c ∈ l, Text.isBlank c = true) ∨ ∀ c ∈ l, Text.isBlank c = false := by
  have hback : '\\' ∉ l := fun h => hmarks _ h (by decide)
  have hdigit : ∀ c : Char, (c.isDigit || c == '.') = true → Text.isBlank c = false := by
    intro c hc
    refine isBlank_of_isWordChar ?_
    rcases Bool.or_eq_true_iff.mp hc with h | h <;> simp [isWordChar, Char.isAlphanum, h]
  have hmarked : ∀ {mark : Char} {body : List Char}, Text.isBlank mark = false →
      body ∈ wordLetter∗ → [mark] ++ body = l → ∀ c ∈ l, Text.isBlank c = false := by
    rintro mark body hmark hbody rfl
    refine List.forall_mem_cons.mpr ⟨hmark, fun c hc => isBlank_of_isWordChar ?_⟩
    exact isWordChar_of_letters hbody (fun h => hback (List.mem_cons_of_mem _ h)) c hc
  rcases Pattern.mem_patterns.mp hp with hp | ⟨token, htoken, rfl⟩
  · simp only [List.mem_cons, List.not_mem_nil, or_false] at hp
    rcases hp with rfl | rfl | rfl | rfl | rfl | rfl | rfl | rfl
    · exact .inr fun c hc => hdigit c (digits_of_mem_number hl c hc)
    · exact .inr fun c hc => hdigit c ((mem_malformedNumber.mp hl).1 c hc)
    · obtain ⟨_, rfl, body, hbody, heq⟩ := Language.mem_mul.mp hl
      exact .inr (hmarked (by decide) hbody heq)
    · obtain ⟨_, rfl, body, hbody, heq⟩ := Language.mem_mul.mp hl
      exact .inr (hmarked (by decide) (mem_wordLetter_mul_kstar.mp hbody).2 heq)
    · obtain ⟨head, hhead, body, hbody, rfl⟩ := Language.mem_mul.mp hl
      rw [List.mem_append, not_or] at hback
      refine .inr (List.forall_mem_append.mpr ⟨isBlank_of_bareHead hhead hback.1, fun c hc => ?_⟩)
      exact isBlank_of_isWordChar (isWordChar_of_letters hbody hback.2 c hc)
    · obtain ⟨_, rfl, body, hline, rfl⟩ := Language.mem_mul.mp hl
      exact absurd (show ';' ∈ hidingMarks by decide) (hmarks _ (by simp))
    · obtain ⟨_, rfl, body, hline, rfl⟩ := Language.mem_mul.mp hl
      exact absurd (show '~' ∈ hidingMarks by decide) (hmarks _ (by simp))
    · refine .inl fun c hc => ?_
      have hspacing := (mem_oneOf_mul_kstar.mp hl).2 c hc
      simp only [isSpacing, Bool.or_eq_true, beq_iff_eq] at hspacing
      rcases hspacing with ((rfl | rfl) | rfl) | rfl <;> decide
  · obtain rfl : l = token.spelling.toList := hl
    have hfixed : ∀ t ∈ Operator.all.map Token.operator ++ punctuation,
        t.spelling.toList.all Text.isBlank = true ∨
          t.spelling.toList.all (fun c => !Text.isBlank c) = true := by decide
    simpa using hfixed token htoken

/-- A bare word without backslashes stands for itself. -/
lemma Denotes.bare_eq {l : List Char} {token : Option Token} (h : Denotes .bare l token)
    (hback : '\\' ∉ l) : token = some (.bare (String.ofList l)) := by
  obtain ⟨text, hdecodes, rfl⟩ :
      ∃ text, Decodes l text ∧ token = some (.bare (String.ofList text)) := by
    cases h with
    | bare hdecodes => exact ⟨_, hdecodes, rfl⟩
  suffices htext : text = l by rw [htext]
  clear h
  induction hdecodes with
  | nil => rfl
  | plain _ _ ih => rw [ih (fun h => hback (List.mem_cons_of_mem _ h))]
  | pair _ _ => simp at hback

/-- A start of a text that holds no blanks does not reach past the first of them. -/
lemma starts_of_startsBlank {l e rest : List Char} (hl : ∀ c ∈ l, Text.isBlank c = false)
    (hrest : StartsBlank rest) (h : l <+: e ++ rest) : l <+: e := by
  rcases List.prefix_or_prefix_of_prefix h (List.prefix_append e rest) with hle | ⟨tail, rfl⟩
  · exact hle
  · cases tail with
    | nil => simp
    | cons c tail =>
      obtain ⟨more, rfl⟩ := (List.prefix_append_right_inj e).mp h
      have hblank := hrest c (by simp)
      simp [hl c (by simp)] at hblank

/-- **Without marks that hide blanks, a word between blanks is a lexeme**, if it is a bare word. -/
theorem Cuts.exists_bare {cs start e rest : List Char} {lexemes : List Lexeme}
    (h : Cuts cs lexemes []) (hcs : cs = start ++ (e ++ rest))
    (hmarks : ∀ c ∈ cs, c ∉ hidingMarks) (hstart : EndsBlank start) (hrest : StartsBlank rest)
    (he : e ∈ Pattern.bare.language) (hblank : ∀ c ∈ e, Text.isBlank c = false) :
    ∃ before after, lexemes = before ++ ⟨e, some (.bare (String.ofList e))⟩ :: after ∧
      Cuts rest after [] := by
  generalize hend : ([] : List Char) = tail at h
  induction h generalizing start with
  | stop cs =>
    subst hend
    have hne := ne_nil_of_mem (by decide) he
    simp [hne] at hcs
  | @step pattern text cs tail token lexemes hmunch htoken hcuts ih =>
    subst hend
    -- a lexeme before the word is passed over
    have hpassed : ∀ start', EndsBlank start' → cs = start' ++ (e ++ rest) →
        ∃ before after, ⟨text, token⟩ :: lexemes =
          before ++ ⟨e, some (.bare (String.ofList e))⟩ :: after ∧ Cuts rest after [] := by
      intro start' hstart' heq
      obtain ⟨before, after, rfl, hafter⟩ :=
        ih heq (fun c hc => hmarks c (by simp [hc])) hstart' rfl
      exact ⟨_ :: before, after, rfl, hafter⟩
    rcases List.append_eq_append_iff.mp hcs with ⟨start', rfl, heq⟩ | ⟨text', rfl, heq⟩
    · refine hpassed start' (fun c hc => hstart c ?_) heq
      simp [List.getLast?_append, Option.mem_def.mp hc]
    rcases text' with _ | ⟨x, text'⟩
    · exact hpassed [] (by simp [EndsBlank]) (by simpa using heq.symm)
    -- the lexeme holds the first character of the word, so it holds no blank
    obtain ⟨y, e', rfl⟩ := List.exists_cons_of_ne_nil (ne_nil_of_mem (by decide) he)
    obtain rfl : y = x := by simpa using (List.cons.inj heq).1
    have htext : ∀ c ∈ start ++ y :: text', Text.isBlank c = false := by
      refine (blank_or_not hmunch.known hmunch.fits fun c hc => hmarks c ?_).resolve_left ?_
      · rw [List.mem_append]
        exact .inl hc
      · intro hall
        simp [hall y (by simp)] at hblank
    obtain rfl : start = [] := by
      refine List.eq_nil_iff_forall_not_mem.mpr fun c hc => ?_
      have hlast := hstart _ (List.getLast?_eq_some_getLast (List.ne_nil_of_mem hc))
      simp [htext _ (List.mem_append_left _ (List.getLast_mem (List.ne_nil_of_mem hc)))] at hlast
    rw [List.nil_append] at *
    -- neither the lexeme nor the word reaches past the other
    have hshort : y :: text' <+: y :: e' :=
      starts_of_startsBlank htext hrest (heq ▸ List.prefix_append _ _)
    have hlong : (y :: e').length ≤ (y :: text').length :=
      hmunch.longest .bare (by decide) _ he (heq ▸ List.prefix_append _ _)
    have hword : y :: text' = y :: e' := hshort.eq_of_length_le hlong
    have hback : '\\' ∉ y :: text' :=
      fun h => hmarks '\\' (List.mem_append_left _ h) (by decide)
    rw [hword] at hmunch htoken heq hback ⊢
    obtain rfl := Pattern.unique_of_mem hmunch.known (by decide) hmunch.fits he
    rw [htoken.bare_eq hback, List.append_cancel_left heq]
    exact ⟨[], lexemes, rfl, hcuts⟩

/-! ## The word `end` -/

/-- The letters of the word `end`, in some case. -/
def IsEnd (e : List Char) : Prop := e.map Char.toLower = ['e', 'n', 'd']

lemma eq_or_eq_of_toLower {c d capital : Char} (h : c.toLower = d)
    (hcapital : capital.toNat + 32 = d.toNat) : c = d ∨ c = capital := by
  rcases Text.toLower_cases c with heq | heq
  · exact .inl (heq.symm.trans h)
  · refine .inr (Char.toNat_inj.mp ?_)
    rw [h] at heq
    omega

lemma IsEnd.eq {e : List Char} (h : IsEnd e) : ∃ x y z, e = [x, y, z] ∧ (x = 'e' ∨ x = 'E') ∧
    (y = 'n' ∨ y = 'N') ∧ (z = 'd' ∨ z = 'D') := by
  obtain ⟨x, _, rfl, hx, h⟩ := List.map_eq_cons_iff.mp h
  obtain ⟨y, _, rfl, hy, h⟩ := List.map_eq_cons_iff.mp h
  obtain ⟨z, _, rfl, hz, h⟩ := List.map_eq_cons_iff.mp h
  obtain rfl := List.map_eq_nil_iff.mp h
  exact ⟨x, y, z, rfl, eq_or_eq_of_toLower hx (by decide), eq_or_eq_of_toLower hy (by decide),
    eq_or_eq_of_toLower hz (by decide)⟩

/-- The word `end` is a bare word. -/
lemma IsEnd.mem_bare {e : List Char} (h : IsEnd e) :
    e ∈ Pattern.bare.language ∧ ∀ c ∈ e, Text.isBlank c = false := by
  obtain ⟨x, y, z, rfl, hx, hy, hz⟩ := h.eq
  have hletters : ∀ c ∈ [x, y, z], isWordChar c = true ∧ c.isAlpha = true ∧ c ≠ '\n' := by
    refine Text.forall_mem_of_all ?_
    rcases hx with rfl | rfl <;> rcases hy with rfl | rfl <;> rcases hz with rfl | rfl <;> decide
  have hhead : [x] ∈ bareHead := mem_bareHead.mpr (.inl ⟨x, by simp [hletters x], rfl⟩)
  have hletter : ∀ c ∈ [x, y, z], [c] ∈ wordLetter :=
    fun c hc => mem_wordLetter.mpr (.inl ⟨c, (hletters c hc).1, rfl⟩)
  refine ⟨Language.append_mem_mul (b := [y, z]) hhead ?_,
    fun c hc => isBlank_of_isWordChar (hletters c hc).1⟩
  exact cons_mem_kstar (hletter y (by simp))
    (cons_mem_kstar (hletter z (by simp)) (Language.nil_mem_kstar _))

/-- A line that ends a definition, cut at the word `end`. -/
lemma exists_of_endsDefinition {line : String} (h : endsDefinition line = true) :
    ∃ start e gap, line.toList = start ++ (e ++ gap) ∧ EndsBlank start ∧ IsEnd e ∧
      ∀ c ∈ gap, Text.isBlank c = true := by
  obtain ⟨word, hword, hsame⟩ := (Option.any_eq_true _ _).mp h
  rw [Text.words, List.getLast?_map, Option.map_eq_some_iff] at hword
  obtain ⟨last, hlast, rfl⟩ := hword
  obtain ⟨start, gap, heq, hstart, hgap⟩ := Text.exists_of_getLast?_wordsFrom hlast
  refine ⟨start, last, gap, heq, hstart, ?_, hgap⟩
  rw [Text.sameLetters, beq_iff_eq, String.toList_ofList] at hsame
  exact hsame.trans (by decide)

/-- A line of a text that ends a definition, cut off with the word `end` as a lexeme. -/
lemma Cuts.exists_end {cs : List Char} {lexemes : List Lexeme} {before after : List String}
    {line : String} (h : Cuts cs lexemes []) {gap₀ text : List Char} (hcs : cs = gap₀ ++ text)
    (hgap₀ : EndsBlank gap₀) (hmarks : ∀ c ∈ cs, c ∉ hidingMarks)
    (hlines : linesFrom [] text = before ++ line :: after) (hline : endsDefinition line = true) :
    ∃ first second e gap more, lexemes = first ++ ⟨e, some (.bare (String.ofList e))⟩ :: second ∧
      IsEnd e ∧ Cuts (gap ++ more) second [] ∧ (∀ c ∈ gap, Text.isBlank c = true) ∧
      (∀ c ∈ gap ++ more, c ∈ cs) ∧ linesFrom [] more = after := by
  obtain ⟨start, gap, more, heq, hstart, hgap, hmore, hafter⟩ := exists_of_linesFrom hlines
  obtain ⟨start', e, gap', heq', hstart', he, hgap'⟩ := exists_of_endsDefinition hline
  have htext : cs = (gap₀ ++ start ++ start') ++ (e ++ (gap' ++ gap ++ more)) := by
    rw [List.reverse_nil, List.nil_append] at heq
    simp [hcs, heq, heq']
  have hblank : ∀ c ∈ gap' ++ gap, Text.isBlank c = true :=
    List.forall_mem_append.mpr ⟨hgap', hgap⟩
  have hrest : StartsBlank (gap' ++ gap ++ more) := by
    intro c hc
    cases hall : gap' ++ gap with
    | nil => simp [hmore (List.append_eq_nil_iff.mp hall).2, hall] at hc
    | cons d ds =>
      obtain rfl : d = c := by simpa [hall] using hc
      exact hblank d (by simp [hall])
  obtain ⟨hmem, hnone⟩ := he.mem_bare
  obtain ⟨first, second, hlexemes, hcuts⟩ :=
    h.exists_bare htext hmarks ((hgap₀.append hstart).append hstart') hrest hmem hnone
  refine ⟨first, second, e, gap' ++ gap, more, hlexemes, he, hcuts, hblank, fun c hc => ?_, hafter⟩
  rw [htext]
  exact List.mem_append_right _ (List.mem_append_right _ hc)

/-! ## Definitions without lists -/

/-- The token opens a definition. -/
def opensDefinition (t : Token) : Bool := openedBy false t == some .definition

/-- The token closes a definition. -/
def closesDefinition (t : Token) : Bool := closedBy false t == some .definition

lemma eq_openBracket_of_openedBy {t : Token} (h : openedBy false t = some .list) :
    t = .openBracket := by
  cases t with
  | openBracket => rfl
  | bare word => simp [openedBy] at h
  | _ => cases h

/-- Outside of lists, as many definitions are closed as are opened. -/
lemma WellNested.countP_eq {inList : Bool} {ts : List Placed} (h : WellNested inList ts)
    (hout : inList = false) (hlists : ∀ t ∈ ts, t.token ≠ .openBracket) :
    (ts.map Placed.token).countP closesDefinition =
      (ts.map Placed.token).countP opensDefinition := by
  induction h with
  | nil => rfl
  | @plain inList t ts _ hopen hclose _ ih =>
    subst hout
    have hrest := ih rfl fun t ht => hlists t (by simp [ht])
    simpa [opensDefinition, closesDefinition, hopen, hclose] using hrest
  | @pair inList e o c inner ts ho hc _ _ ihinner ih =>
    subst hout
    have hrest := ih rfl fun t ht => hlists t (by simp [ht])
    have he : (e == .list) = false := by
      refine beq_eq_false_iff_ne.mpr ?_
      rintro rfl
      exact hlists o (by simp) (eq_openBracket_of_openedBy ho)
    rw [he] at hc
    have hinner := ihinner he fun t ht => hlists t (by simp [ht])
    have hoclose : closedBy false o.token = none := by
      cases hclose : closedBy false o.token with
      | none => rfl
      | some e' => simp [openedBy_of_closedBy hclose] at ho
    -- the two tokens of the pair count for one of each kind, or for none
    have hpair : ([o.token, c.token]).countP closesDefinition =
        ([o.token, c.token]).countP opensDefinition := by
      simp [List.countP_cons, opensDefinition, closesDefinition, ho, hc, hoclose,
        openedBy_of_closedBy hc]
    simp only [List.map_cons, List.map_append, List.countP_cons, List.countP_append,
      List.countP_nil] at hpair ⊢
    omega

/-- A bracket in the tokens of a text is one of its characters. -/
lemma Cuts.mem_of_openBracket {cs rest : List Char} {lexemes : List Lexeme}
    (h : Cuts cs lexemes rest) (hmem : Token.openBracket ∈ lexemes.filterMap Lexeme.token) :
    '[' ∈ cs := by
  induction h with
  | stop => simp at hmem
  | @step pattern text cs rest token lexemes hmunch htoken _ ih =>
    obtain ⟨lexeme, hlexeme, heq⟩ := List.mem_filterMap.mp hmem
    rcases List.mem_cons.mp hlexeme with rfl | hlexeme
    · obtain rfl : token = some .openBracket := heq
      cases htoken with
      | fixed =>
        have hknown : ∀ t ∈ Operator.all.map Token.operator ++ punctuation, t = .openBracket →
            t.spelling.toList = ['['] := by decide
        rcases Pattern.mem_patterns.mp hmunch.known with hp | ⟨t, ht, hp⟩
        · simp at hp
        · obtain ⟨rfl, rfl⟩ := Pattern.fixed.inj hp
          simp [hknown _ ht rfl]
    · exact List.mem_append_right _ (ih (List.mem_filterMap.mpr ⟨lexeme, hlexeme, heq⟩))

lemma closesDefinition_of_isEnd {e : List Char} (h : IsEnd e) :
    closesDefinition (.bare (String.ofList e)) = true := by
  have hsame : Text.sameLetters (String.ofList e) "end" = true := by
    rw [Text.sameLetters, String.toList_ofList, beq_iff_eq, show e.map Char.toLower = _ from h]
    decide
  simp [closesDefinition, closedBy, hsame]

lemma exists_map_token {s : String} {tokens : List Placed} (h : tokenize s = .ok tokens) :
    ∃ lexemes, Cuts s.toList lexemes [] ∧
      tokens.map Placed.token = lexemes.filterMap Lexeme.token ++ [.endOfText] := by
  obtain ⟨lexemes, hcuts, rfl⟩ := cuts_of_tokenize h
  refine ⟨lexemes, hcuts, ?_⟩
  rw [List.map_append, map_token_placed]
  rfl

/-- A text that closes one definition only has one line that ends in `end`, if it has no marks that
hide blanks. -/
lemma endsDefinition_of_countP {s : String} {tokens : List Placed} {init : List String}
    {last : String} (htokens : tokenize s = .ok tokens) (hlines : lines s = init ++ [last])
    (hlast : endsDefinition last = true) (hmarks : ∀ c ∈ s.toList, c ∉ hidingMarks)
    (hcount : (tokens.map Placed.token).countP closesDefinition ≤ 1) :
    ∀ l ∈ init, endsDefinition l = false := by
  intro l hl
  by_contra hend
  rw [Bool.not_eq_false] at hend
  obtain ⟨before, between, rfl⟩ := List.append_of_mem hl
  obtain ⟨lexemes, hcuts, hmap⟩ := exists_map_token htokens
  -- the text is cut at the earlier line first, and what is left at the last one
  have hfirst : linesFrom [] s.toList = before ++ l :: (between ++ [last]) := by
    rw [← lines, hlines]
    simp
  obtain ⟨first, second, e, gap, more, rfl, he, hcuts', hgap, hmem, hmore⟩ :=
    hcuts.exists_end (List.nil_append _).symm (by simp [EndsBlank]) hmarks hfirst hend
  obtain ⟨first', second', e', -, -, rfl, he', -⟩ :=
    hcuts'.exists_end rfl (endsBlank_of_forall hgap) (fun c hc => hmarks c (hmem c hc)) hmore hlast
  have htwo : 2 ≤ (tokens.map Placed.token).countP closesDefinition := by
    rw [hmap]
    simp [List.filterMap_append, List.countP_append, List.countP_cons,
      closesDefinition_of_isEnd he, closesDefinition_of_isEnd he']
    omega
  omega

/-- **When a dialogue hands a definition over whole.** Let a text form one definition, and let its
first line have `to` as its first word and its last line have `end` as its last.
* The lines of the text are run as one text, after the last line and not before, exactly if no
  earlier line has `end` as its last word.
* In any case, the lines up to the first one with `end` as its last word are run as one text.
* No earlier line has `end` as its last word if the text has no comments, continuation marks,
  backslashes and lists, and the word `to` only once. -/
theorem definition_handed_over {s : String} {tokens : List Placed} {name : String}
    {params : List String} {body : List Node} {line : Nat} {w : Vocabulary}
    (htokens : tokenize s = .ok tokens)
    (hread : Program.ofTokens tokens .standard = (.ok [.definition name params body line], w))
    (hstart : (lines s).head?.any startsDefinition = true)
    (hend : (lines s).getLast?.any endsDefinition = true) :
    (HandedOver (lines s) ↔ ∀ l ∈ (lines s).dropLast, endsDefinition l = false) ∧
    (∃ before l after, lines s = before ++ l :: after ∧ endsDefinition l = true ∧
      (∀ l ∈ before, endsDefinition l = false) ∧ blocks "" before = [] ∧
      blocks "" (lines s) = joined (before ++ [l]) :: blocks "" after) ∧
    ((∀ c ∈ s.toList, c ∉ [';', '~', '\\', '[']) →
      (tokens.map Placed.token).countP opensDefinition = 1 → HandedOver (lines s)) := by
  obtain ⟨last, hlast, hlastEnd⟩ := (Option.any_eq_true _ _).mp hend
  obtain ⟨init, hlines⟩ := List.getLast?_eq_some_iff.mp hlast
  have hiff := handedOver_iff hstart hend
  refine ⟨hiff, ?_, fun hmarks hcount => hiff.mpr ?_⟩
  · have hmem : last ∈ lines s := by simp [hlines]
    obtain ⟨before, l, after, heq, hl, hbefore⟩ := exists_first_end ⟨last, hmem, hlastEnd⟩
    have hopens : Opens "" (before ++ l :: after) := .inr (heq ▸ hstart)
    refine ⟨before, l, after, heq, hl, hbefore, blocks_of_collecting hopens hbefore, ?_⟩
    rw [heq, blocks_of_open hopens hbefore hl, String.empty_append]
  · rw [hlines, List.dropLast_concat]
    refine endsDefinition_of_countP htokens hlines hlastEnd (fun c hc hmark => ?_) ?_
    · exact hmarks c hc (List.mem_append_left ['['] hmark)
    · -- the tokens nest, so `end` stands as often as `to`
      obtain ⟨us, mark, rfl, hmark, hlexical⟩ := tokenize_lexical htokens
      have hnests : WellNested false us := by
        have hne : ∀ t ∈ us, t.token ≠ .endOfText := by
          intro t ht heq
          have hlexeme := hlexical t ht
          rw [heq] at hlexeme
          exact hlexeme
        have hmarkEnd : Grammar.isEnd [mark].head? = true := beq_iff_eq.mpr hmark
        rw [← beforeEnd_append hne hmarkEnd]
        exact (wellNested_of_read (us ++ [mark]) .standard).1 _ w hread
      have hlists : ∀ t ∈ us, t.token ≠ .openBracket := by
        intro t ht hbracket
        obtain ⟨lexemes, hcuts, hmap⟩ := exists_map_token htokens
        have hmem : Token.openBracket ∈ lexemes.filterMap Lexeme.token := by
          rw [List.map_append, List.map_singleton, hmark] at hmap
          rw [← List.append_cancel_right hmap, ← hbracket]
          exact List.mem_map_of_mem ht
        exact hmarks '[' (hcuts.mem_of_openBracket hmem) (by decide)
      have hequal := hnests.countP_eq rfl hlists
      simp only [List.map_append, List.map_singleton, hmark, List.countP_append] at hcount ⊢
      rw [hequal]
      exact hcount.le

/-- A definition over three lines without lists. -/
theorem definition_handed_over_plain :
    let s := "to say :x\n  print :x\nEnd"
    let tokens : List Placed := [⟨.bare "to", 1, 1⟩, ⟨.bare "say", 1, 4⟩, ⟨.reference "x", 1, 8⟩,
      ⟨.newline, 1, 0⟩, ⟨.bare "print", 2, 3⟩, ⟨.reference "x", 2, 9⟩, ⟨.newline, 2, 0⟩,
      ⟨.bare "End", 3, 1⟩, ⟨.endOfText, 3, 4⟩]
    let node : Node := .definition "say" ["x"] [.call "print" [.reference "x" 2] 2] 1
    let w := Vocabulary.standard.declare "say" (.fixed 1)
    tokenize s = .ok tokens ∧ Program.ofTokens tokens .standard = (.ok [node], w) ∧
      (lines s).head?.any startsDefinition = true ∧ (lines s).getLast?.any endsDefinition = true ∧
      HandedOver (lines s) := by
  intro s tokens node w
  have htokens : tokenize s = .ok tokens := by decide +kernel
  have hread : Program.ofTokens tokens .standard = (.ok [node], w) := rfl
  have hstart : (lines s).head?.any startsDefinition = true := by decide +kernel
  have hend : (lines s).getLast?.any endsDefinition = true := by decide +kernel
  refine ⟨htokens, hread, hstart, hend, ?_⟩
  exact (definition_handed_over htokens hread hstart hend).2.2
    (Text.forall_mem_of_all (by decide +kernel)) (by decide +kernel)

/-- A line of a list can end in `end`. Then the definition is cut off there, and what is left is run
line by line. -/
theorem definition_cut_off :
    let s := "to f\nprint [this is the end\nmy friend]\nend"
    let tokens : List Placed := [⟨.bare "to", 1, 1⟩, ⟨.bare "f", 1, 4⟩, ⟨.newline, 1, 0⟩,
      ⟨.bare "print", 2, 1⟩, ⟨.openBracket, 2, 7⟩, ⟨.bare "this", 2, 8⟩, ⟨.bare "is", 2, 13⟩,
      ⟨.bare "the", 2, 16⟩, ⟨.bare "end", 2, 20⟩, ⟨.newline, 2, 0⟩, ⟨.bare "my", 3, 1⟩,
      ⟨.bare "friend", 3, 4⟩, ⟨.closeBracket, 3, 10⟩, ⟨.newline, 3, 0⟩, ⟨.bare "end", 4, 1⟩,
      ⟨.endOfText, 4, 4⟩]
    let node : Node := .definition "f" [] [.call "print" [.list [.word "this" 2, .word "is" 2,
      .word "the" 2, .word "end" 2, .word "my" 3, .word "friend" 3] 2] 2] 1
    let w := Vocabulary.standard.declare "f" (.fixed 0)
    tokenize s = .ok tokens ∧ Program.ofTokens tokens .standard = (.ok [node], w) ∧
      (lines s).head?.any startsDefinition = true ∧ (lines s).getLast?.any endsDefinition = true ∧
      blocks "" (lines s) = ["to f\nprint [this is the end\n", "my friend]", "end"] ∧
      ¬ HandedOver (lines s) := by
  intro s tokens node w
  have htokens : tokenize s = .ok tokens := by decide +kernel
  have hread : Program.ofTokens tokens .standard = (.ok [node], w) := rfl
  have hblocks : blocks "" (lines s) = ["to f\nprint [this is the end\n", "my friend]", "end"] := by
    decide +kernel
  refine ⟨htokens, hread, by decide +kernel, by decide +kernel, hblocks, fun h => ?_⟩
  have hwhole := h.2 []
  rw [List.append_nil, hblocks] at hwhole
  simp [blocks] at hwhole

end Logo
