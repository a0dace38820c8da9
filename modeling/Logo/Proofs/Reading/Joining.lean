import Logo.Proofs.Lexing.LineEnds
import Logo.Proofs.Reading.Simulation

/-!
# Programs line by line

A text that forms a program can be read apart from the lines that come after it. The program of the
whole is the program of the first text, followed by the program of the other lines, which are read
with the vocabulary that the first text has left and whose lines are counted on from it. What makes
this true is that a complete program never looks past a line end: each reader that goes on at the
end of the text with a value goes on with the same value at a line end.

* `sequence_append`: the instructions of the first text, read with more lines behind them.
* `ofText_append_newline`: the statement for texts.
-/

namespace Logo

open Reader Likeness

variable {lineEnd : Placed} {more : List Placed} {ts us : List Placed} {v w : Vocabulary}

/-! ## Tokens -/

/-- On the right, a line end and more tokens stand in place of the end. -/
def Likeness.joined (lineEnd : Placed) (more : List Placed) (h : lineEnd.token = .newline) :
    Likeness where
  left := id
  right := id
  Knows := Eq
  Ends ts us := Grammar.isEnd ts.head? = true ∧ us = lineEnd :: more
  lenient := True
  left_mono := monotone_id
  right_mono := monotone_id
  arity_eq := by rintro v _ rfl name; rfl
  isBuiltin_eq := by rintro v _ rfl name; rfl
  knows_declare := by rintro v _ rfl name arity; rfl
  isEnd_left h := h.1
  isEnd_right hends := .inr ⟨trivial, lineEnd, more, hends.2, h⟩

lemma alike_joined (h : lineEnd.token = .newline) {mark : Placed} (hmark : mark.token = .endOfText)
    (hts : ∀ t ∈ ts, t.token ≠ .endOfText) :
    (joined lineEnd more h).Alike (ts ++ [mark]) (ts ++ lineEnd :: more) := by
  induction ts with
  | nil => exact .ended ⟨isEnd_cons.mpr hmark, rfl⟩
  | cons t ts ih =>
    have hts' : ∀ u ∈ ts, u.token ≠ .endOfText := fun u hu => hts u (List.mem_cons_of_mem _ hu)
    exact .cons (hts t List.mem_cons_self) rfl rfl (ih hts')

/-- The result of a sequence with more instructions in front. -/
def Reader.Result.prepend (p : Program) : Result Program → Result Program
  | .done q rest v => .done (p ++ q) rest v
  | .failed e v => .failed e v
  | .exhausted => .exhausted

lemma closes_text (token : Token) : Grammar.Closer.text.closes token = false := by
  cases token <;> rfl

lemma prepend_nil (result : Result Program) : result.prepend [] = result := by
  cases result <;> rfl

lemma prepend_cons {r : Reader Program} {result : Result Program} {node : Node} {nodes : Program}
    (h : r ts v = result.prepend nodes) :
    (r >>= fun nodes => give (node :: nodes)) ts v = result.prepend (node :: nodes) := by
  simp only [bind, andThen, h]
  cases result <;> rfl

lemma sequence_dropSeparators (b : Nat) (closer : Grammar.Closer) (ts : List Placed) :
    Grammar.sequence b closer (dropSeparators ts) v = Grammar.sequence b closer ts v := by
  cases b with
  | zero => rfl
  | succ b =>
    simp only [Grammar.sequence, bind, andThen, skipSeparators_dropSeparators]

lemma sequence_lineEnd (h : lineEnd.token = .newline) (b : Nat) (closer : Grammar.Closer) :
    Grammar.sequence b closer (lineEnd :: ts) v = Grammar.sequence b closer ts v := by
  rw [← sequence_dropSeparators, ← sequence_dropSeparators b closer ts]
  simp [dropSeparators, h, Token.isSeparator]

/-- The instructions before a line end are read as if the text ended there, and those after it with
the vocabulary that they leave. -/
theorem sequence_append (h : lineEnd.token = .newline) {b b' : Nat} (hb : b ≤ b') {p : Program}
    {rest : List Placed} (ht : (joined lineEnd more h).Alike ts us)
    (hres : Grammar.sequence b .text ts v = .done p rest w) :
    ∃ c, Grammar.sequence b' .text us v = (Grammar.sequence c .text more w).prepend p := by
  induction b generalizing b' p ts us v with
  | zero => simp [Grammar.sequence, giveUp] at hres
  | succ b ih =>
    obtain ⟨b', rfl⟩ : ∃ n, b' = n + 1 := ⟨b' - 1, by omega⟩
    -- no instruction is left: all that follows belongs to the other lines
    have hlast : Grammar.isEnd (dropSeparators ts).head? = true →
        dropSeparators us = dropSeparators (lineEnd :: more) →
        ∃ c, Grammar.sequence (b' + 1) .text us v =
          (Grammar.sequence c .text more w).prepend p := by
      intro hend hus
      rw [Grammar.sequence_of_isEnd hend] at hres
      obtain ⟨rfl, -, rfl⟩ := Result.done.inj hres
      refine ⟨b' + 1, ?_⟩
      rw [← sequence_dropSeparators, hus, sequence_dropSeparators, sequence_lineEnd h, prepend_nil]
    rcases ht.dropSeparators with halike | ⟨-, us', hends, hus⟩
    · generalize hts : dropSeparators ts = ts', hus : dropSeparators us = us' at halike hlast
      cases halike with
      | ended hends =>
        refine hlast hends.1 ?_
        rw [← hends.2, ← hus, dropSeparators_idem]
      | @cons t u ts' us' hne htoken hline hrest =>
        -- the next instruction is the same with and without the other lines
        rw [Grammar.sequence_cons hts hne, closes_text, if_neg Bool.false_ne_true] at hres
        obtain ⟨node, ts₁, v₁, hnode, hres⟩ := exists_of_bind_eq_done hres
        obtain ⟨nodes, _, _, hnodes, hres⟩ := exists_of_bind_eq_done hres
        obtain ⟨rfl, rfl, rfl⟩ := Result.done.inj hres
        have hsim := (Grammar.simulates _ b).expression b' (Nat.le_of_succ_le_succ hb) 0
          (.cons hne htoken hline hrest) (rfl : v = v)
        rw [hnode] at hsim
        obtain ⟨node', us₁, _, hnode', hsame, hrest₁, rfl⟩ := hsim
        obtain rfl : node = node' := by simpa [SameNode, joined, Node.mapLines_id] using hsame
        obtain ⟨c, hc⟩ := ih (Nat.le_of_succ_le_succ hb) hrest₁ hnodes
        refine ⟨c, ?_⟩
        rw [Grammar.sequence_cons hus (htoken ▸ hne), closes_text, if_neg Bool.false_ne_true,
          bind_of_done hnode']
        exact prepend_cons hc
    · exact hlast hends.1 (hus.trans (congrArg dropSeparators hends.2))

/-- The tokens of a program, a line end, and more tokens. -/
theorem ofTokens_append {mark : Placed} {v₁ : Vocabulary} {p : Program}
    (hts : ∀ t ∈ ts, t.token ≠ .endOfText) (hmark : mark.token = .endOfText)
    (hline : lineEnd.token = .newline)
    (h : Program.ofTokens (ts ++ [mark]) v = (.ok p, v₁)) (more : List Placed) :
    Program.ofTokens (ts ++ lineEnd :: more) v =
      ((Program.ofTokens more v₁).1.map (p ++ ·), (Program.ofTokens more v₁).2) := by
  -- a program was formed, so the reader of sequences has given a value
  have hdone : ∃ rest, Grammar.sequence (Program.bound (ts ++ [mark])) .text (ts ++ [mark]) v =
      .done p rest v₁ := by
    rw [Program.ofTokens_eq_ofResult] at h
    cases hres : Grammar.sequence (Program.bound (ts ++ [mark])) .text (ts ++ [mark]) v with
    | done q rest w =>
      rw [hres] at h
      obtain ⟨hq, rfl⟩ := Prod.mk.inj h
      exact ⟨rest, by rw [Except.ok.inj hq]⟩
    | failed e w => simp [hres, Program.ofResult] at h
    | exhausted => simp [hres, Program.ofResult] at h
  obtain ⟨rest, hdone⟩ := hdone
  have hbound : Program.bound (ts ++ [mark]) ≤ Program.bound (ts ++ lineEnd :: more) := by
    simp only [Program.bound, List.length_append, List.length_cons, List.length_nil]
    omega
  obtain ⟨c, hc⟩ := sequence_append hline hbound (alike_joined hline hmark hts) hdone
  have henough :=
    sequence_ne_exhausted (Nat.le_refl (Program.bound (ts ++ lineEnd :: more))) .text v
  have hrest : Grammar.sequence c .text more v₁ ≠ .exhausted := by
    intro hres
    rw [hc, hres] at henough
    exact henough rfl
  rw [Program.ofTokens_eq henough, Program.ofTokens_eq hrest, hc]
  cases hres : Grammar.sequence c .text more v₁ with
  | done q rest w => rfl
  | failed e w => rfl
  | exhausted => exact absurd hres hrest

/-! ## Texts -/

/-- The right-hand list stands `n` lines further down. -/
def Likeness.down (n : Nat) : Likeness :=
  lines (· + n) id id (fun _ _ h => Nat.add_le_add_right h n) monotone_id

/-- Tokens that are moved down stay alike. -/
lemma alike_down (n : Nat) (hts : ∃ t ∈ ts, t.token = .endOfText) :
    (Likeness.down n).Alike ts (ts.map (Placed.mapLine (· + n))) := by
  induction ts with
  | nil => simp at hts
  | cons t ts ih =>
    by_cases ht : t.token = .endOfText
    · exact .ended ⟨isEnd_cons.mpr ht, isEnd_cons.mpr ht, rfl⟩
    · obtain ⟨t', hmem, ht'⟩ := hts
      rcases List.mem_cons.mp hmem with rfl | hmem
      · exact absurd ht' ht
      · exact .cons ht rfl rfl (ih ⟨t', hmem, ht'⟩)

/-- **A program and the lines after it.** If a text forms a program, the text with further lines
forms that program, followed by what those lines form under the vocabulary that the text leaves,
with all lines counted on. If they form no program, the whole does not either, for the same reason
on a line counted on. -/
theorem ofText_append_newline {a : String} {v v₁ : Vocabulary} {p : Program}
    (h : Program.ofText a v = (.ok p, v₁)) (b : String) :
    (∀ q v₂, Program.ofText b v₁ = (.ok q, v₂) →
      Program.ofText (a ++ "\n" ++ b) v =
        (.ok (p ++ Program.mapLines (· + (1 + a.toList.count '\n')) q), v₂)) ∧
    (∀ e v₂, Program.ofText b v₁ = (.error e, v₂) →
      (Program.ofText (a ++ "\n" ++ b) v).1 =
        .error (e.mapLine (· + (1 + a.toList.count '\n')))) := by
  cases hatokens : tokenize a with
  | error e => simp [Program.ofText, hatokens] at h
  | ok tokens =>
    obtain ⟨body, lineEnd, mark, rfl, hmark, hline, hbody, hwhole⟩ :=
      tokenize_append_newline hatokens b
    have hends : ∀ t ∈ body, t.token ≠ .endOfText := by
      intro t ht heq
      exact absurd (hbody t ht) (by simp [heq, Token.Lexical])
    simp only [Program.ofText, hatokens] at h
    generalize 1 + a.toList.count '\n' = n at hwhole ⊢
    cases hbtokens : tokenize b with
    | error e =>
      -- the other lines have no tokens, and then the whole has none
      simp only [hbtokens, Scanned.down, Except.map] at hwhole
      simp only [Program.ofText, hbtokens, hwhole]
      constructor
      · simp
      · rintro _ _ ⟨⟩
        rfl
    | ok ts =>
      -- in the whole text the other lines are read as they are alone, only further down
      obtain ⟨body', mark', rfl, hmark', -⟩ := tokenize_lexical hbtokens
      have hends' : ∃ t ∈ body' ++ [mark'], t.token = .endOfText := ⟨mark', by simp, hmark'⟩
      have hsame := sameRead_ofTokens (k := Likeness.down n) id (alike_down n hends')
        (rfl : v₁.mapLines id = v₁.mapLines id)
      simp only [hbtokens, Scanned.down, Except.map] at hwhole
      simp only [Program.ofText, hbtokens, hwhole]
      rw [ofTokens_append hends hmark hline h]
      generalize Program.ofTokens (List.map _ (body' ++ [mark'])) v₁ = moved at hsame ⊢
      constructor
      · intro q v₂ hq
        rw [hq] at hsame
        obtain ⟨_ | q', w⟩ := moved
        · exact absurd hsame id
        · obtain ⟨hq', hw⟩ := hsame
          have hq'' : Program.mapLines (· + n) q = q' := hq'.trans (Program.mapLines_id q')
          obtain rfl : v₂ = w := by
            simpa only [Likeness.down, lines, Vocabulary.mapLines_id] using hw
          rw [hq'']
          rfl
      · intro e v₂ he
        rw [he] at hsame
        obtain ⟨e' | q', w⟩ := moved
        · have he' : e.mapLine (· + n) = e' := hsame.1.trans (ParseError.mapLine_id e')
          rw [he']
          rfl
        · exact absurd hsame id

/-- A procedure can be called in the lines after its definition, and a mistake there is reported on
the line that it has in the whole text. -/
theorem ofText_append_newline_call :
    Program.ofText "to f end" .empty =
      (.ok [.definition "f" [] [] 1], Vocabulary.empty.declare "f" (.fixed 0)) ∧
    Program.ofText ("to f end" ++ "\n" ++ "f") .empty =
      (.ok [.definition "f" [] [] 1, .call "f" [] 2], Vocabulary.empty.declare "f" (.fixed 0)) ∧
    (Program.ofText ("to f end" ++ "\n" ++ "\n)") .empty).1 = .error (.unexpectedToken ")" 3) := by
  have hfirst : tokenize "to f end" =
      .ok [⟨.bare "to", 1, 1⟩, ⟨.bare "f", 1, 4⟩, ⟨.bare "end", 1, 6⟩, ⟨.endOfText, 1, 9⟩] := by
    decide +kernel
  have hsecond : tokenize "f" = .ok [⟨.bare "f", 1, 1⟩, ⟨.endOfText, 1, 2⟩] := by decide +kernel
  have hto : Grammar.Opening.ofWord "to" = .definition := by decide +kernel
  have hf : Grammar.Opening.ofWord "f" = .call := by decide +kernel
  have hname : Text.lower "f" = "f" ∧ Grammar.isKeyword "f" = false := by decide +kernel
  have hend : Text.sameLetters "end" "end" = true := by decide +kernel
  have hread : Program.ofText "to f end" .empty =
        (.ok [.definition "f" [] [] 1], Vocabulary.empty.declare "f" (.fixed 0)) ∧
      Program.ofText "f" (Vocabulary.empty.declare "f" (.fixed 0)) =
        (.ok [.call "f" [] 1], Vocabulary.empty.declare "f" (.fixed 0)) := by
    constructor <;>
      simp [Program.ofText, hfirst, hsecond, Program.ofTokens, Program.bound, Grammar.sequence,
        Grammar.expression, Grammar.operand, Grammar.operators, Grammar.inputs, bind, pure,
        andThen, give, next, peek, skipSeparators, Reader.vocabulary, declare, Token.isSeparator,
        Grammar.Closer.closes, Grammar.Closer.atEnd, Grammar.definition, Grammar.definedName,
        Grammar.params, Grammar.paramName?, Grammar.call, hto, hf, hname, hend,
        Vocabulary.isBuiltin, Vocabulary.callable?, Vocabulary.arity?, Vocabulary.empty,
        Vocabulary.declare, Dictionary.empty, Dictionary.find?, Dictionary.insert]
  refine ⟨hread.1, (ofText_append_newline hread.1 "f").1 _ _ hread.2, ?_⟩
  exact (ofText_append_newline hread.1 "\n)").2 (.unexpectedToken ")" 2) _ rfl

end Logo
