import Logo.Proofs.Reading.Nesting

/-!
# The end of the text

A text can end in two ways: the tokens run out, or the mark of the end comes next. The readers ask
for the end in many places, some before they take a token and some after it. This file puts one end
in the place of another and shows that no reader can tell the two apart, but for the line on which
it says that the text has ended too early. Nothing after the mark of the end is ever looked at.

Other than in the comparison of alike tokens, all that has been read is the same on both sides, with
its lines, and also the vocabulary.

* `EndError`: the one difference between two ends.
* `Reader.Blind`: the reader does not tell two ends apart.
* `Grammar.BlindReaders`: the five readers that call each other.
* `ofTokens_endOfText`: whole programs.
-/

namespace Logo

open Reader Likeness Grammar

variable {α β : Type} {ts tail tail' : List Placed} {v : Vocabulary} {line : Nat}

/-! ## Two ends -/

/-- Both lists are over, or start with the mark of the end. -/
structure Ends (tail tail' : List Placed) : Prop where
  left : isEnd tail.head? = true
  right : isEnd tail'.head? = true

/-- The same error, or that of a text which ends too early. Its line is that of the end, if it is
not behind the line of what had begun. -/
inductive EndError (line line' : Nat) : ParseError → ParseError → Prop
  | same (e : ParseError) : EndError line line' e e
  | early (l : Nat) :
      EndError line line' (.unexpectedEnd (max line l)) (.unexpectedEnd (max line' l))

/-- The results are the same with one end or the other after the tokens that are left. -/
inductive Reader.Result.SameUpToEnd (tail tail' : List Placed) : Result α → Result α → Prop
  | done (a : α) (ts : List Placed) (v : Vocabulary) :
      SameUpToEnd tail tail' (.done a (ts ++ tail) v) (.done a (ts ++ tail') v)
  | failed {e e' : ParseError} (v : Vocabulary) : EndError (lineOf tail) (lineOf tail') e e' →
      SameUpToEnd tail tail' (.failed e v) (.failed e' v)
  | exhausted : SameUpToEnd tail tail' .exhausted .exhausted

/-- The reader gives the same results with one end or the other. -/
def Reader.Blind (tail tail' : List Placed) (r : Reader α) : Prop :=
  ∀ ts v, Result.SameUpToEnd tail tail' (r (ts ++ tail) v) (r (ts ++ tail') v)

lemma Reader.Result.SameUpToEnd.same (e : ParseError) (v : Vocabulary) :
    SameUpToEnd tail tail' (.failed e v : Result α) (.failed e v) := .failed v (.same e)

lemma endsInputs_of_isEnd (h : isEnd ts.head? = true) : endsInputs ts.head? = true := by
  rcases ts with _ | ⟨t, ts⟩
  · rfl
  · simp [endsInputs, isEnd_cons.mp h]

/-- At the end, no other token comes next. -/
lemma head_ne_of_isEnd (h : isEnd ts.head? = true) {token : Token} (hne : token ≠ .endOfText) :
    ts.head?.map Placed.token ≠ some token := by
  rcases ts with _ | ⟨t, ts⟩
  · simp
  · simpa [isEnd_cons.mp h] using hne.symm

/-- Separators before the end do not reach into it. -/
lemma dropSeparators_append_of_isEnd (h : isEnd tail.head? = true) (ts : List Placed) :
    dropSeparators (ts ++ tail) = dropSeparators ts ++ tail := by
  have htail := dropSeparators_of_isEnd h
  unfold dropSeparators at htail ⊢
  rw [List.dropWhile_append]
  split
  · next hnil => rw [List.isEmpty_iff.mp hnil, htail, List.nil_append]
  · rfl

namespace Reader.Blind

lemma give (a : α) : (Reader.give a).Blind tail tail' := fun ts v => .done a ts v

lemma fail (e : ParseError) : (Reader.fail e : Reader α).Blind tail tail' :=
  fun _ v => .same e v

lemma giveUp : (Reader.giveUp : Reader α).Blind tail tail' := fun _ _ => .exhausted

/-- Readers one after the other. -/
lemma bind {r : Reader α} {next : α → Reader β} (h : r.Blind tail tail')
    (hnext : ∀ a, (next a).Blind tail tail') : (r >>= next).Blind tail tail' := by
  intro ts v
  have hfirst := h ts v
  show Result.SameUpToEnd tail tail' (andThen r next _ v) (andThen r next _ v)
  unfold andThen
  generalize r (ts ++ tail) v = result, r (ts ++ tail') v = result' at hfirst
  cases hfirst with
  | done a ts v => exact hnext a ts v
  | failed v he => exact .failed v he
  | exhausted => exact .exhausted

/-- A reader that starts with a token, if it is blind at the end and after each token. -/
lemma next_bind {body : Option Placed → Reader α}
    (hend : ∀ v, Result.SameUpToEnd tail tail' ((next >>= body) tail v) ((next >>= body) tail' v))
    (hsome : ∀ t, (body (some t)).Blind tail tail') : (next >>= body).Blind tail tail' := by
  intro ts v
  rcases ts with _ | ⟨t, ts⟩
  · exact hend v
  · exact hsome t ts v

lemma vocabulary : Reader.vocabulary.Blind tail tail' := fun ts v => .done v ts v

lemma declare (name : String) (arity : Arity) :
    (Reader.declare name arity).Blind tail tail' :=
  fun ts v => .done () ts (v.declare name arity)

end Reader.Blind

namespace Grammar

/-! ## Readers that are made of others -/

section

variable (h : Ends tail tail')
include h

lemma blind_params : params.Blind tail tail' := by
  have hnone : ∀ {ts : List Placed}, isEnd ts.head? = true →
      ∀ t ∈ ts.head?, paramName? t = none := by
    intro ts hend t ht
    rw [Option.mem_def.mp ht] at hend
    have htoken : t.token = .endOfText := by simpa [isEnd] using hend
    simp [paramName?, htoken]
  intro ts
  induction ts with
  | nil =>
    intro v
    rw [List.nil_append, List.nil_append, params_of_head (hnone h.left),
      params_of_head (hnone h.right)]
    exact .done [] [] v
  | cons t ts ih =>
    intro v
    rw [List.cons_append, List.cons_append]
    cases ht : paramName? t with
    | none =>
      rw [params_of_head (by simpa using ht), params_of_head (by simpa using ht)]
      exact .done [] (t :: ts) v
    | some name =>
      rw [params_cons ht, params_cons ht]
      have hparams := ih v
      simp only [bind, andThen]
      generalize params (ts ++ tail) v = result, params (ts ++ tail') v = result' at hparams
      cases hparams with
      | done names ts v => exact .done (name :: names) ts v
      | failed v he => exact .failed v he
      | exhausted => exact .exhausted

lemma blind_definedName (line : Nat) : (definedName line).Blind tail tail' := by
  intro ts v
  rcases ts with _ | ⟨⟨token, l, c⟩, ts⟩
  · rw [List.nil_append, List.nil_append, definedName_of_isEnd h.left,
      definedName_of_isEnd h.right]
    exact .same _ v
  · rw [List.cons_append, List.cons_append]
    cases token with
    | bare word =>
      rw [definedName_bare, definedName_bare]
      split
      · exact .same _ v
      · exact .done _ ts v
    | _ => exact .same _ v

lemma blind_closing (node : Node) : (closing line node).Blind tail tail' := by
  intro ts v
  unfold closing
  rw [dropSeparators_append_of_isEnd h.left, dropSeparators_append_of_isEnd h.right]
  rcases dropSeparators ts with _ | ⟨t, ts⟩
  · have hne : Token.closeParen ≠ .endOfText := nofun
    rw [List.nil_append, List.nil_append, if_neg (head_ne_of_isEnd h.left hne),
      if_neg (head_ne_of_isEnd h.right hne)]
    exact .same _ v
  · rw [List.cons_append, List.cons_append, List.head?_cons, List.head?_cons]
    split
    · exact .done node ts v
    · exact .same _ v

lemma blind_group {x : Reader Node} {xs : Closer → Reader (List Node)} (hx : x.Blind tail tail')
    (hxs : (xs (.paren line)).Blind tail tail') : (group x xs line).Blind tail tail' := by
  have henclosed : (group.enclosed x line).Blind tail tail' := by
    rw [enclosed_eq]
    exact hx.bind fun node => blind_closing h node
  intro ts v
  have hskip : ∀ ts, group x xs line ts v = group x xs line (dropSeparators ts) v := fun ts =>
    (group_dropSeparators x xs).symm
  rw [hskip (ts ++ tail), hskip (ts ++ tail'), dropSeparators_append_of_isEnd h.left,
    dropSeparators_append_of_isEnd h.right]
  have hidem : dropSeparators (dropSeparators ts) = dropSeparators ts := dropSeparators_idem
  generalize dropSeparators ts = ts at hidem
  have hother : (∀ name, ts.head?.map Placed.token ≠ some (.bare name)) →
      Result.SameUpToEnd tail tail' (group x xs line (ts ++ tail) v)
        (group x xs line (ts ++ tail') v) := by
    intro hbare
    have hend : ∀ {tail : List Placed}, isEnd tail.head? = true →
        group x xs line (ts ++ tail) v = group.enclosed x line (ts ++ tail) v := by
      intro tail htail
      refine group_other ?_ fun name => ?_
      · rw [dropSeparators_append_of_isEnd htail, hidem]
      · rcases ts with _ | ⟨t, ts⟩
        · exact head_ne_of_isEnd htail nofun
        · exact hbare name
    rw [hend h.left, hend h.right]
    exact henclosed ts v
  rcases ts with _ | ⟨⟨token, l, c⟩, ts⟩
  · exact hother (by simp)
  cases token with
  | bare name =>
    rw [List.cons_append, List.cons_append, group_bare, group_bare]
    split
    · exact henclosed (⟨.bare name, l, c⟩ :: ts) v
    split
    · exact .same _ v
    · exact hxs.bind (fun inputs => .give _) ts v
  | _ => exact hother (by simp)

lemma blind_listFrom (items : List Node) (outer : List (Nat × List Node)) :
    (listFrom line items outer).Blind tail tail' := by
  intro ts v
  -- one token at a time, with what has been read of the lists in the hypothesis
  induction ts generalizing line items outer with
  | nil =>
    rw [List.nil_append, List.nil_append, listFrom_of_isEnd h.left, listFrom_of_isEnd h.right]
    exact .same _ v
  | cons t ts ih =>
    obtain ⟨token, l, c⟩ := t
    cases token with
    | endOfText => exact .same _ v
    | closeBracket =>
      cases outer with
      | nil => exact .done _ ts v
      | cons list outer => exact ih _ _
    | _ => exact ih _ _

lemma blind_definition {xs : Closer → Reader (List Node)}
    (hxs : ∀ closer, (xs closer).Blind tail tail') : (definition xs line).Blind tail tail' :=
  (blind_definedName h line).bind fun _ => (blind_params h).bind fun _ =>
    (Blind.declare _ _).bind fun _ => (hxs _).bind fun _ => .give _

/-- Where a branch is missing, the line of the end counts if it is not behind that of the
conditional. -/
lemma blind_branch {x : Reader Node} (hx : x.Blind tail tail') :
    (branch x line).Blind tail tail' := by
  intro ts v
  rw [branch_eq, branch_eq]
  rcases ts with _ | ⟨t, ts⟩
  · rw [List.nil_append, List.nil_append, if_pos h.left, if_pos h.right]
    exact .failed v (.early line)
  · rw [List.cons_append, List.cons_append, List.head?_cons, List.head?_cons]
    split
    · exact .same _ v
    · exact hx (t :: ts) v

lemma blind_conditional {x : Reader Node} (hx : x.Blind tail tail') (form : ConditionalForm) :
    (conditional x form line).Blind tail tail' := by
  refine (blind_branch h hx).bind fun condition => (blind_branch h hx).bind fun thenBranch => ?_
  cases form with
  | oneBranch => exact .give _
  | twoBranches => exact (blind_branch h hx).bind fun elseBranch => .give _

omit h in
lemma blind_call {xs : Nat → Reader (List Node)} (hxs : ∀ count, (xs count).Blind tail tail')
    (name : String) : (call xs name line).Blind tail tail' := by
  refine Blind.vocabulary.bind fun v => ?_
  split
  · exact (hxs _).bind fun nodes => .give _
  · exact .fail _
  · exact .fail _

omit h in
lemma blind_atEnd (closer : Closer) : closer.atEnd.Blind tail tail' := by
  cases closer with
  | text => exact .give []
  | paren line => exact .fail _
  | definition name line => exact .fail _

end

/-! ## The mutual recursion -/

/-- The five readers with a bound do not tell the ends apart. -/
structure BlindReaders (tail tail' : List Placed) (bound : Nat) : Prop where
  expression : ∀ floor, (expression bound floor).Blind tail tail'
  operators : ∀ floor left, (operators bound floor left).Blind tail tail'
  operand : (operand bound).Blind tail tail'
  sequence : ∀ closer, (sequence bound closer).Blind tail tail'
  inputs : ∀ count, (inputs bound count).Blind tail tail'

namespace BlindReaders

variable {bound : Nat} (h : Ends tail tail') (ih : BlindReaders tail tail' bound)
include h ih

lemma operators_succ (floor : Nat) (left : Node) :
    (Grammar.operators (bound + 1) floor left).Blind tail tail' := by
  intro ts v
  rcases ts with _ | ⟨⟨token, l, c⟩, ts⟩
  · rw [List.nil_append, List.nil_append,
      operators_other fun op => head_ne_of_isEnd h.left nofun,
      operators_other fun op => head_ne_of_isEnd h.right nofun]
    exact .done left [] v
  · rw [List.cons_append, List.cons_append]
    cases token with
    | operator op =>
      rw [operators_operator, operators_operator]
      split
      · exact (ih.expression _).bind (fun right => ih.operators floor _) ts v
      · exact .done left (_ :: ts) v
    | _ =>
      rw [operators_other (by simp), operators_other (by simp)]
      exact .done left (_ :: ts) v

lemma operand_succ : (Grammar.operand (bound + 1)).Blind tail tail' := by
  have hend : ∀ v, Result.SameUpToEnd tail tail' (Grammar.operand (bound + 1) tail v)
      (Grammar.operand (bound + 1) tail' v) := by
    intro v
    rw [operand_of_isEnd h.left, operand_of_isEnd h.right, ← Nat.max_zero (lineOf tail),
      ← Nat.max_zero (lineOf tail')]
    exact .failed v (.early 0)
  have hexpression := ih.expression 0
  rw [Grammar.operand] at hend ⊢
  refine .next_bind hend fun t => ?_
  obtain ⟨token, l, c⟩ := t
  cases token with
  | number text =>
    dsimp only
    split
    · exact .give _
    · exact .fail _
  | word text => exact .give _
  | reference name => exact .give _
  | operator op =>
    cases op with
    | sub => exact ih.operand.bind fun node => .give _
    | _ => exact .fail _
  | openParen => exact blind_group h hexpression (ih.sequence _)
  | openBracket => exact blind_listFrom h [] []
  | bare word =>
    dsimp only
    split
    · exact blind_definition h ih.sequence
    · exact blind_conditional h hexpression _
    · exact .give _
    · exact .fail _
    · exact blind_call ih.inputs word
  | _ => exact .fail _

lemma sequence_succ (closer : Closer) :
    (Grammar.sequence (bound + 1) closer).Blind tail tail' := by
  intro ts v
  have hleft := dropSeparators_append_of_isEnd h.left ts
  have hright := dropSeparators_append_of_isEnd h.right ts
  rcases hts : dropSeparators ts with _ | ⟨t, ts'⟩
  · rw [hts, List.nil_append] at hleft hright
    rw [sequence_of_isEnd (by rw [hleft, h.left]), sequence_of_isEnd (by rw [hright, h.right]),
      hleft, hright]
    exact blind_atEnd closer [] v
  · rw [hts, List.cons_append] at hleft hright
    by_cases hend : t.token = .endOfText
    · rw [sequence_of_isEnd (by rw [hleft, isEnd_cons.mpr hend]),
        sequence_of_isEnd (by rw [hright, isEnd_cons.mpr hend]), hleft, hright]
      exact blind_atEnd closer (t :: ts') v
    · rw [sequence_cons hleft hend, sequence_cons hright hend]
      split
      · exact .done [] ts' v
      · exact (ih.expression 0).bind (fun node => (ih.sequence closer).bind fun nodes => .give _)
          (t :: ts') v

lemma inputs_succ (count : Nat) : (Grammar.inputs (bound + 1) count).Blind tail tail' := by
  cases count with
  | zero => exact .give []
  | succ count =>
    intro ts v
    rw [Grammar.inputs_succ, Grammar.inputs_succ]
    rcases ts with _ | ⟨t, ts⟩
    · rw [List.nil_append, List.nil_append, if_pos (endsInputs_of_isEnd h.left),
        if_pos (endsInputs_of_isEnd h.right)]
      exact .done [] [] v
    · rw [List.cons_append, List.cons_append, List.head?_cons, List.head?_cons]
      split
      · exact .done [] (t :: ts) v
      · exact (ih.expression 0).bind (fun node => (ih.inputs count).bind fun nodes => .give _)
          (t :: ts) v

omit ih in
/-- No reader of the grammar tells the ends apart. -/
lemma all (bound : Nat) : BlindReaders tail tail' bound := by
  induction bound with
  | zero => exact ⟨fun _ => .giveUp, fun _ _ => .giveUp, .giveUp, fun _ => .giveUp,
      fun _ => .giveUp⟩
  | succ bound ih =>
    exact ⟨fun floor => ih.operand.bind fun left => ih.operators floor left, ih.operators_succ h,
      ih.operand_succ h, ih.sequence_succ h, ih.inputs_succ h⟩

end BlindReaders

end Grammar

/-! ## Programs -/

/-- One end in the place of another: the same program, or the same error up to the line of a text
that ends too early, and the same vocabulary. -/
theorem Program.ofTokens_change_end (h : Ends tail tail') (ts : List Placed) (v : Vocabulary) :
    (∃ program w, ofTokens (ts ++ tail) v = (.ok program, w) ∧
      ofTokens (ts ++ tail') v = (.ok program, w)) ∨
    ∃ e e' w, ofTokens (ts ++ tail) v = (.error e, w) ∧ ofTokens (ts ++ tail') v = (.error e', w) ∧
      EndError (lineOf tail) (lineOf tail') e e' := by
  -- one bound that is enough for both
  let b := max (bound (ts ++ tail)) (bound (ts ++ tail'))
  have hleft : sequence b .text (ts ++ tail) v ≠ .exhausted :=
    sequence_ne_exhausted (Nat.le_max_left _ _) .text v
  have hright : sequence b .text (ts ++ tail') v ≠ .exhausted :=
    sequence_ne_exhausted (Nat.le_max_right _ _) .text v
  have hsame := (BlindReaders.all h b).sequence .text ts v
  rw [ofTokens_eq hleft, ofTokens_eq hright]
  generalize sequence b .text (ts ++ tail) v = result, sequence b .text (ts ++ tail') v = result'
    at hsame hleft
  cases hsame with
  | done program rest w => exact .inl ⟨program, w, rfl, rfl⟩
  | failed w he => exact .inr ⟨_, _, w, rfl, rfl, he⟩
  | exhausted => exact absurd rfl hleft

/-- A program that has been read is that of the tokens before the mark of the end. -/
lemma Program.ofTokens_beforeEnd {tokens : List Placed} {program : Program} {w : Vocabulary}
    (h : ofTokens tokens v = (.ok program, w)) :
    ofTokens (beforeEnd tokens) v = (.ok program, w) := by
  have hsplit : tokens = beforeEnd tokens ++ tokens.dropWhile fun t => t.token != .endOfText :=
    (List.takeWhile_append_dropWhile ..).symm
  have hend : isEnd (tokens.dropWhile fun t => t.token != .endOfText).head? = true := by
    have hhead := List.head?_dropWhile_not (fun t : Placed => t.token != .endOfText) tokens
    cases hfirst : (tokens.dropWhile fun t => t.token != .endOfText).head? with
    | none => rfl
    | some t => simpa [hfirst, isEnd] using hhead
  have hends : Ends (tokens.dropWhile fun t => t.token != .endOfText) [] := ⟨hend, rfl⟩
  rcases ofTokens_change_end hends (beforeEnd tokens) v with
    ⟨program', w', hleft, hright⟩ | ⟨e, e', w', hleft, -⟩
  · rw [← hsplit, h] at hleft
    rw [List.append_nil, ← hleft] at hright
    exact hright
  · rw [← hsplit, h] at hleft
    cases hleft

/-- **The end of a text is treated alike wherever it comes.**
* Tokens after the mark of the end have no say, neither in the program or the error nor in the
  vocabulary.
* Tokens that run out form the same program as with the mark of the end after them, or none for the
  same reason, and leave the same vocabulary. Only if the text has ended too early, the line of the
  mark counts, where it is not behind the line of what had begun. -/
theorem ofTokens_endOfText (ts rest : List Placed) (line column : Nat) (v : Vocabulary) :
    Program.ofTokens (ts ++ [⟨.endOfText, line, column⟩] ++ rest) v =
      Program.ofTokens (ts ++ [⟨.endOfText, line, column⟩]) v ∧
    ((∃ program w, Program.ofTokens ts v = (.ok program, w) ∧
        Program.ofTokens (ts ++ [⟨.endOfText, line, column⟩]) v = (.ok program, w)) ∨
      ∃ e e' w, Program.ofTokens ts v = (.error e, w) ∧
        Program.ofTokens (ts ++ [⟨.endOfText, line, column⟩]) v = (.error e', w) ∧
        (e' = e ∨ ∃ l, e = .unexpectedEnd l ∧ e' = .unexpectedEnd (max line l))) := by
  constructor
  · have hends : Ends (⟨.endOfText, line, column⟩ :: rest) [⟨.endOfText, line, column⟩] :=
      ⟨rfl, rfl⟩
    rw [List.append_assoc, List.singleton_append]
    rcases Program.ofTokens_change_end hends ts v with
      ⟨program, w, hleft, hright⟩ | ⟨e, e', w, hleft, hright, he⟩
    · rw [hleft, hright]
    · -- the line of the end is the same on both sides
      have heq : e = e' := by cases he <;> rfl
      rw [hleft, hright, heq]
  · have hends : Ends [] [⟨.endOfText, line, column⟩] := ⟨rfl, rfl⟩
    rcases Program.ofTokens_change_end hends ts v with
      ⟨program, w, hleft, hright⟩ | ⟨e, e', w, hleft, hright, he⟩
    · rw [List.append_nil] at hleft
      exact .inl ⟨program, w, hleft, hright⟩
    · rw [List.append_nil] at hleft
      refine .inr ⟨e, e', w, hleft, hright, ?_⟩
      cases he with
      | same => exact .inl rfl
      | early l => exact .inr ⟨l, congrArg ParseError.unexpectedEnd (Nat.zero_max l), rfl⟩

end Logo
