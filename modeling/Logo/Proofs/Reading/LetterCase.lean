import Logo.Proofs.Reading.Simulation
import Logo.Proofs.Text.BasicLetters
import Logo.Session

/-!
# The case of names does not matter

Names and keywords may be written in small or capital letters. The reader puts a name in small
letters in some places and compares it with a keyword in others; inside brackets it does neither,
because the items of a list keep their spelling. To show that no place has been forgotten, all names
outside of brackets are folded to small letters before the tokens are read. Each reader then comes
to the same result as it does without that, except that an error may quote a folded name.

* `foldNames`: the tokens with their names folded.
* `Reader.Folds`: a reader gives the same result on folded tokens.
* `Grammar.folds`: the five readers that call each other do so.
* `letter_case_of_names`: programs and sessions do not depend on the case of names.
-/

namespace Logo

open Reader Likeness

variable {α β : Type}

/-! ## Folded tokens -/

/-- The token with the basic letters of a name in small. -/
def Token.foldCase : Token → Token
  | .bare text => .bare (Text.foldBasic text)
  | .reference name => .reference (Text.foldBasic name)
  | token => token

/-- How many brackets are open after the token. -/
def Token.depthAfter (depth : Nat) : Token → Nat
  | .openBracket => depth + 1
  | .closeBracket => depth - 1
  | _ => depth

/-- The token with a folded name. Its column, which nobody reads, is left out. -/
def Placed.foldCase (t : Placed) : Placed := ⟨t.token.foldCase, t.line, 0⟩

/-- The tokens with the names outside of brackets folded, if `depth` brackets are open before. -/
def foldNames (depth : Nat) : List Placed → List Placed
  | [] => []
  | t :: ts =>
    (if depth = 0 then t.foldCase else ⟨t.token, t.line, 0⟩)
      :: foldNames (t.token.depthAfter depth) ts

lemma length_foldNames (depth : Nat) (ts : List Placed) :
    (foldNames depth ts).length = ts.length := by
  induction ts generalizing depth with
  | nil => rfl
  | cons t ts ih => rw [foldNames, List.length_cons, List.length_cons, ih]

/-- Outside of brackets the next token is folded. -/
lemma foldNames_cons {t : Placed} (h : t.token ≠ .openBracket) (ts : List Placed) :
    foldNames 0 (t :: ts) = t.foldCase :: foldNames 0 ts := by
  obtain ⟨token, l, c⟩ := t
  cases token with
  | openBracket => exact absurd rfl h
  | _ => rfl

lemma head?_foldNames (ts : List Placed) :
    (foldNames 0 ts).head? = ts.head?.map Placed.foldCase := by
  cases ts <;> rfl

lemma lineOf_foldNames (ts : List Placed) : lineOf (foldNames 0 ts) = lineOf ts := by
  cases ts <;> rfl

lemma isEnd_foldNames (ts : List Placed) :
    Grammar.isEnd (foldNames 0 ts).head? = Grammar.isEnd ts.head? := by
  rcases ts with _ | ⟨⟨token, l, c⟩, ts⟩
  · rfl
  · cases token <;> rfl

lemma endsInputs_foldNames (ts : List Placed) :
    Grammar.endsInputs (foldNames 0 ts).head? = Grammar.endsInputs ts.head? := by
  rcases ts with _ | ⟨⟨token, l, c⟩, ts⟩
  · rfl
  · cases token <;> rfl

lemma dropSeparators_foldNames (ts : List Placed) :
    dropSeparators (foldNames 0 ts) = foldNames 0 (dropSeparators ts) := by
  induction ts with
  | nil => rfl
  | cons t ts ih =>
    obtain ⟨token, l, c⟩ := t
    cases token with
    | newline => exact ih
    | comment => exact ih
    | _ => rfl

lemma closes_foldCase (closer : Grammar.Closer) (token : Token) :
    closer.closes token.foldCase = closer.closes token := by
  cases closer <;> cases token
  case definition.bare => exact Text.sameLetters_foldBasic_left _ _
  all_goals rfl

lemma isKeyword_foldBasic (word : String) :
    Grammar.isKeyword (Text.foldBasic word) = Grammar.isKeyword word := by
  simp only [Grammar.isKeyword, Text.sameLetters_foldBasic_right]

lemma ofWord_foldBasic (word : String) :
    Grammar.Opening.ofWord (Text.foldBasic word) = Grammar.Opening.ofWord word := by
  rw [Grammar.Opening.ofWord, Text.lower_foldBasic, Grammar.Opening.ofWord]

lemma Vocabulary.arity?_foldBasic (v : Vocabulary) (name : String) :
    v.arity? (Text.foldBasic name) = v.arity? name := by
  rw [arity?, arity?, Text.lower_foldBasic]

/-! ## Results on folded tokens -/

/-- The error with the basic letters of what it quotes in small. -/
def ParseError.foldCase : ParseError → ParseError
  | .unexpectedToken token line => .unexpectedToken (Text.foldBasic token) line
  | .unknownCommand name line => .unknownCommand (Text.foldBasic name) line
  | .invalidDefinition (.invalidName token) line =>
    .invalidDefinition (.invalidName (Text.foldBasic token)) line
  | e => e

/-- The second result is the first one on folded tokens. -/
inductive Reader.Result.Folds : Result α → Result α → Prop
  | done (a : α) (ts : List Placed) (v : Vocabulary) :
      Folds (.done a ts v) (.done a (foldNames 0 ts) v)
  | failed {e e' : ParseError} (v : Vocabulary) : e.foldCase = e'.foldCase →
      Folds (.failed e v) (.failed e' v)
  | exhausted : Folds .exhausted .exhausted

/-- The second reader does on folded tokens what the first one does. -/
def Reader.Folds (r s : Reader α) : Prop := ∀ ts v, (r ts v).Folds (s (foldNames 0 ts) v)

variable {ts : List Placed} {v : Vocabulary} {line : Nat}

lemma folds_give (a : α) : Folds (give a) (give a) := fun ts v => .done a ts v

lemma folds_fail {e e' : ParseError} (h : e.foldCase = e'.foldCase) :
    Folds (fail e : Reader α) (fail e') :=
  fun _ v => .failed v h

lemma Reader.Result.Folds.bind {r s : Reader α} {next next' : α → Reader β} {us : List Placed}
    (h : (r ts v).Folds (s us v)) (hnext : ∀ a, Reader.Folds (next a) (next' a)) :
    ((r >>= next) ts v).Folds ((s >>= next') us v) := by
  show (andThen r next ts v).Folds (andThen s next' us v)
  unfold andThen
  revert h
  generalize r ts v = o, s us v = o'
  rintro (⟨a, rest, after⟩ | ⟨after, he⟩ | _)
  · exact hnext a rest after
  · exact .failed after he
  · exact .exhausted

lemma Reader.Folds.bind {r s : Reader α} {next next' : α → Reader β} (h : Folds r s)
    (hnext : ∀ a, Folds (next a) (next' a)) : Folds (r >>= next) (s >>= next') :=
  fun ts v => (h ts v).bind hnext

/-! ## Readers that are made of others -/

lemma folds_atEnd (closer : Grammar.Closer) : Folds closer.atEnd closer.atEnd := by
  cases closer with
  | text => exact folds_give []
  | paren line => exact folds_fail rfl
  | definition name line => exact folds_fail rfl

lemma folds_declare (name : String) (arity : Arity) :
    Folds (declare name arity) (declare name arity) := fun ts _ => .done () ts _

lemma folds_vocabulary : Folds vocabulary vocabulary := fun ts v => .done v ts v

lemma paramName?_foldCase (t : Placed) : Grammar.paramName? t.foldCase = Grammar.paramName? t := by
  obtain ⟨token, l, c⟩ := t
  cases token with
  | reference name => exact congrArg some (Text.lower_foldBasic name)
  | _ => rfl

lemma folds_params : Folds Grammar.params Grammar.params := by
  intro ts v
  induction ts with
  | nil => exact .done [] [] v
  | cons t ts ih =>
    cases hname : Grammar.paramName? t with
    | none =>
      rw [params_of_head (by simpa using hname), params_of_head]
      · exact .done [] (t :: ts) v
      · rw [head?_foldNames]
        simpa [paramName?_foldCase] using hname
    | some name =>
      have hne : t.token ≠ .openBracket := by
        intro h
        simp [Grammar.paramName?, h] at hname
      rw [foldNames_cons hne, params_cons hname, params_cons ((paramName?_foldCase t).trans hname)]
      exact ih.bind fun names => folds_give _

/-- The error about a variable in place of a name. -/
lemma foldCase_invalidName (name : String) (line : Nat) :
    ParseError.foldCase (.invalidDefinition (.invalidName (Token.reference name).spelling) line) =
      ParseError.foldCase (.invalidDefinition
        (.invalidName (Token.reference (Text.foldBasic name)).spelling) line) := by
  simp only [ParseError.foldCase, Token.spelling, Text.foldBasic_append, Text.foldBasic_escape]

lemma folds_definedName (line : Nat) :
    Folds (Grammar.definedName line) (Grammar.definedName line) := by
  intro ts v
  rcases ts with _ | ⟨⟨token, l, c⟩, ts⟩
  · exact .failed v rfl
  · cases token with
    | bare word =>
      rw [foldNames_cons (by simp), Placed.foldCase, Token.foldCase, definedName_bare,
        definedName_bare, Text.lower_foldBasic]
      split
      · exact .failed v rfl
      · exact .done _ ts v
    | reference name => exact .failed v (foldCase_invalidName name line)
    | _ => exact .failed v rfl

lemma folds_branch {x : Reader Node} (hx : Folds x x) (line : Nat) :
    Folds (Grammar.branch x line) (Grammar.branch x line) := by
  intro ts v
  rw [branch_eq, branch_eq, isEnd_foldNames, lineOf_foldNames]
  split
  · exact .failed v rfl
  · exact hx ts v

lemma folds_conditional {x : Reader Node} (hx : Folds x x) (form : ConditionalForm) (line : Nat) :
    Folds (Grammar.conditional x form line) (Grammar.conditional x form line) := by
  refine (folds_branch hx line).bind fun a => (folds_branch hx line).bind fun b => ?_
  cases form with
  | oneBranch => exact folds_give _
  | twoBranches => exact (folds_branch hx line).bind fun c => folds_give _

lemma folds_definition {xs : Grammar.Closer → Reader (List Node)} (hxs : ∀ c, Folds (xs c) (xs c))
    (line : Nat) : Folds (Grammar.definition xs line) (Grammar.definition xs line) :=
  (folds_definedName line).bind fun name => folds_params.bind fun _ =>
    (folds_declare _ _).bind fun _ => (hxs (.definition name line)).bind fun _ => folds_give _

lemma folds_call {xs : Nat → Reader (List Node)} (hxs : ∀ count, Folds (xs count) (xs count))
    (name : String) (line : Nat) :
    Folds (Grammar.call xs name line) (Grammar.call xs (Text.foldBasic name) line) := by
  refine folds_vocabulary.bind fun v => ?_
  rw [v.arity?_foldBasic, Text.lower_foldBasic]
  split
  · exact (hxs _).bind fun nodes => folds_give _
  · exact folds_fail (by simp only [ParseError.foldCase, Text.foldBasic_foldBasic])
  · exact folds_fail (by simp only [ParseError.foldCase, Text.foldBasic_foldBasic])

/-! ## Groups and lists -/

lemma folds_closing (line : Nat) (node : Node) : Folds (closing line node) (closing line node) := by
  intro ts v
  unfold closing
  rw [dropSeparators_foldNames]
  rcases dropSeparators ts with _ | ⟨⟨token, l, c⟩, rest⟩
  · exact .failed v rfl
  · cases token with
    | closeParen => exact .done node rest v
    | _ => exact .failed v rfl

lemma folds_group {x : Reader Node} {xs : Grammar.Closer → Reader (List Node)} (hx : Folds x x)
    (hxs : ∀ c, Folds (xs c) (xs c)) (line : Nat) :
    Folds (Grammar.group x xs line) (Grammar.group x xs line) := by
  have henclosed : Folds (Grammar.group.enclosed x line) (Grammar.group.enclosed x line) := by
    rw [enclosed_eq]
    exact hx.bind fun node => folds_closing line node
  intro ts v
  have hfolded : Grammar.group x xs line (dropSeparators (foldNames 0 ts)) v =
      Grammar.group x xs line (foldNames 0 ts) v := group_dropSeparators x xs
  rw [← group_dropSeparators, ← hfolded, dropSeparators_foldNames]
  have hidem : dropSeparators (dropSeparators ts) = dropSeparators ts := dropSeparators_idem
  have hidem' : dropSeparators (foldNames 0 (dropSeparators ts)) =
      foldNames 0 (dropSeparators ts) := by
    rw [dropSeparators_foldNames, hidem]
  generalize dropSeparators ts = ts at hidem hidem'
  by_cases hbare : ∃ name, ts.head?.map Placed.token = some (.bare name)
  · obtain ⟨name, hname⟩ := hbare
    rcases ts with _ | ⟨⟨token, l, c⟩, ts⟩
    · simp at hname
    obtain rfl : token = .bare name := by simpa using hname
    have hfold : foldNames 0 (⟨.bare name, l, c⟩ :: ts) =
        ⟨.bare (Text.foldBasic name), l, 0⟩ :: foldNames 0 ts := rfl
    rw [group_bare, hfold, group_bare, isKeyword_foldBasic, v.arity?_foldBasic,
      Text.lower_foldBasic]
    split
    · exact henclosed (⟨.bare name, l, c⟩ :: ts) v
    split
    · exact .failed v (by simp only [ParseError.foldCase, Text.foldBasic_foldBasic])
    · exact (hxs (.paren line) ts v).bind fun nodes => folds_give _
  · have hbare' : ∀ name, (foldNames 0 ts).head?.map Placed.token ≠ some (.bare name) := by
      intro name hname
      rcases ts with _ | ⟨⟨token, l, c⟩, ts⟩
      · simp [foldNames] at hname
      · cases token with
        | bare text => exact hbare ⟨text, rfl⟩
        | _ => simp [foldNames, Placed.foldCase, Token.foldCase] at hname
    rw [group_other hidem (not_exists.mp hbare), group_other hidem' hbare']
    exact henclosed ts v

/-- Inside brackets nothing is folded, and as many brackets are open as lists are being read. -/
lemma folds_listFrom (line : Nat) (items : List Node) (outer : List (Nat × List Node))
    (ts : List Placed) (v : Vocabulary) : (listFrom line items outer ts v).Folds
      (listFrom line items outer (foldNames (outer.length + 1) ts) v) := by
  -- one token at a time, with what has been read of the lists in the hypothesis
  induction ts generalizing line items outer with
  | nil => exact .failed v rfl
  | cons t ts ih =>
    obtain ⟨token, l, c⟩ := t
    cases token with
    | endOfText => exact .failed v rfl
    | newline => exact ih line items outer
    | comment => exact ih line items outer
    | openBracket => exact ih l [] ((line, items) :: outer)
    | closeBracket =>
      cases outer with
      | nil => exact .done (Node.list items.reverse line) ts v
      | cons around outer => exact ih around.1 (Node.list items.reverse line :: around.2) outer
    | _ => exact ih line (.word _ l :: items) outer

/-! ## The mutual recursion -/

namespace Grammar

/-- The five readers with a bound do on folded tokens what they do on others. -/
structure AllFold (bound : Nat) : Prop where
  expression : ∀ floor, Folds (expression bound floor) (expression bound floor)
  operators : ∀ floor a, Folds (operators bound floor a) (operators bound floor a)
  operand : Folds (operand bound) (operand bound)
  sequence : ∀ c, Folds (sequence bound c) (sequence bound c)
  inputs : ∀ count, Folds (inputs bound count) (inputs bound count)

variable {bound : Nat}

lemma folds_operators_succ (ih : AllFold bound) (floor : Nat) (a : Node) :
    Folds (operators (bound + 1) floor a) (operators (bound + 1) floor a) := by
  intro ts v
  by_cases hop : ∃ op, ts.head?.map Placed.token = some (.operator op)
  · obtain ⟨op, hop⟩ := hop
    rcases ts with _ | ⟨⟨token, l, c⟩, ts⟩
    · simp at hop
    obtain rfl : token = .operator op := by simpa using hop
    have hfold : foldNames 0 (⟨.operator op, l, c⟩ :: ts) =
        ⟨.operator op, l, 0⟩ :: foldNames 0 ts := rfl
    rw [operators_operator, hfold, operators_operator]
    split
    · exact (ih.expression _ ts v).bind fun right => ih.operators floor _
    · exact .done a (⟨.operator op, l, c⟩ :: ts) v
  · have hop' : ∀ op, (foldNames 0 ts).head?.map Placed.token ≠ some (.operator op) := by
      intro op hhead
      rcases ts with _ | ⟨⟨token, l, c⟩, ts⟩
      · simp [foldNames] at hhead
      · cases token with
        | operator op => exact hop ⟨op, rfl⟩
        | _ => simp [foldNames, Placed.foldCase, Token.foldCase] at hhead
    rw [operators_other (not_exists.mp hop), operators_other hop']
    exact .done a ts v

/-- A reader that starts with a token outside of brackets. -/
lemma folds_next_bind {f g : Option Placed → Reader α} {t : Placed} (hne : t.token ≠ .openBracket)
    (h : Folds (f (some t)) (g (some t.foldCase))) (ts : List Placed) (v : Vocabulary) :
    ((next >>= f) (t :: ts) v).Folds ((next >>= g) (foldNames 0 (t :: ts)) v) := by
  rw [foldNames_cons hne]
  exact h ts v

lemma folds_operand_succ (ih : AllFold bound) :
    Folds (operand (bound + 1)) (operand (bound + 1)) := by
  intro ts v
  rcases ts with _ | ⟨⟨token, l, c⟩, ts⟩
  · rw [foldNames, operand_of_isEnd rfl]
    exact .failed v rfl
  by_cases hbracket : token = .openBracket
  · -- a list is read with its own bracket open
    subst hbracket
    rw [operand]
    exact folds_listFrom l [] [] ts v
  -- what is read next depends on the folded token alone
  rw [operand]
  refine folds_next_bind hbracket ?_ ts v
  have hexpression := ih.expression 0
  cases token with
  | number text =>
    dsimp only [Placed.foldCase, Token.foldCase]
    split
    · exact folds_give _
    · exact folds_fail rfl
  | word text => exact folds_give _
  | reference name =>
    dsimp only [Placed.foldCase, Token.foldCase]
    rw [Text.lower_foldBasic]
    exact folds_give _
  | bare word =>
    dsimp only [Placed.foldCase, Token.foldCase]
    rw [ofWord_foldBasic]
    split
    · exact folds_definition ih.sequence l
    · exact folds_conditional hexpression _ l
    · exact folds_give _
    · exact folds_fail (by simp only [ParseError.foldCase, Text.foldBasic_foldBasic])
    · exact folds_call ih.inputs word l
  | operator op =>
    cases op with
    | sub => exact ih.operand.bind fun a => folds_give _
    | _ => exact folds_fail rfl
  | openParen => exact folds_group hexpression ih.sequence l
  | openBracket => exact absurd rfl hbracket
  | _ => exact folds_fail rfl

lemma folds_inputs_succ (ih : AllFold bound) (count : Nat) :
    Folds (inputs (bound + 1) count) (inputs (bound + 1) count) := by
  cases count with
  | zero => exact folds_give []
  | succ count =>
    intro ts v
    rw [inputs_succ, inputs_succ, endsInputs_foldNames]
    split
    · exact .done [] ts v
    · exact (ih.expression 0 ts v).bind fun node =>
        (ih.inputs count).bind fun nodes => folds_give _

lemma folds_sequence_succ (ih : AllFold bound) (closer : Closer) :
    Folds (sequence (bound + 1) closer) (sequence (bound + 1) closer) := by
  intro ts v
  have hfold := dropSeparators_foldNames ts
  by_cases hend : isEnd (dropSeparators ts).head? = true
  · rw [sequence_of_isEnd hend, sequence_of_isEnd (by rw [hfold, isEnd_foldNames, hend]), hfold]
    exact folds_atEnd closer _ v
  · generalize hts : dropSeparators ts = ts' at hend hfold
    rcases ts' with _ | ⟨t, ts'⟩
    · exact absurd rfl hend
    have hne : t.token ≠ .endOfText := fun h => hend (isEnd_cons.mpr h)
    have hne' : t.foldCase.token ≠ .endOfText := by
      intro h
      rw [← isEnd_foldNames] at hend
      exact hend (isEnd_cons.mpr h)
    have hcloses' : closer.closes t.foldCase.token = closer.closes t.token :=
      closes_foldCase closer t.token
    have hcons : foldNames 0 (t :: ts') = t.foldCase :: foldNames (t.token.depthAfter 0) ts' := rfl
    rw [sequence_cons hts hne, sequence_cons (hfold.trans hcons) hne', hcloses']
    split
    · next hcloses =>
      -- a bracket closes nothing but a list
      have hbracket : t.token ≠ .openBracket := by
        intro h
        rw [h] at hcloses
        cases closer <;> cases hcloses
      have htail : foldNames (t.token.depthAfter 0) ts' = foldNames 0 ts' :=
        (List.cons.inj (foldNames_cons hbracket ts')).2
      rw [htail]
      exact .done [] ts' v
    · exact (ih.expression 0 (t :: ts') v).bind fun node =>
        (ih.sequence closer).bind fun nodes => folds_give _

lemma folds (bound : Nat) : AllFold bound := by
  induction bound with
  | zero =>
    constructor
    all_goals
      intros
      intro ts v
      simp only [expression, operators, operand, sequence, inputs]
      exact .exhausted
  | succ bound ih =>
    constructor
    · intro floor
      rw [expression]
      exact ih.operand.bind fun a => ih.operators floor a
    · exact folds_operators_succ ih
    · exact folds_operand_succ ih
    · exact folds_sequence_succ ih
    · exact folds_inputs_succ ih

end Grammar

/-! ## Programs -/

/-- What has been read, with the basic letters of what an error quotes in small. -/
def Program.foldError (read : Except ParseError Program × Vocabulary) :
    Except ParseError Program × Vocabulary :=
  (read.1.mapError ParseError.foldCase, read.2)

/-- Folded tokens form the same program, or lead to the same error. -/
lemma Program.foldError_ofTokens_foldNames (ts : List Placed) (v : Vocabulary) :
    foldError (ofTokens (foldNames 0 ts) v) = foldError (ofTokens ts v) := by
  have hbound : bound (foldNames 0 ts) = bound ts := by rw [bound, length_foldNames, bound]
  have hfolds := (Grammar.folds (bound ts)).sequence .text ts v
  rw [ofTokens, ofTokens, hbound]
  revert hfolds
  generalize Grammar.sequence (bound ts) .text ts v = o,
    Grammar.sequence (bound ts) .text (foldNames 0 ts) v = o'
  rintro (_ | ⟨w, he⟩ | _)
  · rfl
  · exact congrArg (fun e => ((.error e : Except ParseError Program), w)) he.symm
  · rfl

/-- Tokens that differ in the case of names form the same program, or lead to the same error. -/
lemma Program.foldError_ofTokens {ts us : List Placed} (h : foldNames 0 ts = foldNames 0 us)
    (v : Vocabulary) : foldError (ofTokens ts v) = foldError (ofTokens us v) := by
  rw [← foldError_ofTokens_foldNames ts, h, foldError_ofTokens_foldNames]

lemma Program.foldError_eq {read read' : Except ParseError Program × Vocabulary}
    (h : foldError read = foldError read') :
    read = read' ∨ ∃ e e' v, read = (.error e, v) ∧ read' = (.error e', v) ∧
      e.foldCase = e'.foldCase := by
  obtain ⟨result, v⟩ := read
  obtain ⟨result', v'⟩ := read'
  obtain ⟨hresult, rfl⟩ := Prod.mk.inj h
  cases result with
  | ok program =>
    cases result' with
    | ok program' => exact .inl (by cases hresult; rfl)
    | error e' => cases hresult
  | error e =>
    cases result' with
    | ok program' => cases hresult
    | error e' => exact .inr ⟨e, e', v, rfl, rfl, Except.error.inj hresult⟩

/-! ## Sessions -/

/-- The outcome, with the basic letters of what an error about the text quotes in small. -/
def Outcome.foldError : Outcome α → Outcome α
  | .failed (.unreadable e) after => .failed (.unreadable e.foldCase) after
  | o => o

/-- The two texts are cut into tokens that differ in the case of names outside of brackets only. -/
def SameUpToCase (source source' : String) : Prop :=
  ∃ ts us, tokenize source = .ok ts ∧ tokenize source' = .ok us ∧ foldNames 0 ts = foldNames 0 us

/-- What is done with the program that is read from one of two such texts. -/
lemma Run.foldError_readProgram {source source' : String} (h : SameUpToCase source source')
    (next : Program → Run α) (settings : Settings) (m : Machine) :
    ((Run.readProgram source >>= next) settings m).foldError =
      ((Run.readProgram source' >>= next) settings m).foldError := by
  obtain ⟨ts, us, hts, hus, hfold⟩ := h
  simp only [bind, Run.andThen, Run.readProgram, Program.ofText, hts, hus]
  rcases Program.foldError_eq (Program.foldError_ofTokens hfold m.vocabulary) with
    hsame | ⟨e, e', v, hread, hread', he⟩
  · rw [hsame]
  · simp only [hread, hread', Outcome.foldError, he]

lemma Session.run_eq (bound : Nat) (source : String) :
    Session.run bound source = Run.readProgram source >>= fun program =>
      (eval bound).execute Machine.globalFrame false program >>= fun flow =>
        Session.atTopLevel flow >>= fun _ => Run.give () := by
  funext settings m
  simp only [Session.run, Evaluator.runText, bind, Run.andThen]
  cases Run.readProgram source settings m <;> rfl

/-- **The case of names does not matter.** Tokens that differ only in the case of basic letters in
bare words and variables outside of brackets form the same program and leave the same vocabulary, or
lead to the same kind of error on the same line; only what the error quotes may differ in case.
Texts with such tokens are run and evaluated alike, on all machines and with all settings. -/
theorem letter_case_of_names :
    (∀ ts us, foldNames 0 ts = foldNames 0 us → ∀ v,
      Program.foldError (Program.ofTokens ts v) = Program.foldError (Program.ofTokens us v)) ∧
    ∀ source source', SameUpToCase source source' → ∀ bound settings m,
      (Session.run bound source settings m).foldError =
        (Session.run bound source' settings m).foldError ∧
      (Session.evaluate bound source settings m).foldError =
        (Session.evaluate bound source' settings m).foldError := by
  refine ⟨fun ts us h v => Program.foldError_ofTokens h v, ?_⟩
  intro source source' h bound settings m
  constructor
  · rw [Session.run_eq, Session.run_eq]
    exact Run.foldError_readProgram h _ settings m
  · exact Run.foldError_readProgram h _ settings m

/-- A definition with its keywords, its name and its parameter in other letters. The letter in
brackets is the same. -/
theorem letter_case_of_names_definition :
    let ts : List Placed := [⟨.bare "To", 1, 1⟩, ⟨.bare "F", 1, 4⟩, ⟨.reference "x", 1, 6⟩,
      ⟨.bare "print", 1, 9⟩, ⟨.openBracket, 1, 15⟩, ⟨.bare "X", 1, 16⟩, ⟨.closeBracket, 1, 17⟩,
      ⟨.bare "END", 1, 19⟩, ⟨.endOfText, 1, 22⟩]
    let us : List Placed := [⟨.bare "tO", 1, 1⟩, ⟨.bare "f", 1, 4⟩, ⟨.reference "X", 1, 6⟩,
      ⟨.bare "Print", 1, 9⟩, ⟨.openBracket, 1, 15⟩, ⟨.bare "X", 1, 16⟩, ⟨.closeBracket, 1, 17⟩,
      ⟨.bare "end", 1, 19⟩, ⟨.endOfText, 1, 22⟩]
    tokenize "To F :x print [X] END" = .ok ts ∧ tokenize "tO f :X Print [X] end" = .ok us ∧
      foldNames 0 ts = foldNames 0 us ∧
      (∀ v, Program.foldError (Program.ofTokens ts v) = Program.foldError (Program.ofTokens us v)) ∧
      ∀ bound settings m, (Session.run bound "To F :x print [X] END" settings m).foldError =
        (Session.run bound "tO f :X Print [X] end" settings m).foldError := by
  intro ts us
  have hts : tokenize "To F :x print [X] END" = .ok ts := by decide +kernel
  have hus : tokenize "tO f :X Print [X] end" = .ok us := by decide +kernel
  have hfold : foldNames 0 ts = foldNames 0 us := by decide +kernel
  refine ⟨hts, hus, hfold, letter_case_of_names.1 ts us hfold, fun bound settings m => ?_⟩
  exact (letter_case_of_names.2 _ _ ⟨ts, us, hts, hus, hfold⟩ bound settings m).1

end Logo
