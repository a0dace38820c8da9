import Logo.Program.Grammar
import Mathlib.Data.List.Forall2
import Mathlib.Tactic.Lemma

/-!
# Numbers in the place of variables

A number and a variable are both operands of one token. This file runs the readers of the grammar
side by side on two lists of tokens, the first of which has a number in places where the second has
a variable. No reader can tell the two lists apart, unless it looks at a variable as the parameter
of a definition or at the spelling of a token, as an item of a list. So without definitions and
lists the readers go through the tokens in step. They end with the same error, or with trees that
differ in the same way as the tokens do.

* `Placed.Instance`, `Node.Instance`: tokens and trees with a number for a variable.
* `Reader.Parallel`: two readers go in step.
* `Program.ofTokens_instance`: the programs that the tokens form.
-/

namespace Logo

open Reader Grammar

/-! ## Tokens and trees -/

/-- The first token is the number `x` and the second one the variable `name`, or they are the same
and neither a bracket nor the word that starts a definition. -/
inductive Placed.Instance (x : Float) (name : String) : Placed → Placed → Prop
  | same {token : Token} (line column column' : Nat) : token ≠ .openBracket →
      (∀ word, token = .bare word → Opening.ofWord word ≠ .definition) →
      Instance x name ⟨token, line, column⟩ ⟨token, line, column'⟩
  | place {text : String} (line column column' : Nat) : Number.read? text = some x →
      Instance x name ⟨.number text, line, column⟩ ⟨.reference name, line, column'⟩

/-- The first tree has the number `x` in some places where the second one has the variable. -/
inductive Node.Instance (x : Float) (name : String) : Node → Node → Prop
  | same (node : Node) : Instance x name node node
  | place (line : Nat) : Instance x name (.number x line) (.reference (Text.lower name) line)
  | binary (op : Operator) {a a' b b' : Node} (line : Nat) : Instance x name a a' →
      Instance x name b b' → Instance x name (.binary op a b line) (.binary op a' b' line)
  | call (callee : String) {inputs inputs' : List Node} (line : Nat) :
      List.Forall₂ (Instance x name) inputs inputs' →
      Instance x name (.call callee inputs line) (.call callee inputs' line)
  | oneBranch {a a' b b' : Node} (line : Nat) : Instance x name a a' → Instance x name b b' →
      Instance x name (.conditional .oneBranch a b none line)
        (.conditional .oneBranch a' b' none line)
  | twoBranches {a a' b b' c c' : Node} (line : Nat) : Instance x name a a' →
      Instance x name b b' → Instance x name c c' →
      Instance x name (.conditional .twoBranches a b (some c) line)
        (.conditional .twoBranches a' b' (some c') line)

variable {x : Float} {name : String} {α β : Type}

namespace Placed.Instance

variable {t u : Placed}

lemma line_eq (h : Placed.Instance x name t u) : t.line = u.line := by
  cases h <;> rfl

lemma isEnd_iff (h : Placed.Instance x name t u) :
    t.token = .endOfText ↔ u.token = .endOfText := by
  cases h with
  | same => rfl
  | place => simp

lemma isSeparator_eq (h : Placed.Instance x name t u) :
    t.token.isSeparator = u.token.isSeparator := by
  cases h <;> rfl

lemma closes_eq (h : Placed.Instance x name t u) (closer : Closer) :
    closer.closes t.token = closer.closes u.token := by
  cases h with
  | same => rfl
  | place => cases closer <;> rfl

lemma endsInputs_eq (h : Placed.Instance x name t u) :
    endsInputs (some t) = endsInputs (some u) := by
  cases h <;> rfl

end Placed.Instance

/-! ## Readers in step -/

/-- The results are the same, up to a number in the place of a variable. -/
inductive Reader.Result.Instance (x : Float) (name : String) (Same : α → α → Prop) :
    Result α → Result α → Prop
  | done {a b : α} {ts us : List Placed} {w : Vocabulary} : Same a b →
      List.Forall₂ (Placed.Instance x name) ts us →
      Instance x name Same (.done a ts w) (.done b us w)
  | failed (e : ParseError) (w : Vocabulary) : Instance x name Same (.failed e w) (.failed e w)
  | exhausted : Instance x name Same .exhausted .exhausted

/-- The readers give the same results on tokens that are the same up to a number in the place of a
variable. -/
def Reader.Parallel (x : Float) (name : String) (Same : α → α → Prop) (r s : Reader α) : Prop :=
  ∀ ⦃ts us⦄ (w : Vocabulary), List.Forall₂ (Placed.Instance x name) ts us →
    Result.Instance x name Same (r ts w) (s us w)

namespace Reader.Parallel

section

variable {Same : α → α → Prop} {Same' : β → β → Prop}

lemma give {a b : α} (h : Same a b) : Parallel x name Same (Reader.give a) (Reader.give b) :=
  fun _ _ _ hts => .done h hts

lemma fail (e : ParseError) : Parallel x name Same (Reader.fail e) (Reader.fail e) :=
  fun _ _ w _ => .failed e w

lemma giveUp : Parallel x name Same Reader.giveUp Reader.giveUp := fun _ _ _ _ => .exhausted

/-- Readers one after the other. -/
lemma bind {r s : Reader α} {more more' : α → Reader β} (h : Parallel x name Same r s)
    (hmore : ∀ a b, Same a b → Parallel x name Same' (more a) (more' b)) :
    Parallel x name Same' (r >>= more) (s >>= more') := by
  intro ts us w hts
  have hfirst := h w hts
  show Result.Instance x name Same' (andThen r more ts w) (andThen s more' us w)
  unfold andThen
  generalize r ts w = result, s us w = result' at hfirst
  cases hfirst with
  | done hab hrest => exact hmore _ _ hab _ hrest
  | failed e w => exact .failed e w
  | exhausted => exact .exhausted

lemma head? {ts us : List Placed} (h : List.Forall₂ (Placed.Instance x name) ts us) :
    Option.Rel (Placed.Instance x name) ts.head? us.head? := by
  cases h with
  | nil => exact .none
  | cons h _ => exact .some h

lemma peek : Parallel x name (Option.Rel (Placed.Instance x name)) Reader.peek Reader.peek :=
  fun _ _ _ hts => .done (head? hts) hts

lemma next : Parallel x name (Option.Rel (Placed.Instance x name)) Reader.next Reader.next := by
  intro ts us w hts
  refine .done (head? hts) ?_
  cases hts with
  | nil => exact .nil
  | cons _ hrest => exact hrest

lemma vocabulary : Parallel x name Eq Reader.vocabulary Reader.vocabulary :=
  fun _ _ _ hts => .done rfl hts

lemma skipSeparators : Parallel x name (fun _ _ => True) Reader.skipSeparators
    Reader.skipSeparators := by
  intro ts us w hts
  refine .done trivial ?_
  induction hts with
  | nil => exact .nil
  | cons h hrest ih =>
    rw [List.dropWhile_cons, List.dropWhile_cons, h.isSeparator_eq]
    split
    · exact ih
    · exact .cons h hrest

end

/-! ## Readers that are made of others -/

variable {y z : Reader Node} {line : Nat}

lemma enclosed (h : Parallel x name (Node.Instance x name) y z) :
    Parallel x name (Node.Instance x name) (group.enclosed y line) (group.enclosed z line) := by
  refine h.bind fun a b hab => skipSeparators.bind fun _ _ _ => next.bind fun t u htu => ?_
  cases htu with
  | none => exact fail _
  | some htu =>
    cases htu with
    | @same token =>
      cases token with
      | closeParen => exact give hab
      | _ => exact fail _
    | place => exact fail _

lemma group {ys zs : Closer → Reader (List Node)} (h : Parallel x name (Node.Instance x name) y z)
    (hs : Parallel x name (List.Forall₂ (Node.Instance x name)) (ys (.paren line))
      (zs (.paren line))) :
    Parallel x name (Node.Instance x name) (Grammar.group y ys line)
      (Grammar.group z zs line) := by
  refine skipSeparators.bind fun _ _ _ => peek.bind fun t u htu => ?_
  cases htu with
  | none => exact enclosed h
  | some htu =>
    cases htu with
    | @same token =>
      cases token with
      | bare word =>
        dsimp only [Option.map_some]
        split
        · exact enclosed h
        · refine next.bind fun _ _ _ => vocabulary.bind fun w w' hw => ?_
          rw [hw]
          split
          · exact fail _
          · exact hs.bind fun nodes nodes' hnodes => give (.call _ _ hnodes)
      | _ => exact enclosed h
    | place => exact enclosed h

lemma call {ys zs : Nat → Reader (List Node)}
    (hs : ∀ count, Parallel x name (List.Forall₂ (Node.Instance x name)) (ys count) (zs count))
    (callee : String) :
    Parallel x name (Node.Instance x name) (Grammar.call ys callee line)
      (Grammar.call zs callee line) := by
  refine vocabulary.bind fun w w' hw => ?_
  rw [hw]
  split
  · exact (hs _).bind fun nodes nodes' hnodes => give (.call _ _ hnodes)
  · exact fail _
  · exact fail _

lemma branch (h : Parallel x name (Node.Instance x name) y z) :
    Parallel x name (Node.Instance x name) (Grammar.branch y line) (Grammar.branch z line) := by
  refine peek.bind fun t u htu => ?_
  cases htu with
  | none => exact fail _
  | @some t u htu =>
    have hend : isEnd (some t) = isEnd (some u) := by
      cases htu <;> rfl
    rw [hend, Option.elim_some, Option.elim_some, htu.line_eq]
    split
    · exact fail _
    · exact h

lemma conditional (h : Parallel x name (Node.Instance x name) y z) (form : ConditionalForm) :
    Parallel x name (Node.Instance x name) (Grammar.conditional y form line)
      (Grammar.conditional z form line) := by
  refine (branch h).bind fun a a' ha => (branch h).bind fun b b' hb => ?_
  cases form with
  | oneBranch => exact give (.oneBranch _ ha hb)
  | twoBranches => exact (branch h).bind fun c c' hc => give (.twoBranches _ ha hb hc)

/-! ## The mutual recursion -/

/-- All readers with the bound go in step. -/
structure Readers (x : Float) (name : String) (bound : Nat) : Prop where
  expression (floor : Nat) :
    Parallel x name (Node.Instance x name) (expression bound floor) (expression bound floor)
  operators (floor : Nat) {a b : Node} : Node.Instance x name a b →
    Parallel x name (Node.Instance x name) (operators bound floor a) (operators bound floor b)
  operand : Parallel x name (Node.Instance x name) (operand bound) (operand bound)
  sequence (closer : Closer) : Parallel x name (List.Forall₂ (Node.Instance x name))
    (sequence bound closer) (sequence bound closer)
  inputs (count : Nat) : Parallel x name (List.Forall₂ (Node.Instance x name))
    (inputs bound count) (inputs bound count)

namespace Readers

variable {bound : Nat} (h : Readers x name bound)
include h

lemma operators_succ (floor : Nat) {a b : Node} (hab : Node.Instance x name a b) :
    Parallel x name (Node.Instance x name) (Grammar.operators (bound + 1) floor a)
      (Grammar.operators (bound + 1) floor b) := by
  unfold Grammar.operators
  refine peek.bind fun t u htu => ?_
  cases htu with
  | none => exact give hab
  | some htu =>
    cases htu with
    | @same token =>
      cases token with
      | operator op =>
        dsimp only
        split
        · refine next.bind fun _ _ _ => (h.expression _).bind fun c c' hc => ?_
          exact h.operators floor (.binary op _ hab hc)
        · exact give hab
      | _ => exact give hab
    | place => exact give hab

lemma operand_succ :
    Parallel x name (Node.Instance x name) (Grammar.operand (bound + 1))
      (Grammar.operand (bound + 1)) := by
  unfold Grammar.operand
  refine next.bind fun t u htu => ?_
  cases htu with
  | none => exact fail _
  | some htu =>
    cases htu with
    | @same token line column column' hbracket hword =>
      cases token with
      | number text =>
        dsimp only
        split
        · exact give (.same _)
        · exact fail _
      | word text => exact give (.same _)
      | reference name => exact give (.same _)
      | operator op =>
        cases op with
        | sub => exact h.operand.bind fun a b hab => give (.binary _ _ (.same _) hab)
        | _ => exact fail _
      | openParen => exact group (h.expression 0) (h.sequence _)
      | openBracket => exact absurd rfl hbracket
      | bare word =>
        dsimp only
        split
        case h_1 hdefinition => exact absurd hdefinition (hword word rfl)
        case h_2 form _ => exact conditional (h.expression 0) form
        case h_3 => exact give (.same _)
        case h_4 => exact fail _
        case h_5 => exact call h.inputs word
      | _ => exact fail _
    | place line _ _ hread =>
      dsimp only
      rw [hread]
      exact give (.place line)

lemma sequence_succ (closer : Closer) :
    Parallel x name (List.Forall₂ (Node.Instance x name)) (Grammar.sequence (bound + 1) closer)
      (Grammar.sequence (bound + 1) closer) := by
  unfold Grammar.sequence
  refine skipSeparators.bind fun _ _ _ => peek.bind fun t u htu => ?_
  have hend : Parallel x name (List.Forall₂ (Node.Instance x name)) closer.atEnd
      closer.atEnd := by
    cases closer with
    | text => exact give .nil
    | paren line => exact fail _
    | definition callee line => exact fail _
  cases htu with
  | none => exact hend
  | some htu =>
    dsimp only
    simp only [htu.isEnd_iff, htu.closes_eq]
    split
    · exact hend
    split
    · exact next.bind fun _ _ _ => give .nil
    · exact (h.expression 0).bind fun a b hab => (h.sequence closer).bind fun as bs habs =>
        give (.cons hab habs)

lemma inputs_succ (count : Nat) :
    Parallel x name (List.Forall₂ (Node.Instance x name)) (Grammar.inputs (bound + 1) count)
      (Grammar.inputs (bound + 1) count) := by
  cases count with
  | zero => exact give .nil
  | succ count =>
    unfold Grammar.inputs
    refine peek.bind fun t u htu => ?_
    cases htu with
    | none => exact give .nil
    | some htu =>
      rw [htu.endsInputs_eq]
      split
      · exact give .nil
      · exact (h.expression 0).bind fun a b hab => (h.inputs count).bind fun as bs habs =>
          give (.cons hab habs)

/-- One more step of the recursion. -/
lemma succ : Readers x name (bound + 1) where
  expression floor := h.operand.bind fun _ _ => h.operators floor
  operators floor _ _ := h.operators_succ floor
  operand := h.operand_succ
  sequence := h.sequence_succ
  inputs := h.inputs_succ

omit h in
/-- The readers of the grammar go in step. -/
theorem all (bound : Nat) : Readers x name bound := by
  induction bound with
  | zero =>
    exact ⟨fun _ => giveUp, fun _ _ _ _ => giveUp, giveUp, fun _ => giveUp, fun _ => giveUp⟩
  | succ bound ih => exact ih.succ

end Readers

end Reader.Parallel

/-- **A number in the place of a variable leads to the same program**, with the number in the place
of the variable, or to the same error. -/
theorem Program.ofTokens_instance {ts us : List Placed}
    (h : List.Forall₂ (Placed.Instance x name) ts us) (w : Vocabulary) :
    (∃ e w', ofTokens ts w = (.error e, w') ∧ ofTokens us w = (.error e, w')) ∨
      ∃ p q w', ofTokens ts w = (.ok p, w') ∧ ofTokens us w = (.ok q, w') ∧
        List.Forall₂ (Node.Instance x name) p q := by
  have hreaders : Parallel.Readers x name (bound ts) := .all (bound ts)
  have hread := hreaders.sequence .text w h
  have hbound : bound us = bound ts := by rw [bound, bound, h.length_eq]
  unfold ofTokens
  rw [hbound]
  generalize sequence (bound ts) .text ts w = result, sequence (bound ts) .text us w = result'
    at hread
  cases hread with
  | done hnodes _ => exact .inr ⟨_, _, _, rfl, rfl, hnodes⟩
  | failed e w' => exact .inl ⟨e, w', rfl, rfl⟩
  | exhausted => exact .inl ⟨_, w, rfl, rfl⟩

end Logo
