import Logo.Program.Grammar
import Mathlib.Tactic.Common

/-!
# The bound is large enough

The readers of the grammar call each other with a bound on the depth of the recursion. This file
counts how many tokens each of them takes at least, and shows that three levels for every token, and
a few more, are enough for an answer. The argument keeps two numbers: `Takes k n r` says that `r`
answers on up to `n` tokens, and takes at least `k` of them if it gives a value. In a sequence of
two readers the second one only sees the tokens that the first one has left.

* `Grammar.progresses`: the numbers for the five readers that call each other.
* `sequence_ne_exhausted`: `Program.bound` is enough for a whole program.
-/

namespace Logo

open Reader

variable {α β : Type} {j k n : Nat}

/-! ## Counting tokens -/

/-- The result is an answer, and a value comes after at least `k` of `size` tokens. -/
def Reader.Result.Settles (k size : Nat) : Result α → Prop
  | .done _ rest _ => k + rest.length ≤ size
  | .failed _ _ => True
  | .exhausted => False

/-- On up to `n` tokens the reader answers, and takes at least `k` of them if it gives a value. -/
def Reader.Takes (k n : Nat) (r : Reader α) : Prop :=
  ∀ tokens vocabulary, tokens.length ≤ n → (r tokens vocabulary).Settles k tokens.length

lemma Reader.Result.Settles.mono {result : Result α} {size size' : Nat}
    (h : result.Settles k size) (hle : j + size ≤ k + size') : result.Settles j size' := by
  cases result with
  | done value rest after =>
    simp only [Settles] at h ⊢
    omega
  | failed e after => trivial
  | exhausted => exact h

lemma Reader.Takes.mono {r : Reader α} (h : r.Takes k n) (hj : j ≤ k) : r.Takes j n :=
  fun tokens vocabulary hn => (h tokens vocabulary hn).mono (Nat.add_le_add_right hj _)

/-- What two readers take one after the other. -/
lemma Reader.Takes.bind {r : Reader α} {next : α → Reader β} (h : r.Takes j n)
    (hnext : ∀ value m, j + m ≤ n → (next value).Takes k m) : (r >>= next).Takes (j + k) n := by
  intro tokens vocabulary hn
  have hr := h tokens vocabulary hn
  show Result.Settles _ _ (Reader.andThen r next tokens vocabulary)
  unfold Reader.andThen
  cases hres : r tokens vocabulary with
  | done value rest after =>
    rw [hres] at hr
    simp only [Result.Settles] at hr
    exact (hnext value rest.length (by omega) rest after (Nat.le_refl _)).mono (by omega)
  | failed e after => trivial
  | exhausted => rwa [hres] at hr

/-- Two readers that may take nothing. -/
lemma Reader.Takes.andThen {r : Reader α} {next : α → Reader β} (h : r.Takes 0 n)
    (hnext : ∀ value, (next value).Takes 0 n) : (r >>= next).Takes 0 n :=
  h.bind fun value _ hm tokens vocabulary hle => hnext value tokens vocabulary (by omega)

lemma takes_give (value : α) : (give value).Takes 0 n := by
  intro tokens vocabulary _
  simp [give, Result.Settles]

lemma takes_fail (e : ParseError) : (fail e : Reader α).Takes k n := fun _ _ _ => trivial

lemma takes_peek : peek.Takes 0 n := by
  intro tokens vocabulary _
  simp [peek, Result.Settles]

lemma takes_next : next.Takes 0 n := by
  intro tokens vocabulary _
  simp [next, Result.Settles]

/-- A reader that starts with a token, and fails if there is none, takes that token. -/
lemma takes_next_bind {body : Option Placed → Reader α} {e : ParseError}
    (hnone : body none = fail e)
    (hsome : ∀ t, ∀ m < n, (body (some t)).Takes 0 m) : (next >>= body).Takes 1 n := by
  intro tokens vocabulary hn
  rcases tokens with _ | ⟨t, tokens⟩
  · show Result.Settles _ _ (body none [] vocabulary)
    rw [hnone]
    trivial
  · have hrest := hsome t tokens.length hn tokens vocabulary (Nat.le_refl _)
    exact hrest.mono (by simp [Nat.add_comm])

lemma takes_skipSeparators : skipSeparators.Takes 0 n := by
  intro tokens vocabulary _
  simpa [skipSeparators, Result.Settles] using (List.dropWhile_suffix _).length_le

lemma takes_vocabulary : vocabulary.Takes 0 n := by
  intro tokens vocabulary _
  simp [Reader.vocabulary, Result.Settles]

lemma takes_declare (name : String) (arity : Arity) : (declare name arity).Takes 0 n := by
  intro tokens vocabulary _
  simp [declare, Result.Settles]

namespace Grammar

/-! ## Readers that are made of others -/

lemma length_of_listItems {tokens rest : List Placed} {node : Node} {line : Nat} {items : List Node}
    {outer : List (Nat × List Node)} (h : listItems line items outer tokens = .ok (node, rest)) :
    rest.length ≤ tokens.length := by
  fun_induction listItems line items outer tokens
  case case1 | case7 => simp at h
  case case2 => simp_all
  case case3 ih | case4 ih | case5 ih | case6 ih | case8 ih => exact Nat.le_succ_of_le (ih h)

lemma takes_list (line : Nat) : (list line).Takes 0 n := by
  intro tokens vocabulary _
  unfold list
  cases hitems : listItems line [] [] tokens with
  | ok found => simpa [Result.Settles] using length_of_listItems hitems
  | error e => trivial

lemma takes_params : params.Takes 0 n := by
  intro tokens vocabulary _
  simpa [params, Result.Settles] using (List.dropWhile_suffix _).length_le

lemma takes_definedName (line : Nat) : (definedName line).Takes 0 n := by
  refine takes_next.andThen fun t => ?_
  split
  · refine takes_vocabulary.andThen fun v => ?_
    split
    · exact takes_fail _
    · exact takes_give _
  all_goals exact takes_fail _

lemma takes_group {expression : Reader Node} {sequence : Closer → Reader (List Node)}
    (he : expression.Takes 0 n) (hs : ∀ closer, (sequence closer).Takes 0 n) (line : Nat) :
    (group expression sequence line).Takes 0 n := by
  have henclosed : (group.enclosed expression line).Takes 0 n := by
    refine he.andThen fun node => takes_skipSeparators.andThen fun _ => ?_
    refine takes_next.andThen fun t => ?_
    split
    · exact takes_give _
    · exact takes_fail _
  refine takes_skipSeparators.andThen fun _ => takes_peek.andThen fun t => ?_
  split
  · split
    · exact henclosed
    · refine takes_next.andThen fun _ => takes_vocabulary.andThen fun v => ?_
      split
      · exact takes_fail _
      · exact (hs _).andThen fun inputs => takes_give _
  · exact henclosed

lemma takes_call {inputs : Nat → Reader (List Node)} (hi : ∀ count, (inputs count).Takes 0 n)
    (name : String) (line : Nat) : (call inputs name line).Takes 0 n := by
  refine takes_vocabulary.andThen fun v => ?_
  split
  · exact (hi _).andThen fun nodes => takes_give _
  · exact takes_fail _
  · exact takes_fail _

lemma takes_definition {sequence : Closer → Reader (List Node)}
    (hs : ∀ closer, (sequence closer).Takes 0 n) (line : Nat) :
    (definition sequence line).Takes 0 n :=
  (takes_definedName line).andThen fun _ => takes_params.andThen fun _ =>
    (takes_declare _ _).andThen fun _ => (hs _).andThen fun _ => takes_give _

lemma takes_branch {expression : Reader Node} (he : expression.Takes 0 n) (line : Nat) :
    (branch expression line).Takes 0 n := by
  refine takes_peek.andThen fun t => ?_
  split
  · exact takes_fail _
  · exact he

lemma takes_conditional {expression : Reader Node} (he : expression.Takes 0 n)
    (form : ConditionalForm) (line : Nat) : (conditional expression form line).Takes 0 n := by
  refine (takes_branch he line).andThen fun condition =>
    (takes_branch he line).andThen fun thenBranch => ?_
  cases form with
  | oneBranch => exact takes_give _
  | twoBranches => exact (takes_branch he line).andThen fun _ => takes_give _

lemma takes_atEnd (closer : Closer) : closer.atEnd.Takes 0 n := by
  cases closer with
  | text => exact takes_give _
  | paren line => exact takes_fail _
  | definition name line => exact takes_fail _

/-! ## The mutual recursion -/

/-- How many tokens the five readers take, and which bound is enough for `n` tokens. -/
structure Progresses (bound : Nat) : Prop where
  expression : ∀ n floor, 3 * n + 2 ≤ bound → (expression bound floor).Takes 1 n
  operators : ∀ n floor left, 3 * n + 1 ≤ bound → (operators bound floor left).Takes 0 n
  operand : ∀ n, 3 * n + 1 ≤ bound → (operand bound).Takes 1 n
  sequence : ∀ n closer, 3 * n + 3 ≤ bound → (sequence bound closer).Takes 0 n
  inputs : ∀ n count, 3 * n + 3 ≤ bound → (inputs bound count).Takes 0 n

variable {bound : Nat}

lemma takes_expression_succ (ih : Progresses bound) (n floor : Nat) (h : 3 * n + 2 ≤ bound + 1) :
    (expression (bound + 1) floor).Takes 1 n := by
  rw [expression]
  exact (ih.operand n (by omega)).bind fun left m hm => ih.operators m floor left (by omega)

lemma takes_operators_succ (ih : Progresses bound) (n floor : Nat) (left : Node)
    (h : 3 * n + 1 ≤ bound + 1) : (operators (bound + 1) floor left).Takes 0 n := by
  intro tokens vocabulary hn
  rw [operators]
  rcases tokens with _ | ⟨⟨token, line, column⟩, tokens⟩
  · exact takes_give (n := n) left _ vocabulary hn
  · cases token with
    | operator op =>
      show ((if floor < op.precedence then _ else _ : Reader Node) _ vocabulary).Settles _ _
      split
      · -- the operator itself is taken, which pays for the expression after it
        simp only [List.length_cons] at hn
        have hright : (expression bound op.precedence >>= fun right =>
            operators bound floor (.binary op left right line)).Takes 1 tokens.length :=
          (ih.expression _ _ (by omega)).bind fun right m hm => ih.operators m floor _ (by omega)
        refine (hright tokens vocabulary (Nat.le_refl _)).mono ?_
        simp only [List.length_cons]
        omega
      · exact takes_give (n := n) left _ vocabulary hn
    | _ => exact takes_give (n := n) left _ vocabulary hn

lemma takes_operand_succ (ih : Progresses bound) (n : Nat) (h : 3 * n + 1 ≤ bound + 1) :
    (operand (bound + 1)).Takes 1 n := by
  rw [operand]
  refine takes_next_bind rfl fun ⟨token, line, column⟩ m hm => ?_
  have hexpression : (expression bound 0).Takes 0 m :=
    (ih.expression m 0 (by omega)).mono (Nat.zero_le 1)
  have hsequence : ∀ closer, (sequence bound closer).Takes 0 m := fun closer =>
    ih.sequence m closer (by omega)
  dsimp only
  split
  · split
    · exact takes_give _
    · exact takes_fail _
  · exact takes_give _
  · exact takes_give _
  · have hoperand : (operand bound).Takes 0 m := (ih.operand m (by omega)).mono (Nat.zero_le 1)
    exact hoperand.andThen fun node => takes_give _
  · exact takes_group hexpression hsequence line
  · exact takes_list line
  · split
    · exact takes_definition hsequence line
    · exact takes_conditional hexpression _ line
    · exact takes_give _
    · exact takes_fail _
    · exact takes_call (fun count => ih.inputs m count (by omega)) _ line
  all_goals exact takes_fail _

lemma takes_sequence_succ (ih : Progresses bound) (n : Nat) (closer : Closer)
    (h : 3 * n + 3 ≤ bound + 1) : (sequence (bound + 1) closer).Takes 0 n := by
  rw [sequence]
  refine takes_skipSeparators.andThen fun _ => takes_peek.andThen fun t => ?_
  split
  · exact takes_atEnd closer
  split
  · exact takes_atEnd closer
  split
  · exact takes_next.andThen fun _ => takes_give _
  · have hnodes : (expression bound 0 >>= fun node => sequence bound closer >>= fun nodes =>
        give (node :: nodes)).Takes 1 n :=
      (ih.expression n 0 (by omega)).bind fun node m hm =>
        (ih.sequence m closer (by omega)).andThen fun nodes => takes_give _
    exact hnodes.mono (Nat.zero_le 1)

lemma takes_inputs_succ (ih : Progresses bound) (n count : Nat) (h : 3 * n + 3 ≤ bound + 1) :
    (inputs (bound + 1) count).Takes 0 n := by
  cases count with
  | zero => exact takes_give _
  | succ count =>
    rw [inputs]
    refine takes_peek.andThen fun t => ?_
    split
    · exact takes_give _
    · have hnodes : (expression bound 0 >>= fun node => inputs bound count >>= fun nodes =>
          give (node :: nodes)).Takes 1 n :=
        (ih.expression n 0 (by omega)).bind fun node m hm =>
          (ih.inputs m count (by omega)).andThen fun nodes => takes_give _
      exact hnodes.mono (Nat.zero_le 1)

lemma progresses (bound : Nat) : Progresses bound := by
  induction bound with
  | zero => constructor <;> omega
  | succ bound ih =>
    exact ⟨takes_expression_succ ih, takes_operators_succ ih, takes_operand_succ ih,
      takes_sequence_succ ih, takes_inputs_succ ih⟩

end Grammar

/-- The bound for a program is enough: the reader of a sequence answers. -/
theorem sequence_ne_exhausted {bound : Nat} {tokens : List Placed}
    (h : Program.bound tokens ≤ bound) (closer : Grammar.Closer) (vocabulary : Vocabulary) :
    Grammar.sequence bound closer tokens vocabulary ≠ .exhausted := by
  intro hres
  have hsettles := (Grammar.progresses bound).sequence tokens.length closer h tokens vocabulary
    (Nat.le_refl _)
  rwa [hres] at hsettles

end Logo
