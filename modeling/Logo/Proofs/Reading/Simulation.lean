import Logo.Proofs.Reading.Likeness
import Logo.Proofs.Reading.Progress

/-!
# The grammar reads alike tokens alike

The five readers that call each other give the same results on alike tokens, and a larger bound does
not change them. Both are shown at once, by induction on the bound on the left.

* `Grammar.simulates`: the five readers, under any likeness.
* `Program.ofTokens_eq`: which bound a program is read with does not matter.
* `sameRead_ofTokens`: alike tokens form the same program.
-/

namespace Logo

open Reader

namespace Grammar

open Likeness

variable {k : Likeness} {bound bound' : Nat}

/-! ## One level of the recursion -/

/-- Results of the five readers with a bound, compared with those for any larger bound. -/
structure Simulates (k : Likeness) (bound : Nat) : Prop where
  expression : ∀ bound' ≥ bound, ∀ floor,
    k.Sim k.SameNode (expression bound floor) (expression bound' floor)
  operators : ∀ bound' ≥ bound, ∀ floor a b, k.SameNode a b →
    k.Sim k.SameNode (operators bound floor a) (operators bound' floor b)
  operand : ∀ bound' ≥ bound, k.Sim k.SameNode (operand bound) (operand bound')
  sequence : ∀ bound' ≥ bound, ∀ c d, k.SameCloser c d → (k.lenient → c ≠ .text) →
    k.Sim k.SameNodes (sequence bound c) (sequence bound' d)
  inputs : ∀ bound' ≥ bound, ∀ count,
    k.Sim k.SameNodes (inputs bound count) (inputs bound' count)

lemma starts_operand (bound : Nat) : Starts (operand bound) := by
  intro ts v a rest w hend hres
  cases bound with
  | zero => simp [operand, giveUp] at hres
  | succ bound =>
    rcases ts with _ | ⟨⟨token, l, c⟩, ts⟩
    · simp [operand, bind, andThen, next, fail] at hres
    · obtain rfl : token = .endOfText := isEnd_cons.mp hend
      simp [operand, bind, andThen, next, fail] at hres

lemma starts_expression (bound floor : Nat) : Starts (expression bound floor) := by
  cases bound with
  | zero => simp [Starts, expression, giveUp]
  | succ bound =>
    rw [expression]
    exact (starts_operand bound).bind

lemma sim_expression_succ (ih : Simulates k bound) (h : bound ≤ bound') (floor : Nat) :
    k.Sim k.SameNode (expression (bound + 1) floor) (expression (bound' + 1) floor) := by
  rw [expression, expression]
  exact (ih.operand bound' h).bind fun a b hab => ih.operators bound' h floor a b hab

/-- Where no operator comes next, an expression ends. -/
lemma operators_other {floor : Nat} {left : Node} {ts : List Placed} {v : Vocabulary}
    (h : ∀ op, ts.head?.map Placed.token ≠ some (.operator op)) :
    operators (bound + 1) floor left ts v = .done left ts v := by
  rcases ts with _ | ⟨⟨token, l, c⟩, ts⟩
  · rw [operators]
    rfl
  · rw [operators]
    cases token with
    | operator op => exact absurd rfl (h op)
    | _ => rfl

lemma operators_operator {floor : Nat} {left : Node} {ts : List Placed} {v : Vocabulary}
    (op : Operator) (l c : Nat) :
    operators (bound + 1) floor left (⟨.operator op, l, c⟩ :: ts) v =
      if floor < op.precedence then
        (expression bound op.precedence >>= fun right =>
          operators bound floor (.binary op left right l)) ts v
      else .done left (⟨.operator op, l, c⟩ :: ts) v := by
  rw [operators]
  simp only [bind, andThen, peek, List.head?_cons]
  split
  · rfl
  · rfl

lemma sim_operators_succ (ih : Simulates k bound) (h : bound ≤ bound') (floor : Nat) (a b : Node)
    (hab : k.SameNode a b) :
    k.Sim k.SameNode (operators (bound + 1) floor a) (operators (bound' + 1) floor b) := by
  intro ts us v w ht hv
  by_cases hop : ∃ op, ts.head?.map Placed.token = some (.operator op)
  · obtain ⟨op, hop⟩ := hop
    cases ht with
    | ended hend =>
      obtain ⟨t, ht, htoken⟩ := Option.map_eq_some_iff.mp hop
      exact absurd (token_left hend ht) (by simp [htoken])
    | @cons t u ts us hne htoken hline hrest =>
      obtain ⟨token, l, c⟩ := t
      obtain ⟨token', l', c'⟩ := u
      obtain rfl : token = token' := htoken
      obtain rfl : token = .operator op := by simpa using hop
      rw [operators_operator, operators_operator]
      split
      · refine (ih.expression bound' h _ hrest hv).bind fun right right' hright => ?_
        refine ih.operators bound' h floor _ _ ?_
        simp only [SameNode] at hab hright hline
        simp [SameNode, Node.mapLines, hab, hright, hline]
      · exact like_done hab (.cons hne rfl hline hrest) hv
  · have hop' : ¬∃ op, us.head?.map Placed.token = some (.operator op) := by
      simpa [← ht.head_token] using hop
    rw [operators_other (not_exists.mp hop), operators_other (not_exists.mp hop')]
    exact like_done hab ht hv

lemma operand_of_isEnd {ts : List Placed} {v : Vocabulary} (h : isEnd ts.head? = true) :
    operand (bound + 1) ts v = .failed (.unexpectedEnd (lineOf ts)) v := by
  rcases ts with _ | ⟨⟨token, l, c⟩, ts⟩
  · rw [operand]
    rfl
  · obtain rfl : token = .endOfText := isEnd_cons.mp h
    rw [operand]
    rfl

/-- Readers that start with the same token. -/
lemma like_next_bind {α : Type} {Same : α → α → Prop} {f g : Option Placed → Reader α}
    {t u : Placed} {ts us : List Placed} {v w : Vocabulary}
    (h : k.Sim Same (f (some t)) (g (some u)))
    (ht : k.Alike ts us) (hv : k.Knows v w) :
    k.Like Same ((next >>= f) (t :: ts) v) ((next >>= g) (u :: us) w) :=
  h ht hv

lemma sim_operand_succ (ih : Simulates k bound) (h : bound ≤ bound') :
    k.Sim k.SameNode (operand (bound + 1)) (operand (bound' + 1)) := by
  intro ts us v w ht hv
  cases ht with
  | ended hend =>
    rw [operand_of_isEnd (k.isEnd_left hend)]
    rcases lenient_or_isEnd hend with hlenient | ⟨hright, hline⟩
    · exact .inl hlenient
    · rw [operand_of_isEnd hright]
      exact like_failed (congrArg ParseError.unexpectedEnd hline) hv
  | @cons t u ts us hne htoken hline hrest =>
    obtain ⟨token, l, c⟩ := t
    obtain ⟨token', l', c'⟩ := u
    obtain rfl : token = token' := htoken
    have hexpression := ih.expression bound' h 0
    have hunexpected : ∀ text, ParseError.mapLine k.left (.unexpectedToken text l) =
        ParseError.mapLine k.right (.unexpectedToken text l') := fun text =>
      congrArg (ParseError.unexpectedToken text) hline
    -- what is read next depends on the token alone, which is the same on both sides
    rw [operand, operand]
    refine like_next_bind ?_ hrest hv
    cases token with
    | number text =>
      dsimp only
      split
      · exact sim_give (congrArg (Node.number _) hline)
      · exact sim_fail (hunexpected _)
    | word text => exact sim_give (congrArg (Node.word _) hline)
    | reference name => exact sim_give (congrArg (Node.reference _) hline)
    | bare word =>
      dsimp only
      split
      · refine sim_definition (fun name => ?_) hline
        exact ih.sequence bound' h _ _ (.definition hline) (by simp)
      · exact sim_conditional hexpression _ hline
      · exact sim_give (congrArg (Node.truth _) hline)
      · exact sim_fail (hunexpected _)
      · exact sim_call (ih.inputs bound' h) word hline
    | operator op =>
      cases op with
      | sub =>
        refine (ih.operand bound' h).bind fun a b hab => sim_give ?_
        simp only [SameNode] at hab hline
        simp [SameNode, Node.mapLines, hab, hline]
      | _ => exact sim_fail (hunexpected _)
    | openParen =>
      exact sim_group hexpression (starts_expression bound 0)
        (ih.sequence bound' h _ _ (.paren hline) (by simp)) hline
    | openBracket => exact sim_listFrom hline rfl .nil
    | endOfText => exact absurd rfl hne
    | _ => exact sim_fail (hunexpected _)

lemma endsInputs_eq {ts us : List Placed} (h : k.Alike ts us) :
    endsInputs ts.head? = endsInputs us.head? := by
  cases h with
  | ended hend =>
    have hleft : endsInputs ts.head? = true := by
      cases hts : ts.head? with
      | none => rfl
      | some t => simp [endsInputs, token_left hend hts]
    have hright : endsInputs us.head? = true := by
      cases hus : us.head? with
      | none => rfl
      | some t => rcases token_right hend hus with h | h <;> simp [endsInputs, h]
    rw [hleft, hright]
  | cons hne htoken hline hrest => simp [endsInputs, htoken]

lemma inputs_succ {count : Nat} {ts : List Placed} {v : Vocabulary} :
    inputs (bound + 1) (count + 1) ts v =
      if endsInputs ts.head? then .done [] ts v
      else (expression bound 0 >>= fun node => inputs bound count >>= fun nodes =>
        give (node :: nodes)) ts v := by
  rw [inputs]
  simp only [bind, andThen, peek]
  split
  · rfl
  · rfl

lemma sim_inputs_succ (ih : Simulates k bound) (h : bound ≤ bound') (count : Nat) :
    k.Sim k.SameNodes (inputs (bound + 1) count) (inputs (bound' + 1) count) := by
  cases count with
  | zero => exact sim_give rfl
  | succ count =>
    intro ts us v w ht hv
    rw [inputs_succ, inputs_succ, endsInputs_eq ht]
    split
    · exact like_done rfl ht hv
    · exact (ih.expression bound' h 0 ht hv).bind fun node node' hnode =>
        (ih.inputs bound' h count).bind fun nodes nodes' hnodes => sim_give (hnode.cons hnodes)

lemma sequence_of_isEnd {closer : Closer} {ts : List Placed} {v : Vocabulary}
    (h : isEnd (dropSeparators ts).head? = true) :
    sequence (bound + 1) closer ts v = closer.atEnd (dropSeparators ts) v := by
  have hskip : skipSeparators ts v = .done () (dropSeparators ts) v := rfl
  rw [sequence]
  simp only [bind, andThen, hskip, peek]
  cases hhead : (dropSeparators ts).head? with
  | none => rfl
  | some t =>
    have ht : t.token = .endOfText := by simpa [hhead, isEnd] using h
    simp only [ht, if_true]

/-- A sequence that goes on: its closer comes next, or an expression does. -/
lemma sequence_cons {closer : Closer} {ts rest : List Placed} {t : Placed} {v : Vocabulary}
    (h : dropSeparators ts = t :: rest) (hne : t.token ≠ .endOfText) :
    sequence (bound + 1) closer ts v =
      if closer.closes t.token then .done [] rest v
      else (expression bound 0 >>= fun node => sequence bound closer >>= fun nodes =>
        give (node :: nodes)) (t :: rest) v := by
  have hskip : skipSeparators ts v = .done () (t :: rest) v := congrArg (Result.done () · v) h
  rw [sequence]
  simp only [bind, andThen, hskip, peek, List.head?_cons, if_neg hne]
  split
  · rfl
  · rfl

lemma sim_sequence_succ (ih : Simulates k bound) (h : bound ≤ bound') (c d : Closer)
    (hc : k.SameCloser c d) (htext : k.lenient → c ≠ .text) :
    k.Sim k.SameNodes (sequence (bound + 1) c) (sequence (bound' + 1) d) := by
  intro ts us v w ht hv
  -- under a lenient likeness the end is an error on the left, and nothing is compared
  have hlenientEnd : k.lenient → isEnd (dropSeparators ts).head? = true →
      k.Like k.SameNodes (sequence (bound + 1) c ts v) (sequence (bound' + 1) d us w) := by
    intro hlenient hend
    rw [sequence_of_isEnd hend]
    cases hc with
    | text => exact absurd rfl (htext hlenient)
    | paren _ => exact .inl hlenient
    | definition _ => exact .inl hlenient
  rcases ht.dropSeparators with halike | ⟨hlenient, _, hends, -⟩
  · generalize hts : dropSeparators ts = ts', hus : dropSeparators us = us' at halike hlenientEnd
    cases halike with
    | ended hend =>
      have hleft := k.isEnd_left hend
      rcases lenient_or_isEnd hend with hlenient | ⟨hright, -⟩
      · exact hlenientEnd hlenient hleft
      · rw [sequence_of_isEnd (hts ▸ hleft), sequence_of_isEnd (hus ▸ hright), hts, hus]
        exact sim_atEnd hc (.ended hend) hv
    | @cons t u ts' us' hne htoken hline hrest =>
      rw [sequence_cons hts hne, sequence_cons hus (htoken ▸ hne), ← hc.closes_eq, ← htoken]
      split
      · exact like_done rfl hrest hv
      · refine (ih.expression bound' h 0 (.cons hne htoken hline hrest) hv).bind ?_
        exact fun node node' hnode => (ih.sequence bound' h c d hc htext).bind
          fun nodes nodes' hnodes => sim_give (hnode.cons hnodes)
  · exact hlenientEnd hlenient (k.isEnd_left hends)

lemma simulates (k : Likeness) (bound : Nat) : Simulates k bound := by
  induction bound with
  | zero =>
    constructor
    all_goals
      intros
      intro ts us v w _ _
      simp only [expression, operators, operand, sequence, inputs, giveUp, Like]
  | succ bound ih =>
    constructor
    all_goals
      intro bound' hbound
      obtain ⟨bound', rfl⟩ := Nat.exists_eq_add_of_lt hbound
    · exact sim_expression_succ ih (by omega)
    · exact sim_operators_succ ih (by omega)
    · exact sim_operand_succ ih (by omega)
    · exact sim_sequence_succ ih (by omega)
    · exact sim_inputs_succ ih (by omega)

end Grammar

/-! ## Programs -/

namespace Likeness

/-- Only columns and lines differ: lines of tokens in the ways that `f` and `g` say, and lines in
the bodies of procedures in the way that `stored` says. -/
def lines (f g stored : Nat → Nat) (hf : Monotone f) (hg : Monotone g) : Likeness where
  left := f
  right := g
  Knows v w := v.mapLines stored = w.mapLines stored
  Ends ts us := Grammar.isEnd ts.head? = true ∧ Grammar.isEnd us.head? = true ∧
    f (lineOf ts) = g (lineOf us)
  lenient := False
  left_mono := hf
  right_mono := hg
  arity_eq {v w} h name := by rw [← v.arity?_mapLines, h, Vocabulary.arity?_mapLines]
  isBuiltin_eq {v w} h name := by
    rw [← v.isBuiltin_mapLines, h, Vocabulary.isBuiltin_mapLines]
  knows_declare h name arity := congrArg (Vocabulary.declare · name arity) h
  isEnd_left h := h.1
  isEnd_right h := .inl h.2

/-- The results of reading a program differ in lines only. -/
def SameRead (k : Likeness) : Except ParseError Program × Vocabulary →
    Except ParseError Program × Vocabulary → Prop
  | (.ok p, v), (.ok q, w) => k.SameNodes p q ∧ k.Knows v w
  | (.error e, v), (.error e', w) => e.mapLine k.left = e'.mapLine k.right ∧ k.Knows v w
  | _, _ => False

end Likeness

open Likeness

/-- Every list of tokens is like itself. -/
lemma alike_refl (stored : Nat → Nat) (ts : List Placed) :
    (lines id id stored monotone_id monotone_id).Alike ts ts := by
  induction ts with
  | nil => exact .ended ⟨rfl, rfl, rfl⟩
  | cons t ts ih =>
    by_cases ht : t.token = .endOfText
    · have hend : Grammar.isEnd (t :: ts).head? = true := isEnd_cons.mpr ht
      exact .ended ⟨hend, hend, rfl⟩
    · exact .cons ht rfl rfl ih

/-- What the result of a sequence means for a program. -/
def Program.ofResult (v : Vocabulary) : Result Program → Except ParseError Program × Vocabulary
  | .done program _ w => (.ok program, w)
  | .failed e w => (.error e, w)
  | .exhausted => (.error (.unexpectedEnd 0), v)

variable {ts us : List Placed} {v w : Vocabulary}

lemma Program.ofTokens_eq_ofResult : Program.ofTokens ts v =
    Program.ofResult v (Grammar.sequence (Program.bound ts) .text ts v) := by
  rw [Program.ofTokens]
  cases Grammar.sequence (Program.bound ts) .text ts v <;> rfl

/-- An answer with any bound is the answer. -/
lemma Program.ofResult_eq_of_le {b b' : Nat} (h : b ≤ b')
    (hres : Grammar.sequence b .text ts v ≠ .exhausted) :
    Program.ofResult v (Grammar.sequence b' .text ts v) =
      Program.ofResult v (Grammar.sequence b .text ts v) := by
  have hsim := (Grammar.simulates (lines id id id monotone_id monotone_id) b).sequence b' h _ _
    .text False.elim (alike_refl id ts) (rfl : v.mapLines id = v.mapLines id)
  cases hb : Grammar.sequence b .text ts v with
  | done p rest w =>
    rw [hb] at hsim
    obtain ⟨q, rest', w', hb', hpq, -, hw⟩ := hsim
    simp only [SameNodes, lines, Program.mapLines_id, Vocabulary.mapLines_id] at hpq hw
    rw [hb', hpq, hw]
    rfl
  | failed e w =>
    rw [hb] at hsim
    obtain h | ⟨e', w', hb', he, hw⟩ := hsim
    · exact absurd h id
    · simp only [lines, ParseError.mapLine_id, Vocabulary.mapLines_id] at he hw
      rw [hb', he, hw]
  | exhausted => exact absurd hb hres

/-- The bound of a program does not matter: the program is what any bound that gives an answer
gives. -/
theorem Program.ofTokens_eq {b : Nat} (h : Grammar.sequence b .text ts v ≠ .exhausted) :
    Program.ofTokens ts v = Program.ofResult v (Grammar.sequence b .text ts v) := by
  have henough := sequence_ne_exhausted (Nat.le_refl (Program.bound ts)) .text v
  rw [Program.ofTokens_eq_ofResult, ← Program.ofResult_eq_of_le (Nat.le_max_left b _) h,
    Program.ofResult_eq_of_le (Nat.le_max_right _ _) henough]

/-- **Alike tokens form the same program**, up to what a likeness allows. -/
theorem sameRead_ofTokens {k : Likeness} (hk : ¬k.lenient) (ht : k.Alike ts us)
    (hv : k.Knows v w) : k.SameRead (Program.ofTokens ts v) (Program.ofTokens us w) := by
  -- the bounds differ if only one list has the mark of the end, so the right-hand one is raised
  have hts := sequence_ne_exhausted (Nat.le_refl (Program.bound ts)) .text v
  have hus := sequence_ne_exhausted (Nat.le_max_right (Program.bound ts) (Program.bound us)) .text w
  have hsim := (Grammar.simulates k (Program.bound ts)).sequence _
    (Nat.le_max_left _ (Program.bound us)) _ _ .text (fun h => absurd h hk) ht hv
  rw [Program.ofTokens_eq hts, Program.ofTokens_eq hus]
  cases hb : Grammar.sequence (Program.bound ts) .text ts v with
  | done p rest v' =>
    rw [hb] at hsim
    obtain ⟨q, rest', w', hb', hpq, -, hw⟩ := hsim
    rw [hb']
    exact ⟨hpq, hw⟩
  | failed e v' =>
    rw [hb] at hsim
    obtain h | ⟨e', w', hb', he, hw⟩ := hsim
    · exact absurd h hk
    · rw [hb']
      exact ⟨he, hw⟩
  | exhausted => exact absurd hb hts

end Logo
