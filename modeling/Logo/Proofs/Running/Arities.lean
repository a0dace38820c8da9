import Logo.Proofs.Reading.Simulation
import Logo.Proofs.Running.BuiltinNames

/-!
# Arities and procedures

How many inputs follow a name and what the name stands for are told apart. A definition announces its
arity as soon as its parameters have been read, so that its body can call it, but the name stands for
the procedure only when the definition is evaluated. A text can be read without its definitions being
evaluated: it may fail further on, or hold a definition in a body that is not run. So the arity can
run ahead of the procedure.

* `not_arity_of_unfinished`: an unfinished definition separates the two.
* `Session.Undisturbed`: nothing that was read has separated them since.
* `arities_agree`: otherwise they agree, and the arity is what a call goes by when it is read.
-/

namespace Logo

/-! ## Calls take what the arity says -/

namespace Grammar

/-- The inputs of a call are as many as asked for, or they end where no further input can start. -/
lemma length_of_inputs {bound count : Nat} {ts rest : List Placed} {v w : Vocabulary}
    {nodes : List Node} (h : inputs bound count ts v = .done nodes rest w) :
    nodes.length ≤ count ∧ (nodes.length < count → endsInputs rest.head? = true) := by
  induction bound generalizing count ts v nodes with
  | zero => cases h
  | succ bound ih =>
    cases count with
    | zero =>
      cases h
      exact ⟨Nat.le_refl 0, fun hlt => absurd hlt (Nat.lt_irrefl 0)⟩
    | succ count =>
      rw [inputs_succ] at h
      split at h
      · next hends =>
        cases h
        exact ⟨Nat.zero_le _, fun _ => hends⟩
      · obtain ⟨node, ts', v', -, h⟩ := Likeness.exists_of_bind_eq_done h
        obtain ⟨others, ts'', v'', hothers, h⟩ := Likeness.exists_of_bind_eq_done h
        cases h
        obtain ⟨hle, hends⟩ := ih hothers
        simp only [List.length_cons]
        exact ⟨by omega, fun hlt => hends (by omega)⟩

lemma operand_bare {bound : Nat} {word : String} {line column : Nat} {ts : List Placed}
    {v : Vocabulary} (hcall : Opening.ofWord word = .call) :
    operand (bound + 1) (⟨.bare word, line, column⟩ :: ts) v =
      call (inputs bound) word line ts v := by
  rw [operand]
  simp only [bind, Reader.andThen, Reader.next, List.head?_cons, List.tail_cons, hcall]

/-- A call without parentheses takes as many inputs as the arity of the moment says, and fewer only
where none can follow. -/
lemma exists_of_operand_bare {bound n : Nat} {word : String} {line column : Nat}
    {ts rest : List Placed} {v w : Vocabulary} {node : Node}
    (harity : v.arity? word = some (.fixed n)) (hcall : Opening.ofWord word = .call)
    (h : operand bound (⟨.bare word, line, column⟩ :: ts) v = .done node rest w) :
    ∃ nodes, node = .call (Text.lower word) nodes line ∧ nodes.length ≤ n ∧
      (nodes.length < n → endsInputs rest.head? = true) := by
  cases bound with
  | zero => cases h
  | succ bound =>
    rw [operand_bare hcall] at h
    have hinputs : (inputs bound n >>= fun nodes =>
        Reader.give (Node.call (Text.lower word) nodes line)) ts v = .done node rest w := by
      rw [← h]
      simp only [call, bind, Reader.andThen, Reader.vocabulary, harity]
      rfl
    obtain ⟨nodes, ts', v', hnodes, hgive⟩ := Likeness.exists_of_bind_eq_done hinputs
    cases hgive
    exact ⟨nodes, rfl, length_of_inputs hnodes⟩

end Grammar

/-! ## Texts that do not separate arity and procedure -/

open Classical in
/-- Reads a program, but gives up on a text that changes the arity of `name` while that stands for
`p`. -/
noncomputable def Run.readUndisturbed (name : String) (p : Procedure) (text : String) :
    Run Program := fun settings m =>
  if m.vocabulary.callable? name = some (.procedure p) ∧
      (Program.ofText text m.vocabulary).2.arity? name ≠ m.vocabulary.arity? name then .exhausted
  else Run.readProgram text settings m

/-- The machines that a session can come to from one on which `name` did not stand for `p`, if no
text that it reads, be it told, loaded or made of a list, changes the arity of `name` while that
stands for `p`. -/
inductive Session.Undisturbed (name : String) (p : Procedure) : Machine → Prop
  | start {m : Machine} : Session.Told m → m.vocabulary.callable? name ≠ some (.procedure p) →
      Undisturbed name p m
  | next {m after : Machine} (input : Session.Input) (bound : Nat) (settings : Settings) :
      Undisturbed name p m →
      (input.performBy (Run.readUndisturbed name p)
        (evalBy (Run.readUndisturbed name p) id bound) settings m).after? = some after →
      Undisturbed name p after

/-- If the name stands for `p`, its arity is the number of the parameters of `p`. -/
def Vocabulary.Agrees (name : String) (p : Procedure) (v : Vocabulary) : Prop :=
  v.callable? name = some (.procedure p) → v.arity? name = some (.fixed p.params.length)

/-- A definition that is evaluated brings arity and procedure together. -/
lemma Vocabulary.Agrees.define {name : String} {p : Procedure} {v : Vocabulary}
    (h : v.Agrees name p) (q : Procedure) : (v.define q).Agrees name p := by
  intro hcallable
  rw [callable?_define] at hcallable
  rw [arity?_define]
  split at hcallable
  · next hname =>
    rw [if_pos hname]
    cases hcallable
    rfl
  · next hname =>
    rw [if_neg hname]
    exact h hcallable

/-- A text on which the reader does not give up leaves the two as they are. -/
lemma Vocabulary.Agrees.ofText {name : String} {p : Procedure} {v : Vocabulary}
    (h : v.Agrees name p) {text : String}
    (hkept : ¬ (v.callable? name = some (.procedure p) ∧
      (Program.ofText text v).2.arity? name ≠ v.arity? name)) :
    (Program.ofText text v).2.Agrees name p := by
  intro hcallable
  rw [Vocabulary.callable?, Program.callables_ofText] at hcallable
  by_contra harity
  refine hkept ⟨hcallable, fun hsame => harity ?_⟩
  rw [hsame]
  exact h hcallable

/-- While nothing disturbs them, arity and procedure agree. -/
noncomputable def agreesContract (name : String) (p : Procedure) : Run.Contract :=
  .ofVocabulary (Vocabulary.Agrees name p) (fun _ => True) (Run.readUndisturbed name p) True
    (fun _ _ => trivial) (fun _ _ _ _ => trivial) (fun _ _ hv => hv.define _) fun text => by
      intro settings m hm
      by_cases hread : m.vocabulary.callable? name = some (.procedure p) ∧
        (Program.ofText text m.vocabulary).2.arity? name ≠ m.vocabulary.arity? name
      · exact .inl ⟨trivial, if_pos hread⟩
      · exact .inr ⟨if_neg hread, Run.upholds_readProgram settings
          (Vocabulary.Agrees.ofText hm hread) fun _ _ _ _ _ => trivial⟩

lemma Session.Undisturbed.told_and_agrees {name : String} {p : Procedure} {m : Machine}
    (h : Session.Undisturbed name p m) : Session.Told m ∧ m.vocabulary.Agrees name p := by
  induction h with
  | start htold hother => exact ⟨htold, fun hcallable => absurd hcallable hother⟩
  | @next m after input bound settings _ hafter ih =>
    obtain ⟨htold, hagrees⟩ := ih
    have hinput := Run.Contract.sessionInput ((agreesContract name p).eval bound) input settings m
      hagrees
    rcases hinput with ⟨-, hgivesUp⟩ | ⟨hsame, hup⟩
    · have hnone := (congrArg Outcome.after? hgivesUp).symm.trans hafter
      cases hnone
    · have hreal := (congrArg Outcome.after? hsame).symm.trans hafter
      refine ⟨?_, hup.inv hreal⟩
      rw [Session.Input.performBy_readProgram] at hreal
      exact .next input bound settings htold hreal

/-- **Arities and procedures.**
* In a session that is told what to run, a name that stands for a procedure has a certain arity.
* It is the number of the parameters of the procedure, unless a text that was read while the name
  stood for the procedure has changed it.
* The evaluation of a definition makes the two agree.
* A call without parentheses takes as many inputs as the arity of the moment says, and fewer only
  where none can follow. -/
theorem arities_agree :
    (∀ m, Session.Told m → ∀ name p, m.vocabulary.callable? name = some (.procedure p) →
      ∃ n, m.vocabulary.arity? name = some (.fixed n)) ∧
    (∀ name p m, Session.Undisturbed name p m → Session.Told m ∧
      (m.vocabulary.callable? name = some (.procedure p) →
        m.vocabulary.arity? name = some (.fixed p.params.length))) ∧
    (∀ bound name params body line frame settings m, ∃ after,
      eval (bound + 1) (.definition name params body line) frame settings m =
        .done .nothing after ∧
      after.vocabulary.callable? name = some (.procedure ⟨name, params, body, frame⟩) ∧
      after.vocabulary.arity? name = some (.fixed params.length)) ∧
    (∀ (v w : Vocabulary) name n bound line column ts rest node,
      v.arity? name = some (.fixed n) → Grammar.Opening.ofWord name = .call →
      Grammar.operand bound (⟨.bare name, line, column⟩ :: ts) v = .done node rest w →
      ∃ nodes, node = .call (Text.lower name) nodes line ∧ nodes.length ≤ n ∧
        (nodes.length < n → Grammar.endsInputs rest.head? = true)) := by
  refine ⟨?_, ?_, ?_, ?_⟩
  · intro m htold name p hcallable
    exact htold.standing.fixed name _ hcallable
  · intro name p m h
    exact h.told_and_agrees
  · intro bound name params body line frame settings m
    refine ⟨_, rfl, ?_, ?_⟩
    · exact (Vocabulary.callable?_define ..).trans (if_pos rfl)
    · exact (Vocabulary.arity?_define ..).trans (if_pos rfl)
  · intro v w name n bound line column ts rest node harity hcall h
    exact Grammar.exists_of_operand_bare harity hcall h

/-- A session that defines a procedure with one parameter keeps the two together. -/
theorem arities_agree_of_definition :
    let p : Procedure := ⟨"f", ["a"], [], 0⟩
    let v := Vocabulary.standard.declare "f" (.fixed 1)
    let m : Machine := { Machine.initial with vocabulary := v.define p }
    Session.Undisturbed "f" p m ∧ Session.Told m ∧
      m.vocabulary.callable? "f" = some (.procedure p) ∧
      m.vocabulary.arity? "f" = some (.fixed 1) ∧
      (∃ n, m.vocabulary.arity? "f" = some (.fixed n)) ∧
      ∃ nodes rest, Grammar.operand 9 [⟨.bare "f", 1, 1⟩, ⟨.word "x", 1, 3⟩, ⟨.word "y", 1, 6⟩]
        m.vocabulary = .done (.call "f" nodes 1) rest m.vocabulary ∧ nodes.length ≤ 1 ∧
        (nodes.length < 1 → Grammar.endsInputs rest.head? = true) := by
  intro p v m
  have htokens : tokenize "to f :a\nend" = .ok [⟨.bare "to", 1, 1⟩, ⟨.bare "f", 1, 4⟩,
      ⟨.reference "a", 1, 6⟩, ⟨.newline, 1, 0⟩, ⟨.bare "end", 2, 1⟩, ⟨.endOfText, 2, 4⟩] := by
    decide +kernel
  have hread : Program.ofText "to f :a\nend" .standard = (.ok [.definition "f" ["a"] [] 1], v) := by
    have hto : Grammar.Opening.ofWord "to" = .definition := by decide +kernel
    have hname : Text.lower "f" = "f" ∧ Text.lower "a" = "a" ∧ Grammar.isKeyword "f" = false ∧
        Vocabulary.standard.isBuiltin "f" = false := by decide +kernel
    have hend : Text.sameLetters "end" "end" = true := by decide +kernel
    simp [Program.ofText, htokens, Program.ofTokens, Program.bound, Grammar.sequence,
      Grammar.expression, Grammar.operand, Grammar.operators, bind, pure, Reader.andThen,
      Reader.give, Reader.next, Reader.peek, Reader.skipSeparators, Reader.vocabulary,
      Reader.declare, Token.isSeparator, Grammar.Closer.closes, Grammar.Closer.atEnd,
      Grammar.definition, Grammar.definedName, Grammar.params, Grammar.paramName?, hto, hname, hend,
      v]
  have hfree : Machine.initial.vocabulary.callable? "f" ≠ some (.procedure p) := by
    rw [show Machine.initial.vocabulary = Vocabulary.standard from rfl,
      Vocabulary.callable?_standard,
      show Vocabulary.builtins.lookup (Text.lower "f") = none by decide +kernel]
    simp
  have hm : Session.Undisturbed "f" p m := by
    refine .next (.run "to f :a\nend") 9 .standard (.start .initial hfree) ?_
    have hfirst : Run.readUndisturbed "f" p "to f :a\nend" .standard .initial =
        .done [.definition "f" ["a"] [] 1] { Machine.initial with vocabulary := v } := by
      rw [Run.readUndisturbed, if_neg fun h => hfree h.1, Run.readProgram,
        show Program.ofText "to f :a\nend" Machine.initial.vocabulary = _ from hread]
    simp only [Session.Input.performBy, Evaluator.runTextBy, bind, Run.andThen, hfirst]
    rfl
  have hcallable : m.vocabulary.callable? "f" = some (.procedure p) := by
    rw [Vocabulary.callable?_define, if_pos rfl]
  obtain ⟨htold, harity⟩ := arities_agree.2.1 "f" p m hm
  refine ⟨hm, htold, hcallable, harity hcallable, arities_agree.1 m htold "f" p hcallable, ?_⟩
  have hcall : Grammar.Opening.ofWord "f" = .call := by decide +kernel
  have hread' : ∃ node rest, Grammar.operand 9
      [⟨.bare "f", 1, 1⟩, ⟨.word "x", 1, 3⟩, ⟨.word "y", 1, 6⟩] m.vocabulary =
        .done node rest m.vocabulary := by
    rw [Grammar.operand_bare hcall, Grammar.call]
    simp only [bind, Reader.andThen, Reader.vocabulary, harity hcallable]
    exact ⟨_, _, rfl⟩
  obtain ⟨node, rest, hnode⟩ := hread'
  obtain ⟨nodes, rfl, hlength⟩ := arities_agree.2.2.2 m.vocabulary m.vocabulary "f" 1 9 1 1 _ rest
    node (harity hcallable) hcall hnode
  refine ⟨nodes, rest, ?_, hlength⟩
  rw [hnode]
  simp [show Text.lower "f" = "f" by decide +kernel]

/-- The procedure that a name stands for, if a program has defined it. -/
def Vocabulary.procedure? (v : Vocabulary) (name : String) : Option Procedure :=
  match v.callable? name with
  | some (.procedure p) => some p
  | _ => none

lemma Vocabulary.callable?_of_procedure? {v : Vocabulary} {name : String} {p : Procedure}
    (h : v.procedure? name = some p) : v.callable? name = some (.procedure p) := by
  unfold procedure? at h
  split at h
  · next hcallable =>
    rw [hcallable, Option.some.inj h]
  · cases h

/-- The inputs of the call of `name` that a text consists of. -/
def Program.soleCall? (name : String) (program : Except ParseError Program) :
    Option (List Node) :=
  match program with
  | .ok [.call called nodes 1] => if called = name then some nodes else none
  | _ => none

lemma Program.eq_of_soleCall? {name : String} {program : Except ParseError Program}
    {nodes : List Node} (h : Program.soleCall? name program = some nodes) :
    program = .ok [.call name nodes 1] := by
  unfold Program.soleCall? at h
  split at h
  · next called nodes' =>
    split at h
    · next hname => rw [hname, Option.some.inj h]
    · cases h
  · cases h

/-- An unfinished definition changes the arity of a name that stands for a procedure, and calls of
that procedure are read with an input too many. -/
theorem not_arity_of_unfinished :
    ∃ m₁ m₂ p nodes,
      ((Session.Input.run "to f :a\nend").step.perform 9 .standard .initial).after? = some m₁ ∧
      ((Session.Input.run "to f :a :b").step.perform 9 .standard m₁).after? = some m₂ ∧
      Session.Told m₂ ∧ m₂.vocabulary.callable? "f" = some (.procedure p) ∧
      p.params.length = 1 ∧ m₂.vocabulary.arity? "f" = some (.fixed 2) ∧
      (Program.ofText "f \"x \"y" m₂.vocabulary).1 = .ok [.call "f" nodes 1] ∧
      nodes.length = 2 := by
  have htest : ((Session.Input.run "to f :a\nend").step.perform 9 .standard .initial).after?.any
      fun m₁ => ((Session.Input.run "to f :a :b").step.perform 9 .standard m₁).after?.any fun m₂ =>
        (m₂.vocabulary.procedure? "f").any (·.params.length = 1) &&
        m₂.vocabulary.arity? "f" = some (.fixed 2) &&
        (Program.soleCall? "f" (Program.ofText "f \"x \"y" m₂.vocabulary).1).any
          (·.length = 2) := by decide +kernel
  obtain ⟨m₁, hm₁, htest⟩ := (Option.any_eq_true _ _).1 htest
  obtain ⟨m₂, hm₂, htest⟩ := (Option.any_eq_true _ _).1 htest
  simp only [Bool.and_eq_true, decide_eq_true_eq] at htest
  obtain ⟨⟨hprocedure, harity⟩, hcall⟩ := htest
  obtain ⟨p, hp, hparams⟩ := (Option.any_eq_true _ _).1 hprocedure
  obtain ⟨nodes, hnodes, hlength⟩ := (Option.any_eq_true _ _).1 hcall
  have htold : Session.Told m₂ := .next _ 9 .standard (.next _ 9 .standard .initial hm₁) hm₂
  exact ⟨m₁, m₂, p, nodes, hm₁, hm₂, htold, Vocabulary.callable?_of_procedure? hp,
    of_decide_eq_true hparams, harity, Program.eq_of_soleCall? hnodes, of_decide_eq_true hlength⟩

end Logo
