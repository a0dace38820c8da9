import Logo.Proofs.Reading.Instances
import Logo.Proofs.Running.LineLaw
import Logo.Proofs.Running.Supervision
import Logo.Proofs.Text.SmallLetters

/-!
# Running a program with numbers in the place of a variable

As long as a variable has a number as its value, a program that refers to the variable does the same
as one that holds the number in its place. The comparison is made under supervision: if the variable
has another value when the evaluation of a node starts or ends, the run ends with an error that
serves as a mark. Up to that error the two programs are evaluated in step.

* `Run.markedLaw`: runs that are the same unless they end with the mark.
* `evalSeeing_instance`: evaluation of a tree with numbers in the place of a variable.
* `runTokens_instance`: running tokens with numbers in the place of a variable.
-/

namespace Logo

/-! ## Runs that end with a marked error -/

namespace Run

variable {α β : Type}

/-- The second run does the same as the first one, unless that one ends with the error `mark`. -/
def Marked (mark : RuntimeError) (r s : Run α) : Prop :=
  ∀ settings m, (∃ after, r settings m = .failed mark after) ∨ s settings m = r settings m

namespace Marked

variable {mark : RuntimeError} {r s : Run α}

lemma refl (r : Run α) : Marked mark r r := fun _ _ => .inr rfl

lemma andThen {next next' : α → Run β} (h : Marked mark r s)
    (hnext : ∀ a, Marked mark (next a) (next' a)) :
    Marked mark (r >>= next) (s >>= next') := by
  intro settings m
  simp only [bind, Run.andThen]
  rcases h settings m with ⟨after, hr⟩ | hsame
  · exact .inl ⟨after, by rw [hr]⟩
  · rw [hsame]
    cases r settings m with
    | done a after => exact hnext a settings after
    | failed e after => exact .inr rfl
    | exhausted => exact .inr rfl

lemma nested {body body' : Run Flow} (h : Marked mark body body') (line : Nat) :
    Marked mark (Run.nested line body) (Run.nested line body') := by
  intro settings m
  unfold Run.nested
  split
  · exact .inr rfl
  · rcases h settings { m with depth := m.depth + 1 } with ⟨after, hbody⟩ | hsame
    · exact .inl ⟨_, by rw [hbody]⟩
    · exact .inr (by rw [hsame])

/-- A guard may end a run with the error. -/
lemma guarded (h : Marked mark r s) (Ok : Machine → Prop) :
    Marked mark (Run.guarded Ok (Run.fail mark) r) s := by
  intro settings m
  unfold Run.guarded
  split
  · exact h settings m
  · exact .inl ⟨m, rfl⟩

/-- Two errors cannot both be what a run ends with. -/
lemma eq_of_unmarked {mark mark' : RuntimeError} {r r' s t : Run α} (hne : mark ≠ mark')
    (h : Marked mark r t) (h' : Marked mark' r' t) {settings : Settings} {m : Machine}
    (hr : r settings m = s settings m) (hr' : r' settings m = s settings m) :
    t settings m = s settings m := by
  rcases h settings m with ⟨after, hmark⟩ | hsame
  · rcases h' settings m with ⟨after', hmark'⟩ | hsame
    · have hboth : (.failed mark after : Outcome α) = .failed mark' after' := by
        rw [← hmark, ← hmark', hr, hr']
      exact absurd (Outcome.failed.inj hboth).1 hne
    · exact hsame.trans hr'
  · exact hsame.trans hr

end Marked

/-- Evaluation goes on in the same way on both sides until the error. -/
def markedLaw (mark : RuntimeError) : Run.ExactLaw where
  Rel := Marked mark
  give _ := .refl _
  fail _ _ := .refl _
  giveUp := .refl _
  andThen := .andThen
  settings h settings m := h settings settings rfl rfl settings m
  resolve _ _ := .refl _
  leave _ _ _ := .refl _
  readVariable _ _ _ := .refl _
  setVariable _ _ _ := .refl _
  write _ _ := .refl _
  define _ := .refl _
  readProgram _ := .refl _
  openFrame _ _ := .refl _
  nested := .nested

end Run

/-! ## Numbers in the place of a variable -/

section

variable {x : Float} {name : String}

lemma Node.Instance.called?_eq {node node' : Node} (h : node.Instance x name node') :
    node.called? = node'.called? := by
  cases h <;> rfl

lemma Node.Instance.line_eq {node node' : Node} (h : node.Instance x name node') :
    node.line = node'.line := by
  cases h <;> rfl

variable (x name) in
/-- Seen from the frame, the variable has the value `x`. -/
def Machine.Sees (frame : FrameId) (m : Machine) : Prop :=
  m.scopes.lookup frame name = some (.number x)

/-- Evaluation that ends with an error if the variable has another value. -/
noncomputable def evalSeeing (x : Float) (name : String) (frame : FrameId) (mark : RuntimeError) :
    Nat → Evaluator :=
  evalBy Run.readProgram (Run.guarded (Machine.Sees x name frame) (Run.fail mark))

variable {frame : FrameId} {mark : RuntimeError}

/-- The same tree is evaluated in the same way. -/
lemma evalSeeing_same (bound : Nat) : (Run.markedLaw mark).toLaw.Evaluators
    (evalSeeing x name frame mark bound) (eval bound) := by
  induction bound with
  | zero => exact fun _ _ _ _ => .refl _
  | succ bound ih =>
    intro node node' frame' hnode
    refine Run.Marked.guarded ?_ _
    rw [Evaluator.stepBy_readProgram]
    exact Run.Law.step ih node node' frame' hnode

section

variable {self self' : Evaluator}
  (h : ∀ node node', Node.Instance x name node node' →
    Run.Marked mark (self node frame) (self' node' frame))
include h

lemma marked_input (consumer : String) {node node' : Node} (hnode : node.Instance x name node') :
    Run.Marked mark (self.input consumer frame node) (self'.input consumer frame node') := by
  rw [Run.input_eq, Run.input_eq, hnode.called?_eq, hnode.line_eq]
  exact (h node node' hnode).andThen fun _ => .refl _

lemma marked_inputs (consumer : String) {nodes nodes' : List Node}
    (hnodes : List.Forall₂ (Node.Instance x name) nodes nodes') {next next' : List Value → Run Flow}
    (hnext : ∀ values, Run.Marked mark (next values) (next' values)) :
    Run.Marked mark (self.inputs consumer frame nodes next)
      (self'.inputs consumer frame nodes' next') := by
  induction hnodes generalizing next next' with
  | nil => exact hnext []
  | cons hnode _ ih =>
    exact (Run.markedLaw mark).toLaw.toComparison.onValue (marked_input h consumer hnode) fun v =>
      ih fun values => hnext (v :: values)

lemma marked_branch (hsame : (Run.markedLaw mark).toLaw.Evaluators self self') {node node' : Node}
    (hnode : node.Instance x name node') :
    Run.Marked mark (self.branch node frame) (self'.branch node' frame) := by
  refine (Run.markedLaw mark).toLaw.toComparison.onValue (h node node' hnode) fun v => ?_
  cases v with
  | list items => exact Run.Law.runText hsame _ frame true
  | _ => exact .refl _

lemma marked_execute (keepLast : Bool) {p p' : Program}
    (hp : List.Forall₂ (Node.Instance x name) p p') :
    Run.Marked mark (self.execute frame keepLast p) (self'.execute frame keepLast p') := by
  induction hp with
  | nil => exact .refl _
  | @cons node node' rest rest' hnode hrest ih =>
    refine (Run.markedLaw mark).toLaw.toComparison.onValue (h node node' hnode) fun v => ?_
    have hempty : rest.isEmpty = rest'.isEmpty := by
      cases hrest <;> rfl
    rw [hnode.line_eq, hempty]
    split
    · exact .refl _
    split
    · exact ih
    · exact .refl _

lemma marked_conditional (hsame : (Run.markedLaw mark).toLaw.Evaluators self self')
    {form : ConditionalForm} {a a' b b' : Node} {c c' : Option Node} {line : Nat}
    (ha : a.Instance x name a') (hb : b.Instance x name b')
    (hc : Option.Rel (Node.Instance x name) c c') :
    Run.Marked mark (self.conditional form a b c frame line)
      (self'.conditional form a' b' c' frame line) := by
  refine (Run.markedLaw mark).toLaw.toComparison.onValue (marked_input h _ ha) fun v =>
    Run.Marked.andThen (.refl _) fun truth => ?_
  split
  · exact marked_branch h hsame hb
  · cases hc with
    | none => exact .refl _
    | some hc => exact marked_branch h hsame hc

end

/-- The number is evaluated like the variable, as long as that has the value of the number. -/
lemma marked_place {self : Evaluator} (line : Nat) : Run.Marked mark
    (Run.guarded (Machine.Sees x name frame) (Run.fail mark) (Run.give (.value (.number x))))
    (self.step (.reference (Text.lower name) line) frame) := by
  intro settings m
  unfold Run.guarded
  split
  case isFalse => exact .inl ⟨m, rfl⟩
  case isTrue hsees =>
    have hlookup : m.scopes.lookup frame (Text.lower name) = some (.number x) := by
      have hbinding : ∀ f, m.scopes.binding? f (Text.lower name) = m.scopes.binding? f name := by
        intro f
        simp only [Scopes.binding?, Text.lower_lower]
      simp only [Scopes.lookup, hbinding]
      exact hsees.1
    refine .inr ?_
    simp only [Evaluator.step, Run.readVariable, Run.ask, Scopes.get, hlookup, Run.lift, bind,
      Run.andThen, Run.give]
    rfl

/-- **A tree with numbers in the place of the variable is evaluated like the tree with the
variable**, as long as that has the value of the number. -/
theorem evalSeeing_instance (bound : Nat) {node node' : Node}
    (hnode : node.Instance x name node') :
    Run.Marked mark (evalSeeing x name frame mark bound node frame) (eval bound node' frame) := by
  let k := (Run.markedLaw mark).toLaw.toComparison
  induction bound generalizing node node' with
  | zero => exact .refl _
  | succ bound ih =>
    have hsame : (Run.markedLaw mark).toLaw.Evaluators (evalSeeing x name frame mark bound)
        (eval bound) := evalSeeing_same bound
    cases hnode with
    | same => exact evalSeeing_same (bound + 1) _ _ frame rfl
    | place line => exact marked_place line
    | binary op line ha hb =>
      refine Run.Marked.guarded ?_ _
      exact k.onValue (marked_input (fun _ _ => ih) _ ha) fun a =>
        k.onValue (marked_input (fun _ _ => ih) _ hb) fun b => .refl _
    | call callee line hinputs =>
      refine Run.Marked.guarded ?_ _
      rw [Evaluator.stepBy_readProgram]
      refine Run.Marked.andThen (.refl _) fun callable =>
        marked_inputs (fun _ _ => ih) callee hinputs fun values => ?_
      cases callable with
      | builtin b => exact Run.Law.callBuiltin hsame b frame values line
      | procedure p => exact Run.Law.callProcedure hsame p values line
    | oneBranch line ha hb =>
      refine Run.Marked.guarded ?_ _
      rw [Evaluator.stepBy_readProgram]
      exact marked_conditional (fun _ _ => ih) hsame ha hb .none
    | twoBranches line ha hb hc =>
      refine Run.Marked.guarded ?_ _
      rw [Evaluator.stepBy_readProgram]
      exact marked_conditional (fun _ _ => ih) hsame ha hb (.some hc)

lemma marked_runTokens {ts us : List Placed} (h : List.Forall₂ (Placed.Instance x name) ts us)
    (bound : Nat) (keepLast : Bool) :
    Run.Marked mark ((evalSeeing x name frame mark bound).runTokens ts frame keepLast)
      ((eval bound).runTokens us frame keepLast) := by
  intro settings m
  simp only [Evaluator.runTokens, bind, Run.andThen, Run.readTokens]
  rcases Program.ofTokens_instance h m.vocabulary with ⟨e, w, hts, hus⟩ | ⟨p, q, w, hts, hus, hpq⟩
  · rw [hts, hus]
    exact .inr rfl
  · rw [hts, hus]
    exact marked_execute (fun _ _ => evalSeeing_instance bound) keepLast hpq settings _

/-- **Tokens with numbers in the place of a variable do the same as those with the variable**, if
that has the value of the number as long as they are run. -/
theorem runTokens_instance {ts us : List Placed}
    (h : List.Forall₂ (Placed.Instance x name) ts us) {bound : Nat} {keepLast : Bool}
    {settings : Settings} {m : Machine}
    (hsees : ∀ beyond, (evalBy Run.readProgram (Run.guarded (Machine.Sees x name frame) beyond)
      bound).runTokens ts frame keepLast settings m =
        (eval bound).runTokens ts frame keepLast settings m) :
    (eval bound).runTokens us frame keepLast settings m =
      (eval bound).runTokens ts frame keepLast settings m := by
  -- a run cannot end with both of two marks, so it ends with none
  let mark (line : Nat) : RuntimeError := .unimplemented "" line
  have hne : mark 0 ≠ mark 1 := by simp [mark]
  exact Run.Marked.eq_of_unmarked hne (marked_runTokens h bound keepLast)
    (marked_runTokens h bound keepLast) (hsees _) (hsees _)

end

end Logo
