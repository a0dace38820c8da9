import Logo.Proofs.Running.Comparison

/-!
# Laws of evaluation

A *law* is a comparison of runs that read texts in the usual way. The relation may overlook lines:
`lines` says what is compared of a line, and the two sides may hold different syntax trees as long
as these agree in that.

Any law relates evaluation with itself, and if it relates two evaluators, it relates all functions
of evaluation that are made with them. With one evaluator on both sides a law says what every run
keeps; with two it compares them. So a property of evaluation is shown by giving the law, one action
at a time.

* `Run.Law`: what has to be shown of a relation.
* `Run.ExactLaw`: what has to be shown of one that does not overlook lines.
* `Run.Law.step`: one step of evaluation.
* `Run.Law.eval`: evaluation with any bound.
* `Run.Law.entry`: everything that evaluation can be asked to do.
* `Run.Law.sessionRun`, `Run.Law.sessionEvaluate`: the texts of a session.
-/

namespace Logo

/-! ## Laws -/

/-- A relation between runs that goes over to all that evaluation puts together. -/
structure Run.Law where
  /-- What is compared of a line. -/
  lines : Nat → Nat
  /-- The two runs are related. -/
  Rel : {α : Type} → Run α → Run α → Prop
  give : ∀ {α : Type} (a : α), Rel (Run.give a) (Run.give a)
  fail : ∀ {α : Type} {e e' : RuntimeError}, e.mapLine lines = e'.mapLine lines →
    e.isLimit = false → Rel (Run.fail e : Run α) (Run.fail e')
  giveUp : ∀ {α : Type}, Rel (Run.giveUp : Run α) Run.giveUp
  andThen : ∀ {α β : Type} {r s : Run α} {next next' : α → Run β}, Rel r s →
    (∀ a, Rel (next a) (next' a)) → Rel (r >>= next) (s >>= next')
  settings : ∀ {β : Type} {next next' : Settings → Run β},
    (∀ s s', s.corpus = s'.corpus → s.readFile = s'.readFile → Rel (next s) (next' s')) →
    Rel (Run.settings >>= next) (Run.settings >>= next')
  resolve : ∀ {β : Type} {next next' : Callable → Run β} (name : String) {l l' : Nat},
    lines l = lines l' →
    (∀ c c', c.mapLines lines = c'.mapLines lines → Rel (next c) (next' c')) →
    Rel (Run.ask (fun m => m.vocabulary.resolve name l) >>= next)
      (Run.ask (fun m => m.vocabulary.resolve name l') >>= next')
  leave : ∀ (name : String) (flow : Flow) {l l' : Nat}, lines l = lines l' →
    Rel (Evaluator.leave name flow l) (Evaluator.leave name flow l')
  readVariable : ∀ (frame : FrameId) (name : String) {l l' : Nat}, lines l = lines l' →
    Rel (Run.readVariable frame name l) (Run.readVariable frame name l')
  setVariable : ∀ (frame : FrameId) (name : String) (v : Value),
    Rel (Run.setVariable frame name v) (Run.setVariable frame name v)
  write : ∀ (text : String) {l l' : Nat}, lines l = lines l' →
    Rel (Run.write text l) (Run.write text l')
  define : ∀ {p p' : Procedure}, p.mapLines lines = p'.mapLines lines →
    Rel (Run.define p) (Run.define p')
  readProgram : ∀ text : String, Rel (Run.readProgram text) (Run.readProgram text)
  openFrame : ∀ (parent : FrameId) (bindings : Dictionary Value),
    Rel (Run.openFrame parent bindings) (Run.openFrame parent bindings)
  nested : ∀ {l l' : Nat} {body body' : Run Flow}, lines l = lines l' → Rel body body' →
    Rel (Run.nested l body) (Run.nested l' body')

/-- What has to be shown of a relation that does not overlook lines: each action is compared with
itself only. -/
structure Run.ExactLaw where
  /-- The two runs are related. -/
  Rel : {α : Type} → Run α → Run α → Prop
  give : ∀ {α : Type} (a : α), Rel (Run.give a) (Run.give a)
  fail : ∀ {α : Type} (e : RuntimeError), e.isLimit = false → Rel (Run.fail e : Run α) (Run.fail e)
  giveUp : ∀ {α : Type}, Rel (Run.giveUp : Run α) Run.giveUp
  andThen : ∀ {α β : Type} {r s : Run α} {next next' : α → Run β}, Rel r s →
    (∀ a, Rel (next a) (next' a)) → Rel (r >>= next) (s >>= next')
  settings : ∀ {β : Type} {next next' : Settings → Run β},
    (∀ s s', s.corpus = s'.corpus → s.readFile = s'.readFile → Rel (next s) (next' s')) →
    Rel (Run.settings >>= next) (Run.settings >>= next')
  resolve : ∀ (name : String) (l : Nat),
    Rel (Run.ask fun m => m.vocabulary.resolve name l)
      (Run.ask fun m => m.vocabulary.resolve name l)
  leave : ∀ (name : String) (flow : Flow) (l : Nat),
    Rel (Evaluator.leave name flow l) (Evaluator.leave name flow l)
  readVariable : ∀ (frame : FrameId) (name : String) (l : Nat),
    Rel (Run.readVariable frame name l) (Run.readVariable frame name l)
  setVariable : ∀ (frame : FrameId) (name : String) (v : Value),
    Rel (Run.setVariable frame name v) (Run.setVariable frame name v)
  write : ∀ (text : String) (l : Nat), Rel (Run.write text l) (Run.write text l)
  define : ∀ p : Procedure, Rel (Run.define p) (Run.define p)
  readProgram : ∀ text : String, Rel (Run.readProgram text) (Run.readProgram text)
  openFrame : ∀ (parent : FrameId) (bindings : Dictionary Value),
    Rel (Run.openFrame parent bindings) (Run.openFrame parent bindings)
  nested : ∀ {body body' : Run Flow}, Rel body body' →
    ∀ l, Rel (Run.nested l body) (Run.nested l body')

/-- Trees and errors that agree in all lines are the same. -/
def Run.ExactLaw.toLaw (law : Run.ExactLaw) : Run.Law where
  lines := id
  Rel := law.Rel
  give := law.give
  fail h hlimit := by
    rw [RuntimeError.mapLine_id, RuntimeError.mapLine_id] at h
    subst h
    exact law.fail _ hlimit
  giveUp := law.giveUp
  andThen := law.andThen
  settings := law.settings
  resolve := by
    rintro _ _ _ name l _ rfl h
    exact law.andThen (law.resolve name l) fun c => h c c rfl
  leave := by
    rintro name flow l _ rfl
    exact law.leave name flow l
  readVariable := by
    rintro frame name l _ rfl
    exact law.readVariable frame name l
  setVariable := law.setVariable
  write := by
    rintro text l _ rfl
    exact law.write text l
  define h := by
    rw [Procedure.mapLines_id, Procedure.mapLines_id] at h
    subst h
    exact law.define _
  readProgram := law.readProgram
  openFrame := law.openFrame
  nested := by
    rintro l _ body body' rfl h
    exact law.nested h l

namespace Run

namespace Law

/-- A law compares two sides that count lines and read texts in the same way. -/
@[reducible] def toComparison (law : Run.Law) : Run.Comparison where
  left := law.lines
  right := law.lines
  read := Run.readProgram
  read' := Run.readProgram
  Rel := law.Rel
  give := law.give
  fail := law.fail
  giveUp := law.giveUp
  andThen := law.andThen
  settings := law.settings
  resolve := law.resolve
  leave := law.leave
  readVariable := law.readVariable
  setVariable := law.setVariable
  write := law.write
  define := law.define
  reading text hnext := law.andThen (law.readProgram text) fun p => hnext p p rfl
  openFrame := law.openFrame
  nested := law.nested

/-- The evaluators are related on syntax trees that differ in lines only. -/
def Evaluators (law : Run.Law) (self self' : Evaluator) : Prop :=
  ∀ node node' frame, node.mapLines law.lines = node'.mapLines law.lines →
    law.Rel (self node frame) (self' node' frame)

variable {law : Run.Law} {self self' : Evaluator} (h : law.Evaluators self self')
include h

lemma execute (frame : FrameId) (keepLast : Bool) {p p' : Program}
    (hp : Program.mapLines law.lines p = Program.mapLines law.lines p') :
    law.Rel (self.execute frame keepLast p) (self'.execute frame keepLast p') :=
  Comparison.execute (k := law.toComparison) h frame keepLast hp

lemma collect (frame : FrameId) (values : List Value) {p p' : Program}
    (hp : Program.mapLines law.lines p = Program.mapLines law.lines p') :
    law.Rel (self.collect frame values p) (self'.collect frame values p') :=
  Comparison.collect (k := law.toComparison) h frame values hp

lemma runText (text : String) (frame : FrameId) (keepLast : Bool) :
    law.Rel (self.runText text frame keepLast) (self'.runText text frame keepLast) :=
  Comparison.runTextBy (k := law.toComparison) h text frame keepLast

lemma callBuiltin (b : Builtin) (frame : FrameId) (values : List Value) (l : Nat) :
    law.Rel (self.callBuiltin b frame values l) (self'.callBuiltin b frame values l) := by
  rw [← Evaluator.callBuiltinBy_readProgram, ← Evaluator.callBuiltinBy_readProgram]
  exact Comparison.callBuiltinBy (k := law.toComparison) h b frame values rfl

lemma callProcedure (p : Procedure) (values : List Value) (l : Nat) :
    law.Rel (self.callProcedure p values l) (self'.callProcedure p values l) :=
  Comparison.callProcedure (k := law.toComparison) h rfl values rfl

/-- **A step of evaluation** is related if the evaluators of the parts are. -/
theorem step : law.Evaluators self.step self'.step := by
  rw [← Evaluator.stepBy_readProgram, ← Evaluator.stepBy_readProgram]
  exact Comparison.stepBy (k := law.toComparison) h

end Law

namespace Law

variable (law : Run.Law)

/-- Evaluation is related to itself. -/
theorem eval (bound : Nat) : law.Evaluators (Logo.eval bound) (Logo.eval bound) := by
  rw [← evalBy_readProgram]
  exact law.toComparison.evalBy bound

end Law

end Run

/-! ## Ways into evaluation -/

/-- What evaluation can be asked to do. -/
inductive Entry where
  /-- Evaluate a node. -/
  | node (node : Node) (frame : FrameId)
  /-- Carry out instructions and collect their values. -/
  | collect (program : Program) (frame : FrameId)
  /-- Carry out instructions. -/
  | execute (program : Program) (frame : FrameId) (keepLast : Bool)
  /-- Run a text. -/
  | text (text : String) (frame : FrameId) (keepLast : Bool)
  /-- Run a value as a list of instructions. -/
  | value (v : Value) (frame : FrameId) (keepLast : Bool)
  /-- Call a built-in procedure. -/
  | builtin (b : Builtin) (frame : FrameId) (values : List Value) (line : Nat)
  /-- Call a procedure that a program has defined. -/
  | procedure (p : Procedure) (values : List Value) (line : Nat)

/-- Does what the entry asks for. -/
def Entry.run (self : Evaluator) : Entry → Run Flow
  | node n frame => self n frame
  | collect program frame => self.collect frame [] program
  | execute program frame keepLast => self.execute frame keepLast program
  | text t frame keepLast => self.runText t frame keepLast
  | value v frame keepLast => self.runValue v frame keepLast
  | builtin b frame values line => self.callBuiltin b frame values line
  | procedure p values line => self.callProcedure p values line

/-- Every way into evaluation is related if the evaluators are. -/
theorem Run.Law.entry {law : Run.Law} {self self' : Evaluator} (h : law.Evaluators self self')
    (entry : Entry) : law.Rel (entry.run self) (entry.run self') := by
  cases entry with
  | node n frame => exact h n n frame rfl
  | collect program frame => exact collect h frame [] rfl
  | execute program frame keepLast => exact execute h frame keepLast rfl
  | text t frame keepLast => exact runText h t frame keepLast
  | value v frame keepLast => exact runText h v.printForm frame keepLast
  | builtin b frame values line => exact callBuiltin h b frame values line
  | procedure p values line => exact callProcedure h p values line

/-! ## Sessions -/

namespace Run.Law

lemma atTopLevel (law : Run.Law) (flow : Flow) :
    law.Rel (Session.atTopLevel flow) (Session.atTopLevel flow) := by
  cases flow with
  | value v => exact law.give v
  | output v => exact law.fail rfl rfl
  | stop => exact law.fail rfl rfl

variable {law : Run.Law} {bound bound' : Nat}
  (h : law.Evaluators (Logo.eval bound) (Logo.eval bound'))
include h

lemma sessionRun (source : String) :
    law.Rel (Session.run bound source) (Session.run bound' source) :=
  law.andThen (runText h source _ false) fun flow =>
    law.andThen (law.atTopLevel flow) fun _ => law.give ()

lemma sessionEvaluate (source : String) :
    law.Rel (Session.evaluate bound source) (Session.evaluate bound' source) :=
  law.andThen (law.readProgram source) fun _ =>
    law.andThen (collect h _ [] rfl) law.atTopLevel

end Run.Law

end Logo
