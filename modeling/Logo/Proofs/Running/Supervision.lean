import Logo.Proofs.Running.Depth

/-!
# Supervised evaluation

What holds *while* a program runs cannot be read off its outcome. It is stated by comparing
evaluation with evaluation under supervision, which stops at the moments that matter:

* whenever a text is read, by a reader that stands in for `Run.readProgram` and may, for instance,
  give up on some texts;
* whenever the evaluation of a node starts or ends, by a guard that looks at the machine.

If supervised evaluation does the same as evaluation whatever the supervisor would do in a case, that
case does not arise. If it does not give up, the texts that it gives up on are not read.

Both stand in `evalBy`, which is evaluation with another reader and with something around the
evaluation of each node.

* `Run.guarded`: a run with a guard.
* `Session.Told`: the machines of a session that is only given texts and lists to run.
-/

namespace Logo

variable {α : Type}

/-- The machine that a run ends on, with a value or with an error. -/
def Outcome.after? : Outcome α → Option Machine
  | .done _ after => some after
  | .failed _ after => some after
  | .exhausted => none

/-- The run ends with a value that passes the test. -/
def Outcome.gives (test : α → Bool) : Outcome α → Bool
  | .done a _ => test a
  | _ => false

lemma Outcome.exists_of_gives {test : α → Bool} {o : Outcome α} (h : o.gives test = true) :
    ∃ a after, o = .done a after ∧ test a = true := by
  cases o with
  | done a after => exact ⟨a, after, rfl, h⟩
  | failed e after => cases h
  | exhausted => cases h

/-! ## Guards -/

open Classical in
/-- The run, unless it starts or ends on a machine that is not as `Ok` says; then it is `beyond`. -/
noncomputable def Run.guarded (Ok : Machine → Prop) (beyond r : Run α) : Run α := fun settings m =>
  if Ok m ∧ ∀ after, (r settings m).after? = some after → Ok after then r settings m
  else beyond settings m

lemma Run.guarded_eq {Ok : Machine → Prop} {beyond r : Run α} {settings : Settings} {m : Machine}
    (h : Ok m) (hafter : ∀ after, (r settings m).after? = some after → Ok after) :
    Run.guarded Ok beyond r settings m = r settings m := if_pos ⟨h, hafter⟩

/-! ## Sessions that are given texts -/

namespace Session

/-- What a session can be given to read and run. -/
inductive Input where
  /-- A text, all instructions of which have to be commands. -/
  | run (source : String)
  /-- A text, the values of which are collected. -/
  | evaluate (source : String)
  /-- A text, in a frame. -/
  | text (text : String) (frame : FrameId) (keepLast : Bool)
  /-- A list of instructions, in a frame. -/
  | value (v : Value) (frame : FrameId) (keepLast : Bool)

/-- The input as a step of a session. -/
def Input.step : Input → Step
  | run source => .run source
  | evaluate source => .evaluate source
  | text t frame keepLast => .enter (.text t frame keepLast)
  | value v frame keepLast => .enter (.value v frame keepLast)

/-- Runs a text in the global frame and gives the list of the values of its instructions. -/
def evaluateBy (read : String → Run Program) (self : Evaluator) (source : String) : Run Value := do
  let program ← read source
  let flow ← self.collect Machine.globalFrame [] program
  atTopLevel flow

/-- Reads the input with `read` and runs it with `self`. What it gives is left out. -/
def Input.performBy (read : String → Run Program) (self : Evaluator) : Input → Run Unit
  | run source => do
    let flow ← self.runTextBy read source Machine.globalFrame false
    let _ ← atTopLevel flow
  | evaluate source => do let _ ← evaluateBy read self source
  | text t frame keepLast => do let _ ← self.runTextBy read t frame keepLast
  | value v frame keepLast => do let _ ← self.runValueBy read v frame keepLast

lemma Input.performBy_readProgram (bound : Nat) (input : Input) :
    input.performBy Run.readProgram (eval bound) = input.step.perform bound := by
  cases input <;> rfl

/-- The machines that a session can come to if it is given texts and lists to run, which succeed or
fail, each with settings of its own. -/
inductive Told : Machine → Prop
  | initial : Told .initial
  | next {m after : Machine} (input : Input) (bound : Nat) (settings : Settings) : Told m →
      (input.step.perform bound settings m).after? = some after → Told after

end Session

end Logo
