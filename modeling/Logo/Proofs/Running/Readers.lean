import Logo.Session
import Mathlib.Tactic.Lemma

/-!
# Evaluation with another reader

Evaluation reads a text whenever it runs a list or a file. Here the reader is a parameter: it stands
in for `Run.readProgram` and may give up on some texts, or count lines in another way. Something may
also be done around the evaluation of each node.

* `Evaluator.stepBy`: a step with another reader.
* `evalBy`: evaluation with another reader and with something around the evaluation of each node.
-/

namespace Logo

namespace Evaluator

variable (read : String → Run Program) (self : Evaluator)

/-- Runs a text. -/
def runTextBy (text : String) (frame : FrameId) (keepLast : Bool) : Run Flow := do
  let program ← read text
  execute self frame keepLast program

/-- Runs a value as a list of instructions. -/
def runValueBy (v : Value) (frame : FrameId) (keepLast : Bool) : Run Flow :=
  runTextBy read self v.printForm frame keepLast

/-- Carries out a command. Four of the commands run texts. -/
def performBy (command : Command) (frame : FrameId) (values : List Value) (line : Nat) :
    Run Flow :=
  match command with
  | .load => do
    let name ← Run.lift (firstInput "load" values line)
    let name ← Run.lift (name.asWord "load" line)
    let settings ← Run.settings
    let path := Path.script settings.corpus name
    match settings.readFile path with
    | .ok text => runTextBy read self text frame false
    | .error cause => Run.fail (.loadFailed path cause line)
  | .run => do
    let instructions ← Run.lift (firstInput "run" values line)
    runValueBy read self instructions frame true
  | .repeatTimes => do
    let (count, instructions) ← Run.lift (firstTwoInputs "repeat" values line)
    let count ← Run.lift (count.asInteger "repeat" line)
    let count ← Run.lift (Value.natural count line)
    Run.times (runValueBy read self instructions frame false) count
  | .foreach => do
    let (data, template) ← Run.lift (firstTwoInputs "foreach" values line)
    let members ← Run.lift (data.members "foreach" line)
    Run.each (fun v place => runValueBy read self (Template.fill v place template) frame false) 1
      members
  | command => perform self command frame values line

/-- Calls a built-in procedure. -/
def callBuiltinBy (b : Builtin) (frame : FrameId) (values : List Value) (line : Nat) : Run Flow :=
  match b.action with
  | .command command =>
    if values.length < b.least then Run.fail (.notEnoughInputs b.name line)
    else performBy read self command frame values line
  | _ => callBuiltin self b frame values line

/-- Calls what a name stands for. -/
def callBy (name : String) (nodes : List Node) (frame : FrameId) (line : Nat) : Run Flow := do
  let callable ← Run.ask fun m => m.vocabulary.resolve name line
  inputs self name frame nodes fun values =>
    match callable with
    | .builtin b => callBuiltinBy read self b frame values line
    | .procedure p => callProcedure self p values line

/-- The branch of a conditional. -/
def branchBy (node : Node) (frame : FrameId) : Run Flow :=
  Run.onValue (self node frame) fun v =>
    match v with
    | .list _ => runValueBy read self v frame true
    | _ => Run.give (.value v)

/-- Evaluates a conditional. -/
def conditionalBy (form : ConditionalForm) (condition thenBranch : Node) (elseBranch : Option Node)
    (frame : FrameId) (line : Nat) : Run Flow :=
  Run.onValue (input self form.keyword frame condition) fun v => do
    if ← Run.lift (v.asTruth form.keyword line) then branchBy read self thenBranch frame
    else
      match elseBranch with
      | some node => branchBy read self node frame
      | none => return .nothing

/-- The evaluator that uses `self` for the parts of a node and `read` for texts. -/
def stepBy : Evaluator := fun node frame =>
  match node with
  | .call name nodes line => callBy read self name nodes frame line
  | .conditional form condition thenBranch elseBranch line =>
    conditionalBy read self form condition thenBranch elseBranch frame line
  | node => step self node frame

/-! With the ordinary reader nothing is different. -/

lemma performBy_readProgram : performBy Run.readProgram self = perform self := by
  funext command frame values line
  cases command <;> rfl

lemma callBuiltinBy_readProgram : callBuiltinBy Run.readProgram self = callBuiltin self := by
  funext b frame values line
  obtain ⟨name, arity, least, action⟩ := b
  cases action with
  | command command => rw [callBuiltinBy, performBy_readProgram]; rfl
  | operation op => rfl
  | reserved => rfl

lemma stepBy_readProgram : stepBy Run.readProgram self = step self := by
  funext node frame
  cases node with
  | call name nodes line =>
    rw [stepBy, callBy, callBuiltinBy_readProgram]
    rfl
  | _ => rfl

end Evaluator

/-- Evaluation with another reader and with something around the evaluation of each node. -/
def evalBy (read : String → Run Program) (around : Run Flow → Run Flow) : (bound : Nat) → Evaluator
  | 0 => fun _ _ => Run.giveUp
  | bound + 1 => fun node frame =>
    around (Evaluator.stepBy read (evalBy read around bound) node frame)

/-- Without supervision this is evaluation. -/
lemma evalBy_readProgram (bound : Nat) : evalBy Run.readProgram id bound = eval bound := by
  induction bound with
  | zero => rfl
  | succ bound ih =>
    rw [eval, ← Evaluator.stepBy_readProgram, ← ih]
    rfl

end Logo
