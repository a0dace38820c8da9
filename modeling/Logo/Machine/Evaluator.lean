import Logo.Machine.Basic
import Logo.Operation.Apply
import Logo.Operation.Operators
import Logo.Path
import Logo.Program.Grammar
import Logo.Template

/-!
# Evaluation

An `Evaluator` says what a node leads to in a frame. All functions of this file take the evaluator
that is used for the parts of what they evaluate; `step` is one evaluator made from another, and
`eval` repeats it, with a bound on the depth of the recursion. So a property of evaluation is shown
for one `step` at a time.

A list is run by reading its text again. That is why running needs the vocabulary of the moment, and
why a procedure can be called in a list before it is defined.
-/

namespace Logo

/-- What a node leads to in a frame. -/
abbrev Evaluator := Node → FrameId → Run Flow

mutual

/-- The value of an item of a list. -/
def Node.quoted : Node → Value
  | .list items _ => .list (Node.quotedEach items)
  | .word text _ => .word text
  | _ => .absent

/-- The values of the items of a list. -/
def Node.quotedEach : List Node → List Value
  | [] => []
  | node :: nodes => Node.quoted node :: Node.quotedEach nodes

end

/-- The program that a text forms. What it declares stays declared, also if it is no program. -/
def Run.readProgram (text : String) : Run Program := fun _ m =>
  match Program.ofText text m.vocabulary with
  | (.ok program, vocabulary) => .done program { m with vocabulary := vocabulary }
  | (.error e, vocabulary) => .failed (.unreadable e) { m with vocabulary := vocabulary }

namespace Evaluator

variable (self : Evaluator)

/-! ## Instructions -/

/-- Carries out instructions. Each of them has to be a command, except that the value of the last one
is the value of the whole if `keepLast` asks for it. -/
def execute (frame : FrameId) (keepLast : Bool) : Program → Run Flow
  | [] => Run.give .nothing
  | node :: rest =>
    Run.onValue (self node frame) fun v =>
      if keepLast && rest.isEmpty then Run.give (.value v)
      else if v.isAbsent then execute frame keepLast rest
      else Run.fail (.unconsumedValue v.display node.line)

/-- Carries out instructions and collects their values behind `values`, which come last one first. -/
def collect (frame : FrameId) (values : List Value) : Program → Run Flow
  | [] => Run.give (.value (.list values.reverse))
  | node :: rest =>
    Run.onValue (self node frame) fun v =>
      collect frame (if v.isAbsent then values else v :: values) rest

/-- Runs a text. -/
def runText (text : String) (frame : FrameId) (keepLast : Bool) : Run Flow := do
  let program ← Run.readProgram text
  execute self frame keepLast program

/-- Runs a value as a list of instructions. -/
def runValue (v : Value) (frame : FrameId) (keepLast : Bool) : Run Flow :=
  runText self v.printForm frame keepLast

/-! ## Inputs -/

/-- A node as an input to `consumer`. A call that gives no value is none. -/
def input (consumer : String) (frame : FrameId) (node : Node) : Run Flow := do
  match ← self node frame, node with
  | .value .absent, .call name _ line => Run.fail (.noOutput name consumer line)
  | flow, _ => return flow

/-- The inputs of `consumer`, from left to right, and what is done with them. -/
def inputs (consumer : String) (frame : FrameId) :
    List Node → (List Value → Run Flow) → Run Flow
  | [], next => next []
  | node :: nodes, next =>
    Run.onValue (input self consumer frame node) fun v =>
      inputs consumer frame nodes fun vs => next (v :: vs)

/-! ## Procedures -/

/-- Calls a procedure that a program has defined. -/
def callProcedure (p : Procedure) (values : List Value) (line : Nat) : Run Flow := do
  let flow ← Run.nested line do
    let frame ← Run.openFrame p.frame (Scopes.bindInputs .empty p.params values)
    execute self frame false p.body
  return flow.ofBody

/-- Ends the procedure with `flow`, if there is one to end. -/
def leave (name : String) (flow : Flow) (line : Nat) : Run Flow :=
  Run.ask fun m => if m.inProcedure then .ok flow else .error (.outsideProcedure name line)

/-- Carries out a command. -/
def perform (command : Command) (frame : FrameId) (values : List Value) (line : Nat) :
    Run Flow := do
  match command with
  | .print =>
    Run.write (" ".intercalate (values.map Value.printForm) ++ "\n") line
    return .nothing
  | .showForm =>
    Run.write (" ".intercalate (values.map Value.display) ++ "\n") line
    return .nothing
  | .typeOut =>
    Run.write (String.join (values.map Value.printForm)) line
    return .nothing
  | .make =>
    let (name, v) ← Run.lift (firstTwoInputs "make" values line)
    Run.setVariable frame (← Run.lift (name.asWord "make" line)) v
    return .nothing
  | .name =>
    let (v, name) ← Run.lift (firstTwoInputs "name" values line)
    Run.setVariable frame (← Run.lift (name.asWord "name" line)) v
    return .nothing
  | .thing =>
    let name ← Run.lift (firstInput "thing" values line)
    let v ← Run.readVariable frame (← Run.lift (name.asWord "thing" line)) line
    return .value v
  | .load =>
    let name ← Run.lift (firstInput "load" values line)
    let name ← Run.lift (name.asWord "load" line)
    let settings ← Run.settings
    let path := Path.script settings.corpus name
    match settings.readFile path with
    | .ok text => runText self text frame false
    | .error cause => Run.fail (.loadFailed path cause line)
  | .run =>
    let instructions ← Run.lift (firstInput "run" values line)
    runValue self instructions frame true
  | .repeatTimes =>
    let (count, instructions) ← Run.lift (firstTwoInputs "repeat" values line)
    let count ← Run.lift (count.asInteger "repeat" line)
    let count ← Run.lift (Value.natural count line)
    Run.times (runValue self instructions frame false) count
  | .foreach =>
    let (data, template) ← Run.lift (firstTwoInputs "foreach" values line)
    let members ← Run.lift (data.members "foreach" line)
    Run.each (fun v place => runValue self (Template.fill v place template) frame false) 1 members
  | .output =>
    let v ← Run.lift (firstInput "output" values line)
    leave "output" (.output v) line
  | .stop => leave "stop" .stop line

/-- Calls a built-in procedure. -/
def callBuiltin (b : Builtin) (frame : FrameId) (values : List Value) (line : Nat) : Run Flow :=
  if values.length < b.least then Run.fail (.notEnoughInputs b.name line)
  else
    match b.action with
    | .operation op => do return .value (← Run.lift (op.apply values line))
    | .command command => perform self command frame values line
    | .reserved => Run.fail (.unimplemented b.name line)

/-- Calls what a name stands for. It is looked up before the inputs are evaluated. -/
def call (name : String) (nodes : List Node) (frame : FrameId) (line : Nat) : Run Flow := do
  let callable ← Run.ask fun m => m.vocabulary.resolve name line
  inputs self name frame nodes fun values =>
    match callable with
    | .builtin b => callBuiltin self b frame values line
    | .procedure p => callProcedure self p values line

/-! ## Nodes -/

/-- The branch of a conditional: a list is run, any other value is the value of the conditional. -/
def branch (node : Node) (frame : FrameId) : Run Flow :=
  Run.onValue (self node frame) fun v =>
    match v with
    | .list _ => runValue self v frame true
    | _ => Run.give (.value v)

/-- Evaluates a conditional. -/
def conditional (form : ConditionalForm) (condition thenBranch : Node) (elseBranch : Option Node)
    (frame : FrameId) (line : Nat) : Run Flow :=
  Run.onValue (input self form.keyword frame condition) fun v => do
    if ← Run.lift (v.asTruth form.keyword line) then branch self thenBranch frame
    else
      match elseBranch with
      | some node => branch self node frame
      | none => return .nothing

/-- The evaluator that uses `self` for the parts of a node. -/
def step : Evaluator := fun node frame =>
  match node with
  | .number x _ => Run.give (.value (.number x))
  | .word text _ => Run.give (.value (.word text))
  | .truth b _ => Run.give (.value (.truth b))
  | .reference name line => do return .value (← Run.readVariable frame name line)
  | .list items _ => Run.give (.value (.list (Node.quotedEach items)))
  | .binary op left right line =>
    Run.onValue (input self op.symbol frame left) fun a =>
      Run.onValue (input self op.symbol frame right) fun b => do
        return .value (← Run.lift (op.apply a b line))
  | .definition name params body _ => do
    Run.define ⟨name, params, body, frame⟩
    return .nothing
  | .call name nodes line => call self name nodes frame line
  | .conditional form condition thenBranch elseBranch line =>
    conditional self form condition thenBranch elseBranch frame line

end Evaluator

/-- Evaluation with a bound on the depth of the recursion. -/
def eval : (bound : Nat) → Evaluator
  | 0 => fun _ _ => Run.giveUp
  | bound + 1 => Evaluator.step (eval bound)

end Logo
