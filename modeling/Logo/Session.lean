import Logo.Machine.Evaluator

/-!
# Sessions

A session runs one text after another on a machine that goes on from each to the next. Nothing is
undone when a text fails. All functions take a bound on the depth of the recursion, which has no
other effect than that a run beyond it has no answer.
-/

namespace Logo.Session

/-- The value of a flow outside of all procedures, where there is nothing to leave. -/
def atTopLevel : Flow → Run Value
  | .value v => Run.give v
  | .output _ => Run.fail (.outsideProcedure "output" 0)
  | .stop => Run.fail (.outsideProcedure "stop" 0)

/-- Runs a text in the global frame. All its instructions have to be commands. -/
def run (bound : Nat) (source : String) : Run Unit := do
  let flow ← (eval bound).runText source Machine.globalFrame false
  let _ ← atTopLevel flow

/-- Runs a text in the global frame and gives the list of the values of its instructions. -/
def evaluate (bound : Nat) (source : String) : Run Value := do
  let program ← Run.readProgram source
  let flow ← (eval bound).collect Machine.globalFrame [] program
  atTopLevel flow

/-- The name of the variable that holds the input with a number. -/
def inputName (i : Nat) : String := "arg " ++ toString i

/-- Calls what a name stands for with given values. They are bound in a child of the global frame. -/
def call (bound : Nat) (name : String) (values : List Value) (line : Nat) : Run Flow := do
  let names := (List.range values.length).map inputName
  let frame ← Run.openFrame Machine.globalFrame (Scopes.bindInputs .empty names values)
  eval bound (.call name (names.map fun n => .reference n line) line) frame

end Logo.Session
