import Logo.Vocabulary

/-!
# The machine

A machine holds what a running program can change: the vocabulary, the variables, how many procedure
calls are open, and what has been written. `Settings` hold what it cannot change.

A `Run` is a piece of running. It ends with a value, with an error, or without an answer because the
bound on its recursion was used up. What has been changed before an error stays changed. What an
instruction leads to is a `Flow`: a value, or the wish to leave the procedure that it stands in.
-/

namespace Logo

/-! ## What has been written -/

/-- What a program has written. -/
structure Transcript where
  /-- The texts, the latest one first. -/
  writes : List String
  /-- How many bytes the texts take up. -/
  bytes : Nat
  /-- The bytes are those of the texts. -/
  bytes_eq : bytes = writes.foldr (fun text bytes => text.utf8ByteSize + bytes) 0

namespace Transcript

/-- Nothing has been written. -/
def empty : Transcript := ⟨[], 0, rfl⟩

/-- One more text. -/
def append (t : Transcript) (text : String) : Transcript where
  writes := text :: t.writes
  bytes := text.utf8ByteSize + t.bytes
  bytes_eq := by simp [t.bytes_eq]

/-- The texts after the first `count`, joined. -/
def textAfter (t : Transcript) (count : Nat) : String :=
  String.join (t.writes.reverse.drop count)

/-- All that has been written. -/
def text (t : Transcript) : String := t.textAfter 0

end Transcript

/-! ## Settings and state -/

/-- What a program cannot change. -/
structure Settings where
  /-- How many procedure calls may be open at a time. -/
  maxDepth : Nat
  /-- The directory of the scripts. -/
  corpus : String
  /-- How many bytes may be written, if that is limited. -/
  outputLimit : Option Nat
  /-- The content of the file at a path. -/
  readFile : String → Except ReadError String

/-- The usual settings: 200 open calls, scripts in `tests/scripts`, no limit and no files. -/
def Settings.standard : Settings := ⟨200, "tests/scripts", none, fun _ => .error .notFound⟩

/-- What a program can change. -/
structure Machine where
  /-- What is known about names. -/
  vocabulary : Vocabulary
  /-- The variables. -/
  scopes : Scopes
  /-- How many procedure calls are open. -/
  depth : Nat
  /-- What has been written. -/
  transcript : Transcript

namespace Machine

/-- The frame of the global variables. -/
def globalFrame : FrameId := 0

/-- The machine that a program starts on. -/
def initial : Machine := ⟨.standard, Scopes.empty.newRoot, 0, .empty⟩

/-- Some procedure call is open. -/
def inProcedure (m : Machine) : Bool := 0 < m.depth

end Machine

/-! ## Flows -/

/-- What an instruction leads to. -/
inductive Flow where
  /-- A value, which is absent after a command. -/
  | value (v : Value)
  /-- The procedure ends with a value. -/
  | output (v : Value)
  /-- The procedure ends. -/
  | stop

namespace Flow

/-- A command has been carried out. -/
def nothing : Flow := .value .absent

/-- What the flow of a procedure's body means to its caller. -/
def ofBody : Flow → Flow
  | output v => .value v
  | _ => nothing

end Flow

/-! ## Runs -/

/-- How a run ends. -/
inductive Outcome (α : Type) where
  /-- With a value. -/
  | done (value : α) (after : Machine)
  /-- With an error. -/
  | failed (error : RuntimeError) (after : Machine)
  /-- Without an answer. -/
  | exhausted

/-- A piece of running. -/
def Run (α : Type) := Settings → Machine → Outcome α

namespace Run

variable {α β : Type}

/-- Gives a value. -/
def give (value : α) : Run α := fun _ m => .done value m

/-- Goes on with the value of a run. -/
def andThen (r : Run α) (next : α → Run β) : Run β := fun settings m =>
  match r settings m with
  | .done value after => next value settings after
  | .failed error after => .failed error after
  | .exhausted => .exhausted

instance : Monad Run where
  pure := give
  bind := andThen

/-- Ends with an error. -/
def fail (error : RuntimeError) : Run α := fun _ m => .failed error m

/-- Ends without an answer. -/
def giveUp : Run α := fun _ _ => .exhausted

/-- The result of a computation that does not touch the machine. -/
def lift (result : Except RuntimeError α) : Run α :=
  match result with
  | .ok value => give value
  | .error e => fail e

/-- The settings. -/
def settings : Run Settings := fun settings m => .done settings m

/-- A result that depends on the machine and does not change it. -/
def ask (question : Machine → Except RuntimeError α) : Run α := fun settings m =>
  lift (question m) settings m

/-- A change of the machine. -/
def change (f : Machine → Machine) : Run Unit := fun _ m => .done () (f m)

/-- Goes on with the value that a run leads to. The wish to leave the procedure is passed on. -/
def onValue (r : Run Flow) (next : Value → Run Flow) : Run Flow := fun settings m =>
  match r settings m with
  | .done (.value v) after => next v settings after
  | outcome => outcome

/-! ## Actions on the machine -/

/-- Writes a text. A text that would take the transcript past its limit is not written at all. -/
def write (text : String) (line : Nat) : Run Unit := fun settings m =>
  let transcript := m.transcript.append text
  match settings.outputLimit with
  | some limit =>
    if limit < transcript.bytes then .failed (.outputFailed "sink full" line) m
    else .done () { m with transcript := transcript }
  | none => .done () { m with transcript := transcript }

/-- The value of a variable, seen from a frame. -/
def readVariable (frame : FrameId) (name : String) (line : Nat) : Run Value :=
  ask fun m => m.scopes.get frame name line

/-- Binds a variable in the root of a frame's chain. -/
def setVariable (frame : FrameId) (name : String) (v : Value) : Run Unit :=
  change fun m => { m with scopes := m.scopes.set frame name v }

/-- Makes a child of a frame, with variables of its own. -/
def openFrame (parent : FrameId) (bindings : Dictionary Value) : Run FrameId := fun _ m =>
  .done m.scopes.nextId { m with scopes := m.scopes.push (some parent) bindings }

/-- Introduces a procedure: how many inputs it takes and what it does. -/
def define (p : Procedure) : Run Unit := change fun m =>
  { m with vocabulary :=
      (m.vocabulary.declare p.name (.fixed p.params.length)).assign p.name (.procedure p) }

/-- One more call is open while `body` runs, however it ends. -/
def nested (line : Nat) (body : Run Flow) : Run Flow := fun settings m =>
  if settings.maxDepth ≤ m.depth then .failed (.recursionLimit settings.maxDepth line) m
  else
    match body settings { m with depth := m.depth + 1 } with
    | .done flow after => .done flow { after with depth := after.depth - 1 }
    | .failed error after => .failed error { after with depth := after.depth - 1 }
    | .exhausted => .exhausted

/-! ## Loops -/

/-- Repeats a run, until it leads to something else than a value. -/
def times (body : Run Flow) (count : Nat) : Run Flow := fun settings m =>
  match count with
  | 0 => .done .nothing m
  | count + 1 =>
    match body settings m with
    | .done (.value _) after => times body count settings after
    | outcome => outcome

/-- Repeats a run for the members of a list and their places, until it leads to something else than
a value. -/
def each (body : Value → Nat → Run Flow) (place : Nat) (members : List Value) : Run Flow :=
  fun settings m =>
    match members with
    | [] => .done .nothing m
    | v :: vs =>
      match body v place settings m with
      | .done (.value _) after => each body (place + 1) vs settings after
      | outcome => outcome

end Run

end Logo
