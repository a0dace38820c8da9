import Logo.Builtin
import Logo.Program.Basic
import Logo.Scopes

/-!
# The vocabulary

The vocabulary says of each name how many inputs follow it, which the reader of programs needs, and
what it stands for, which the evaluator needs. The two are told apart because a definition is known
to the reader as soon as its parameters are read, but stands for a procedure only once it has been
evaluated. Names are compared in small letters; entries are added and replaced, never removed.
-/

namespace Logo

/-- How many inputs follow a name. -/
inductive Arity where
  /-- This many. -/
  | fixed (inputs : Nat)
  /-- The reader of programs has a rule of its own for the name. -/
  | special
deriving DecidableEq

/-- A procedure that a program has defined. -/
structure Procedure where
  /-- Its name, in small letters. -/
  name : String
  /-- Its parameters, in small letters. -/
  params : List String
  /-- Its instructions. -/
  body : Program
  /-- The frame in which the definition was evaluated. -/
  frame : FrameId

/-- What a name stands for. -/
inductive Callable where
  | builtin (b : Builtin)
  | procedure (p : Procedure)

/-- What is known about names. -/
structure Vocabulary where
  /-- How many inputs follow a name. -/
  arities : Dictionary Arity
  /-- What a name stands for. -/
  callables : Dictionary Callable

namespace Vocabulary

/-- No names at all. -/
def empty : Vocabulary := ⟨.empty, .empty⟩

/-- The other names of built-in procedures, each with its procedure. -/
def namedAgain : List (String × Builtin) :=
  Builtin.aliases.filterMap fun (name, target) => (Builtin.find? target).map (name, ·)

/-- The built-in procedures under all their names. -/
def builtins : List (String × Builtin) := Builtin.table.map (fun b => (b.name, b)) ++ namedAgain

/-- The vocabulary that a program starts with. -/
def standard : Vocabulary where
  arities := ⟨builtins.map (fun (name, b) => (name, .fixed b.arity))
    ++ Builtin.specialForms.map (·, .special)⟩
  callables := ⟨builtins.map fun (name, b) => (name, .builtin b)⟩

/-- How many inputs follow the name. -/
def arity? (v : Vocabulary) (name : String) : Option Arity := v.arities.find? (Text.lower name)

/-- What the name stands for. -/
def callable? (v : Vocabulary) (name : String) : Option Callable :=
  v.callables.find? (Text.lower name)

/-- What the name stands for, which has to be something. -/
def resolve (v : Vocabulary) (name : String) (line : Nat) : Except RuntimeError Callable :=
  match v.callable? name with
  | some c => .ok c
  | none => .error (.unknownProcedure name line)

/-- The name belongs to a built-in procedure or a special form. -/
def isBuiltin (v : Vocabulary) (name : String) : Bool :=
  (match v.callable? name with
    | some (.builtin _) => true
    | _ => false)
  || v.arity? name == some .special

/-- Records how many inputs follow the name. -/
def declare (v : Vocabulary) (name : String) (arity : Arity) : Vocabulary :=
  { v with arities := v.arities.insert (Text.lower name) arity }

/-- Records what the name stands for. -/
def assign (v : Vocabulary) (name : String) (callable : Callable) : Vocabulary :=
  { v with callables := v.callables.insert (Text.lower name) callable }

variable (v : Vocabulary) (name other : String)

theorem arity?_declare (arity : Arity) : (v.declare name arity).arity? other =
    if Text.lower other = Text.lower name then some arity else v.arity? other :=
  Dictionary.find?_insert ..

@[simp] theorem callable?_declare (arity : Arity) :
    (v.declare name arity).callable? other = v.callable? other := rfl

@[simp] theorem arity?_assign (callable : Callable) :
    (v.assign name callable).arity? other = v.arity? other := rfl

theorem callable?_assign (callable : Callable) : (v.assign name callable).callable? other =
    if Text.lower other = Text.lower name then some callable else v.callable? other :=
  Dictionary.find?_insert ..

end Vocabulary

end Logo
