/-!
# Built-in procedures

The table of the built-in procedures: how each is called, how many inputs it takes when it is written
without parentheses, how many it needs at least, and what it does. What a procedure does is an
`Action`: an operation computes a value from its inputs and changes nothing, a command acts on the
machine, and a reserved name is set aside and does nothing yet.
-/

namespace Logo

/-- A procedure that computes a value from its inputs alone. -/
inductive Operation where
  | word
  | list
  | sentence
  | fput
  | lput
  | combine
  | reverse
  | first
  | last
  | butfirst
  | butlast
  | item
  | remdup
  | wordp
  | listp
  | emptyp
  | equalp
  | notequalp
  | beforep
  | memberp
  | substringp
  | numberp
  | count
  | ascii
  | char
  | member
  | lowercase
  | uppercase
  | sum
  | difference
  | product
  | quotient
  | remainder
  | minus
  | int
  | round
  | sqrt
  | bitand
  | bitor
  | bitxor
  | bitnot
  | ashift
  | lshift
  | and
  | or
  | not
  | ignore
deriving DecidableEq

/-- A procedure that acts on the machine. -/
inductive Command where
  | print
  | showForm
  | typeOut
  | make
  | name
  | thing
  | load
  | run
  | repeatTimes
  | foreach
  | output
  | stop
deriving DecidableEq

/-- What a built-in procedure does. -/
inductive Action where
  | operation (op : Operation)
  | command (c : Command)
  | reserved
deriving DecidableEq

/-- A built-in procedure. -/
structure Builtin where
  /-- What it is called. -/
  name : String
  /-- How many inputs it takes when it is written without parentheses. -/
  arity : Nat
  /-- How many inputs it needs. -/
  least : Nat
  /-- What it does. -/
  action : Action
deriving DecidableEq

namespace Builtin

/-- The built-in procedures that do something. -/
def active : List Builtin :=
  [⟨"print", 1, 0, .command .print⟩,
   ⟨"show", 1, 0, .command .showForm⟩,
   ⟨"type", 1, 0, .command .typeOut⟩,
   ⟨"make", 2, 2, .command .make⟩,
   ⟨"name", 2, 2, .command .name⟩,
   ⟨"thing", 1, 1, .command .thing⟩,
   ⟨"load", 1, 1, .command .load⟩,
   ⟨"word", 2, 0, .operation .word⟩,
   ⟨"list", 2, 0, .operation .list⟩,
   ⟨"sentence", 2, 0, .operation .sentence⟩,
   ⟨"fput", 2, 2, .operation .fput⟩,
   ⟨"lput", 2, 2, .operation .lput⟩,
   ⟨"combine", 2, 2, .operation .combine⟩,
   ⟨"reverse", 1, 1, .operation .reverse⟩,
   ⟨"first", 1, 1, .operation .first⟩,
   ⟨"last", 1, 1, .operation .last⟩,
   ⟨"butfirst", 1, 1, .operation .butfirst⟩,
   ⟨"butlast", 1, 1, .operation .butlast⟩,
   ⟨"item", 2, 2, .operation .item⟩,
   ⟨"remdup", 1, 1, .operation .remdup⟩,
   ⟨"wordp", 1, 1, .operation .wordp⟩,
   ⟨"listp", 1, 1, .operation .listp⟩,
   ⟨"emptyp", 1, 1, .operation .emptyp⟩,
   ⟨"equalp", 2, 2, .operation .equalp⟩,
   ⟨"notequalp", 2, 2, .operation .notequalp⟩,
   ⟨"beforep", 2, 2, .operation .beforep⟩,
   ⟨"memberp", 2, 2, .operation .memberp⟩,
   ⟨"substringp", 2, 2, .operation .substringp⟩,
   ⟨"numberp", 1, 1, .operation .numberp⟩,
   ⟨"count", 1, 1, .operation .count⟩,
   ⟨"ascii", 1, 1, .operation .ascii⟩,
   ⟨"char", 1, 1, .operation .char⟩,
   ⟨"member", 2, 2, .operation .member⟩,
   ⟨"lowercase", 1, 1, .operation .lowercase⟩,
   ⟨"uppercase", 1, 1, .operation .uppercase⟩,
   ⟨"sum", 2, 0, .operation .sum⟩,
   ⟨"difference", 2, 2, .operation .difference⟩,
   ⟨"product", 2, 0, .operation .product⟩,
   ⟨"quotient", 2, 1, .operation .quotient⟩,
   ⟨"remainder", 2, 2, .operation .remainder⟩,
   ⟨"minus", 1, 1, .operation .minus⟩,
   ⟨"int", 1, 1, .operation .int⟩,
   ⟨"round", 1, 1, .operation .round⟩,
   ⟨"sqrt", 1, 1, .operation .sqrt⟩,
   ⟨"bitand", 2, 0, .operation .bitand⟩,
   ⟨"bitor", 2, 0, .operation .bitor⟩,
   ⟨"bitxor", 2, 0, .operation .bitxor⟩,
   ⟨"bitnot", 1, 1, .operation .bitnot⟩,
   ⟨"ashift", 2, 2, .operation .ashift⟩,
   ⟨"lshift", 2, 2, .operation .lshift⟩,
   ⟨"and", 2, 0, .operation .and⟩,
   ⟨"or", 2, 0, .operation .or⟩,
   ⟨"not", 1, 1, .operation .not⟩,
   ⟨"run", 1, 1, .command .run⟩,
   ⟨"repeat", 2, 2, .command .repeatTimes⟩,
   ⟨"foreach", 2, 2, .command .foreach⟩,
   ⟨"output", 1, 1, .command .output⟩,
   ⟨"stop", 0, 0, .command .stop⟩,
   ⟨"ignore", 1, 1, .operation .ignore⟩]

/-- The names that are set aside, with the number of their inputs. -/
def reservedNames : List (String × Nat) :=
  [("array", 1), ("mdarray", 1), ("listtoarray", 1), ("arraytolist", 1), ("gensym", 0),
   ("firsts", 1), ("butfirsts", 1), ("mditem", 2), ("pick", 1), ("remove", 2), ("quoted", 1),
   ("setitem", 3), ("mdsetitem", 3), (".setfirst", 2), (".setbf", 2), (".setitem", 3), ("push", 2),
   ("pop", 1), ("queue", 2), ("dequeue", 1), ("arrayp", 1), (".eq", 2), ("vbarredp", 1),
   ("backslashedp", 1), ("rawascii", 1), ("standout", 1), ("parse", 1), ("runparse", 1)]

/-- Every built-in procedure. -/
def table : List Builtin :=
  active ++ reservedNames.map fun (name, inputs) => ⟨name, inputs, inputs, .reserved⟩

/-- The built-in procedure of a name, spelled exactly as in the table. -/
def find? (name : String) : Option Builtin := table.find? fun b => b.name == name

/-- Other names of built-in procedures. -/
def aliases : List (String × String) :=
  [("pr", "print"), ("se", "sentence"), ("bf", "butfirst"), ("bl", "butlast"), ("op", "output"),
   ("word?", "wordp"), ("list?", "listp"), ("empty?", "emptyp"), ("equal?", "equalp"),
   ("notequal?", "notequalp"), ("before?", "beforep"), ("member?", "memberp"),
   ("substring?", "substringp"), ("number?", "numberp")]

/-- The keywords that take inputs without being procedures. -/
def specialForms : List String := ["if", "ifelse"]

end Builtin

end Logo
