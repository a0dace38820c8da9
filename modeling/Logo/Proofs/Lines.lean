import Logo.Machine.Basic
import Logo.Token.Basic
import Mathlib.Tactic.Lemma

/-!
# Other line numbers

Tokens, syntax trees and errors hold the lines that they come from. This file changes all of them by
a function: adding a number to each line moves a text down, and sending each line to zero forgets
where it stood. What is stored in a machine holds lines in one place only, the bodies of procedures.
-/

namespace Logo

/-- What is left of a line if lines are not told apart. -/
def noLine (_ : Nat) : Nat := 0

variable (f : Nat → Nat)

/-! ## Tokens and errors -/

/-- The token on another line. -/
def Placed.mapLine (t : Placed) : Placed := { t with line := f t.line }

/-- The error on another line. -/
def LexError.mapLine (e : LexError) : LexError := { e with line := f e.line }

/-- The error on another line. -/
def ParseError.mapLine : ParseError → ParseError
  | lexical e => .lexical (e.mapLine f)
  | unexpectedToken token l => .unexpectedToken token (f l)
  | unexpectedEnd l => .unexpectedEnd (f l)
  | unclosedParen l => .unclosedParen (f l)
  | unclosedBracket l => .unclosedBracket (f l)
  | unknownCommand name l => .unknownCommand name (f l)
  | invalidDefinition problem l => .invalidDefinition problem (f l)
  | missingEnd name l => .missingEnd name (f l)

/-- The error on another line. -/
def RuntimeError.mapLine : RuntimeError → RuntimeError
  | unreadable e => .unreadable (e.mapLine f)
  | undefinedVariable name l => .undefinedVariable name (f l)
  | unknownProcedure name l => .unknownProcedure name (f l)
  | unsupportedOperator operator l => .unsupportedOperator operator (f l)
  | notEnoughInputs name l => .notEnoughInputs name (f l)
  | invalidInput name input l => .invalidInput name input (f l)
  | unconsumedValue value l => .unconsumedValue value (f l)
  | noOutput name consumer l => .noOutput name consumer (f l)
  | outsideProcedure name l => .outsideProcedure name (f l)
  | unimplemented name l => .unimplemented name (f l)
  | indexOutOfBounds greatest found l => .indexOutOfBounds greatest found (f l)
  | recursionLimit depth l => .recursionLimit depth (f l)
  | loadFailed path cause l => .loadFailed path cause (f l)
  | outputFailed details l => .outputFailed details (f l)
  | literalTooLarge l => .literalTooLarge (f l)
  | literalTooSmall l => .literalTooSmall (f l)
  | fractionalNumber l => .fractionalNumber (f l)

/-! ## Programs -/

mutual

/-- The syntax tree with other lines. -/
def Node.mapLines : Node → Node
  | .number x l => .number x (f l)
  | .word text l => .word text (f l)
  | .truth b l => .truth b (f l)
  | .reference name l => .reference name (f l)
  | .binary op left right l => .binary op (Node.mapLines left) (Node.mapLines right) (f l)
  | .list items l => .list (Node.mapLinesEach items) (f l)
  | .call name inputs l => .call name (Node.mapLinesEach inputs) (f l)
  | .definition name params body l => .definition name params (Node.mapLinesEach body) (f l)
  | .conditional form condition thenBranch elseBranch l =>
    .conditional form (Node.mapLines condition) (Node.mapLines thenBranch)
      (Node.mapLinesOption elseBranch) (f l)

/-- The syntax trees with other lines. -/
def Node.mapLinesEach : List Node → List Node
  | [] => []
  | node :: nodes => Node.mapLines node :: Node.mapLinesEach nodes

/-- The syntax tree, if there is one, with other lines. -/
def Node.mapLinesOption : Option Node → Option Node
  | none => none
  | some node => some (Node.mapLines node)

end

/-- The program with other lines. -/
def Program.mapLines (program : Program) : Program := program.map (Node.mapLines f)

@[simp] lemma Node.mapLinesEach_eq (nodes : List Node) :
    Node.mapLinesEach f nodes = nodes.map (Node.mapLines f) := by
  induction nodes with
  | nil => rfl
  | cons node nodes ih => simp [Node.mapLinesEach, ih]

@[simp] lemma Node.mapLinesOption_eq (node : Option Node) :
    Node.mapLinesOption f node = node.map (Node.mapLines f) := by
  cases node <;> rfl

@[simp] lemma Node.line_mapLines (node : Node) : (node.mapLines f).line = f node.line := by
  cases node <;> rfl

mutual

/-- Leaving the lines alone changes nothing. -/
lemma Node.mapLines_id : ∀ node : Node, node.mapLines id = node
  | .number _ _ | .word _ _ | .truth _ _ | .reference _ _ => rfl
  | .binary _ left right _ => by
    rw [Node.mapLines, Node.mapLines_id left, Node.mapLines_id right]
    rfl
  | .list items _ => by rw [Node.mapLines, Node.mapLinesEach_id items]; rfl
  | .call _ inputs _ => by rw [Node.mapLines, Node.mapLinesEach_id inputs]; rfl
  | .definition _ _ body _ => by rw [Node.mapLines, Node.mapLinesEach_id body]; rfl
  | .conditional _ condition thenBranch none _ => by
    rw [Node.mapLines, Node.mapLines_id condition, Node.mapLines_id thenBranch]
    rfl
  | .conditional _ condition thenBranch (some elseBranch) _ => by
    rw [Node.mapLines, Node.mapLines_id condition, Node.mapLines_id thenBranch,
      Node.mapLinesOption, Node.mapLines_id elseBranch]
    rfl

lemma Node.mapLinesEach_id : ∀ nodes : List Node, Node.mapLinesEach id nodes = nodes
  | [] => rfl
  | node :: nodes => by
    rw [Node.mapLinesEach, Node.mapLines_id node, Node.mapLinesEach_id nodes]

end

@[simp] lemma Program.mapLines_id (program : Program) : Program.mapLines id program = program :=
  (Node.mapLinesEach_eq id program).symm.trans (Node.mapLinesEach_id program)

@[simp] lemma ParseError.mapLine_id (e : ParseError) : e.mapLine id = e := by
  cases e <;> rfl

@[simp] lemma RuntimeError.mapLine_id (e : RuntimeError) : e.mapLine id = e := by
  cases e with
  | unreadable e => exact congrArg RuntimeError.unreadable (ParseError.mapLine_id e)
  | _ => rfl

/-! Changing lines twice is changing them once. -/

mutual

lemma Node.mapLines_mapLines (g : Nat → Nat) :
    ∀ node : Node, (node.mapLines g).mapLines f = node.mapLines (f ∘ g)
  | .number _ _ | .word _ _ | .truth _ _ | .reference _ _ => rfl
  | .binary _ left right _ => by
    simp only [Node.mapLines, Node.mapLines_mapLines g left, Node.mapLines_mapLines g right,
      Function.comp_apply]
  | .list items _ => by
    simp only [Node.mapLines, Node.mapLinesEach_mapLinesEach g items, Function.comp_apply]
  | .call _ inputs _ => by
    simp only [Node.mapLines, Node.mapLinesEach_mapLinesEach g inputs, Function.comp_apply]
  | .definition _ _ body _ => by
    simp only [Node.mapLines, Node.mapLinesEach_mapLinesEach g body, Function.comp_apply]
  | .conditional _ condition thenBranch none _ => by
    simp only [Node.mapLines, Node.mapLinesOption, Node.mapLines_mapLines g condition,
      Node.mapLines_mapLines g thenBranch, Function.comp_apply]
  | .conditional _ condition thenBranch (some elseBranch) _ => by
    simp only [Node.mapLines, Node.mapLinesOption, Node.mapLines_mapLines g condition,
      Node.mapLines_mapLines g thenBranch, Node.mapLines_mapLines g elseBranch,
      Function.comp_apply]

lemma Node.mapLinesEach_mapLinesEach (g : Nat → Nat) : ∀ nodes : List Node,
    Node.mapLinesEach f (Node.mapLinesEach g nodes) = Node.mapLinesEach (f ∘ g) nodes
  | [] => rfl
  | node :: nodes => by
    simp only [Node.mapLinesEach, Node.mapLines_mapLines g node,
      Node.mapLinesEach_mapLinesEach g nodes]

end

lemma Program.mapLines_mapLines (g : Nat → Nat) (program : Program) :
    Program.mapLines f (Program.mapLines g program) = Program.mapLines (f ∘ g) program := by
  simp only [Program.mapLines, List.map_map, Function.comp_def, Node.mapLines_mapLines]

lemma ParseError.mapLine_mapLine (g : Nat → Nat) (e : ParseError) :
    (e.mapLine g).mapLine f = e.mapLine (f ∘ g) := by
  cases e <;> rfl

lemma RuntimeError.mapLine_mapLine (g : Nat → Nat) (e : RuntimeError) :
    (e.mapLine g).mapLine f = e.mapLine (f ∘ g) := by
  cases e with
  | unreadable e => exact congrArg RuntimeError.unreadable (ParseError.mapLine_mapLine f g e)
  | _ => rfl

/-! Only the line of an error matters for where it is moved. -/

lemma ParseError.mapLine_congr {e : ParseError} {g : Nat → Nat} (h : f e.line = g e.line) :
    e.mapLine f = e.mapLine g := by
  cases e with
  | lexical e => exact congrArg (fun l => ParseError.lexical { e with line := l }) h
  | _ => simpa only [ParseError.line, ParseError.mapLine] using congrArg _ h

lemma RuntimeError.mapLine_congr {e : RuntimeError} {g : Nat → Nat} (h : f e.line = g e.line) :
    e.mapLine f = e.mapLine g := by
  cases e with
  | unreadable e => exact congrArg RuntimeError.unreadable (ParseError.mapLine_congr f h)
  | _ => simpa only [RuntimeError.line, RuntimeError.mapLine] using congrArg _ h

lemma RuntimeError.line_mapLine (e : RuntimeError) : (e.mapLine f).line = f e.line := by
  cases e with
  | unreadable e => cases e <;> rfl
  | _ => rfl

/-! ## Machines -/

/-- The procedure with other lines in its body. -/
def Procedure.mapLines (p : Procedure) : Procedure := { p with body := Program.mapLines f p.body }

lemma Procedure.mapLines_id (p : Procedure) : p.mapLines id = p := by
  rw [Procedure.mapLines, Program.mapLines_id]

/-- What a name stands for, with other lines. -/
def Callable.mapLines : Callable → Callable
  | builtin b => .builtin b
  | procedure p => .procedure (p.mapLines f)

lemma Callable.mapLines_id (c : Callable) : c.mapLines id = c := by
  cases c with
  | builtin b => rfl
  | procedure p => exact congrArg Callable.procedure p.mapLines_id

/-- The dictionary with other values. -/
def Dictionary.map {α β : Type} (h : α → β) (d : Dictionary α) : Dictionary β :=
  ⟨d.entries.map fun entry => (entry.1, h entry.2)⟩

/-- The vocabulary with other lines in the bodies of procedures. -/
def Vocabulary.mapLines (v : Vocabulary) : Vocabulary :=
  { v with callables := v.callables.map (Callable.mapLines f) }

lemma Vocabulary.mapLines_id (v : Vocabulary) : v.mapLines id = v := by
  simp [Vocabulary.mapLines, Dictionary.map, Callable.mapLines_id]

/-- The machine with other lines in the bodies of procedures. -/
def Machine.mapLines (m : Machine) : Machine := { m with vocabulary := m.vocabulary.mapLines f }

/-- The outcome with other lines in its error and its machine. -/
def Outcome.mapLines {α : Type} : Outcome α → Outcome α
  | done value after => .done value (after.mapLines f)
  | failed error after => .failed (error.mapLine f) (after.mapLines f)
  | exhausted => .exhausted

variable {f}

lemma Dictionary.find?_map {α β : Type} (h : α → β) (d : Dictionary α) (key : String) :
    (d.map h).find? key = (d.find? key).map h := by
  obtain ⟨entries⟩ := d
  simp only [Dictionary.map, Dictionary.find?]
  induction entries with
  | nil => rfl
  | cons entry entries ih =>
    obtain ⟨name, a⟩ := entry
    by_cases hkey : key == name
    · simp [List.lookup_cons, hkey]
    · simp [List.lookup_cons, hkey, ih]

lemma Dictionary.map_insert {α β : Type} (h : α → β) (d : Dictionary α) (key : String) (a : α) :
    (d.insert key a).map h = (d.map h).insert key (h a) := by
  simp [Dictionary.map, Dictionary.insert, List.filter_map, Function.comp_def]

@[simp] lemma Vocabulary.arity?_mapLines (v : Vocabulary) (name : String) :
    (v.mapLines f).arity? name = v.arity? name := rfl

@[simp] lemma Vocabulary.callable?_mapLines (v : Vocabulary) (name : String) :
    (v.mapLines f).callable? name = (v.callable? name).map (Callable.mapLines f) :=
  Dictionary.find?_map _ _ _

/-- Which names are taken does not depend on lines. -/
@[simp] lemma Vocabulary.isBuiltin_mapLines (v : Vocabulary) (name : String) :
    (v.mapLines f).isBuiltin name = v.isBuiltin name := by
  rw [Vocabulary.isBuiltin, Vocabulary.isBuiltin, callable?_mapLines, arity?_mapLines]
  rcases v.callable? name with _ | (b | p) <;> rfl

@[simp] lemma Vocabulary.mapLines_declare (v : Vocabulary) (name : String) (arity : Arity) :
    (v.declare name arity).mapLines f = (v.mapLines f).declare name arity := rfl

lemma Vocabulary.mapLines_assign (v : Vocabulary) (name : String) (callable : Callable) :
    (v.assign name callable).mapLines f = (v.mapLines f).assign name (callable.mapLines f) := by
  simp only [Vocabulary.assign, Vocabulary.mapLines, Dictionary.map_insert]

end Logo
