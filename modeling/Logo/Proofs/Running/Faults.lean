import Logo.Proofs.Lexing.Marks
import Logo.Proofs.Running.Accesses
import Logo.Proofs.Running.BuiltinNames

/-!
# No access misses

Built-in procedures take their inputs by place and rely on the table, which says how many inputs a
call needs at least. A call with fewer of them is refused before. This file evaluates with accesses
that may miss: whenever an input is asked for in a place where none is, whenever a list is cut past
its end or a word inside of a character, and whenever the mark of a word cannot be cut off, the
arbitrary run `crash` takes over. It makes no difference what that is, so that no access misses,
whatever texts a session is told to run.

The one thing to rely on is that the vocabulary has no other built-in procedures than those of the
table. All machines of a session are like that.

* `evalOr`: evaluation with accesses that may miss.
* `Vocabulary.Tabled`: the built-in procedures of the vocabulary are those of the table.
* `no_access_misses`: the statement in all its parts.
-/

namespace Logo

/-! ## Evaluation with accesses that may miss -/

section Or

variable (crash : (α : Type) → Run α)

/-- The program that a text forms, or a crash. -/
def Run.readProgramOr (text : String) : Run Program := fun settings m =>
  match Program.ofText? text m.vocabulary with
  | some (.ok program, vocabulary) => .done program { m with vocabulary := vocabulary }
  | some (.error e, vocabulary) => .failed (.unreadable e) { m with vocabulary := vocabulary }
  | none => crash Program settings m

/-- The input in a place, or a crash. -/
def Run.inputOr (values : List Value) (place : Nat) : Run Value :=
  match values[place]? with
  | some v => Run.give v
  | none => crash Value

namespace Evaluator

variable (self : Evaluator)

/-- Carries out a command, with accesses that may miss. -/
def performOr (command : Command) (frame : FrameId) (values : List Value) (line : Nat) :
    Run Flow :=
  match command with
  | .make => do
    let name ← Run.inputOr crash values 0
    let name ← Run.lift (name.asWord "make" line)
    Run.setVariable frame name (← Run.inputOr crash values 1)
    return .nothing
  | .name => do
    let name ← Run.inputOr crash values 1
    let name ← Run.lift (name.asWord "name" line)
    Run.setVariable frame name (← Run.inputOr crash values 0)
    return .nothing
  | .thing => do
    let name ← Run.inputOr crash values 0
    let v ← Run.readVariable frame (← Run.lift (name.asWord "thing" line)) line
    return .value v
  | .load => do
    let name ← Run.inputOr crash values 0
    let name ← Run.lift (name.asWord "load" line)
    let settings ← Run.settings
    let path := Path.script settings.corpus name
    match settings.readFile path with
    | .ok text => runTextBy (Run.readProgramOr crash) self text frame false
    | .error cause => Run.fail (.loadFailed path cause line)
  | .run => do
    let instructions ← Run.inputOr crash values 0
    runValueBy (Run.readProgramOr crash) self instructions frame true
  | .repeatTimes => do
    let count ← Run.inputOr crash values 0
    let count ← Run.lift (count.asInteger "repeat" line)
    let count ← Run.lift (Value.natural count line)
    let instructions ← Run.inputOr crash values 1
    Run.times (runValueBy (Run.readProgramOr crash) self instructions frame false) count
  | .foreach => do
    let data ← Run.inputOr crash values 0
    let members ← Run.lift (data.members "foreach" line)
    let template ← Run.inputOr crash values 1
    Run.each (fun v place => runValueBy (Run.readProgramOr crash) self
      (Template.fill v place template) frame false) 1 members
  | .output => do
    let v ← Run.inputOr crash values 0
    leave "output" (.output v) line
  | command => perform self command frame values line

/-- Calls a built-in procedure, with accesses that may miss. -/
def callBuiltinOr (b : Builtin) (frame : FrameId) (values : List Value) (line : Nat) : Run Flow :=
  if values.length < b.least then Run.fail (.notEnoughInputs b.name line)
  else
    match b.action with
    | .operation op =>
      match op.attempt values line with
      | some result => do return .value (← Run.lift result)
      | none => crash Flow
    | .command command => performOr crash self command frame values line
    | .reserved => Run.fail (.unimplemented b.name line)

/-- Calls what a name stands for, with accesses that may miss. -/
def callOr (name : String) (nodes : List Node) (frame : FrameId) (line : Nat) : Run Flow := do
  let callable ← Run.ask fun m => m.vocabulary.resolve name line
  inputs self name frame nodes fun values =>
    match callable with
    | .builtin b => callBuiltinOr crash self b frame values line
    | .procedure p => callProcedure self p values line

/-- The evaluator that uses `self` for the parts of a node, with accesses that may miss. -/
def stepOr : Evaluator := fun node frame =>
  match node with
  | .call name nodes line => callOr crash self name nodes frame line
  | .conditional form condition thenBranch elseBranch line =>
    conditionalBy (Run.readProgramOr crash) self form condition thenBranch elseBranch frame line
  | node => step self node frame

end Evaluator

/-- Evaluation with accesses that may miss. -/
def evalOr : (bound : Nat) → Evaluator
  | 0 => fun _ _ => Run.giveUp
  | bound + 1 => Evaluator.stepOr crash (evalOr bound)

/-! ## Calls of built-in procedures -/

lemma Run.readProgramOr_eq : Run.readProgramOr crash = Run.readProgram := by
  funext text settings m
  rw [Run.readProgramOr, Program.ofText?_eq, Run.readProgram]
  rcases Program.ofText text m.vocabulary with ⟨_ | _, _⟩ <;> rfl

variable (self : Evaluator) (frame : FrameId)

/-- No access of a command misses, if it has the inputs that it takes by place. -/
lemma Evaluator.performOr_eq (command : Command) {values : List Value}
    (h : command.taken ≤ values.length) (line : Nat) :
    performOr crash self command frame values line = perform self command frame values line := by
  cases command with
  | print | showForm | typeOut | stop => rfl
  | thing | output =>
    obtain _ | ⟨a, values⟩ := values
    · cases h
    · rfl
  | load | run =>
    obtain _ | ⟨a, values⟩ := values
    · cases h
    · rw [performOr, Run.readProgramOr_eq]
      rfl
  | make | name =>
    obtain _ | ⟨a, _ | ⟨b, values⟩⟩ := values
    · cases h
    · simp [Command.taken] at h
    · rfl
  | repeatTimes | foreach =>
    obtain _ | ⟨a, _ | ⟨b, values⟩⟩ := values
    · cases h
    · simp [Command.taken] at h
    · rw [performOr, Run.readProgramOr_eq]
      rfl

/-- No access misses in a call of a procedure of the table, whatever its inputs are and however many
they are. -/
lemma Evaluator.callBuiltinOr_eq {b : Builtin} (h : b ∈ Builtin.table) (values : List Value)
    (line : Nat) :
    callBuiltinOr crash self b frame values line = callBuiltin self b frame values line := by
  have htaken := taken_le_least b h
  rw [callBuiltinOr, callBuiltin]
  split
  · rfl
  case isFalse hleast =>
    cases haction : b.action with
    | operation op =>
      rw [haction] at htaken
      simp only [op.attempt_eq (Nat.le_trans htaken (Nat.le_of_not_lt hleast))]
    | command command =>
      rw [haction] at htaken
      exact performOr_eq crash self frame command
        (Nat.le_trans htaken (Nat.le_of_not_lt hleast)) line
    | reserved => rfl

end Or

/-! ## Vocabularies with the table -/

/-- The built-in procedures of the vocabulary are those of the table. -/
def Vocabulary.Tabled (v : Vocabulary) : Prop :=
  ∀ name b, v.callable? name = some (.builtin b) → b ∈ Builtin.table

lemma Vocabulary.Tabled.define {v : Vocabulary} (h : v.Tabled) (p : Procedure) :
    (v.define p).Tabled := by
  intro name b hname
  rw [callable?_define] at hname
  split at hname
  · cases hname
  · exact h name b hname

lemma Vocabulary.mem_table_of_builtins : ∀ entry ∈ builtins, entry.2 ∈ Builtin.table := by
  decide +kernel

lemma Vocabulary.tabled_standard : standard.Tabled := by
  intro name b hname
  rw [callable?_standard] at hname
  obtain ⟨b', hlookup, hb⟩ := Option.map_eq_some_iff.mp hname
  obtain rfl := Callable.builtin.inj hb
  obtain ⟨before, rest, hbuiltins, -⟩ := List.lookup_eq_some_iff.mp hlookup
  exact mem_table_of_builtins (Text.lower name, b') (by simp [hbuiltins])

/-- Reading does not touch the built-in procedures. -/
def Vocabulary.tabledReading : Reader.Contract where
  Inv := Tabled
  Free _ := True
  free _ _ _ := trivial
  declare _ hv _ := hv

/-- Evaluation keeps the built-in procedures to those of the table. -/
def Vocabulary.tabledContract : Run.Contract :=
  .ofVocabulary Tabled (fun _ => True) Run.readProgram False
    (fun _ _ => trivial) (fun _ _ _ _ => trivial) (fun _ _ hv => hv.define _)
    (fun text => (tabledReading.keeps_readProgram False text).mono fun _ _ _ _ _ => trivial)

open Vocabulary

/-- A question comes first, and what follows depends on the answer. -/
lemma Run.ask_bind {α β : Type} (question : Machine → Except RuntimeError α) (next : α → Run β)
    (settings : Settings) (m : Machine) : (Run.ask question >>= next) settings m =
      match question m with
      | .ok a => next a settings m
      | .error e => .failed e m := by
  show andThen (Run.ask question) next settings m = _
  unfold andThen Run.ask
  cases question m <;> rfl

/-- A step with accesses that may miss is a step, on a machine with the built-in procedures of the
table. -/
lemma Evaluator.stepOr_eq (crash : (α : Type) → Run α) (self : Evaluator) (node : Node)
    (frame : FrameId) (settings : Settings) {m : Machine} (hm : m.vocabulary.Tabled) :
    stepOr crash self node frame settings m = step self node frame settings m := by
  cases node with
  | call name nodes line =>
    rw [stepOr, callOr, step, call, Run.ask_bind, Run.ask_bind]
    cases hresolve : m.vocabulary.resolve name line with
    | error e => rfl
    | ok callable =>
      cases callable with
      | procedure p => rfl
      | builtin b =>
        -- what the name stands for has been looked up before the inputs are evaluated
        have hcallable := resolve_eq_ok_iff.mp hresolve
        dsimp only
        simp only [callBuiltinOr_eq crash self frame (hm name b hcallable)]
  | conditional form condition thenBranch elseBranch line =>
    rw [stepOr, Run.readProgramOr_eq]
    rfl
  | _ => rfl

/-- Evaluation with accesses that may miss keeps the contract. -/
lemma tabled_evalOr (crash : (α : Type) → Run α) (bound : Nat) :
    tabledContract.Evaluators (eval bound) (evalOr crash bound) := by
  induction bound with
  | zero => exact fun _ _ _ => .refl fun _ _ _ => trivial
  | succ bound ih =>
    intro node frame hfit settings m hm
    have hstep := Run.Contract.step ih node frame hfit settings m hm
    rw [show tabledContract.read = Run.readProgram from rfl, Evaluator.stepBy_readProgram] at hstep
    rw [evalOr, Evaluator.stepOr_eq crash _ node frame settings hm]
    exact hstep

lemma tabledContract_strict : tabledContract.Strict := ⟨rfl, id⟩

lemma Session.Told.tabled {m : Machine} (h : Session.Told m) : m.vocabulary.Tabled :=
  h.inv tabledContract_strict (fun hm => hm) tabled_standard

/-- **No access misses.**
* In all texts the marks of words can be cut off.
* With as many inputs as the table asks for, or more, all accesses of an operation hit.
* In a call of a procedure of the table it does not matter what a crash would do, however many
  inputs there are and whatever they are.
* Neither does it matter in anything that a session can be told, on a machine whose built-in
  procedures are those of the table. They are the same afterwards.
* All machines that a session comes to are like that. -/
theorem no_access_misses :
    (∀ source, tokenize? source = some (tokenize source)) ∧
    (∀ b ∈ Builtin.table, ∀ op, b.action = .operation op → ∀ inputs line, b.least ≤ inputs.length →
      op.attempt inputs line = some (op.apply inputs line)) ∧
    (∀ b ∈ Builtin.table, ∀ crash (self : Evaluator) frame values line,
      self.callBuiltinOr crash b frame values line = self.callBuiltin b frame values line) ∧
    (∀ m : Machine, m.vocabulary.Tabled → ∀ (input : Session.Input) bound settings,
      (∀ crash, input.performBy (Run.readProgramOr crash) (evalOr crash bound) settings m =
        input.step.perform bound settings m) ∧
      ∀ after, (input.step.perform bound settings m).after? = some after →
        after.vocabulary.Tabled) ∧
    (∀ m, Session.Told m → m.vocabulary.Tabled) := by
  refine ⟨tokenize?_eq, ?_, ?_, ?_, fun m h => h.tabled⟩
  · intro b hb op haction inputs line hleast
    have htaken := taken_le_least b hb
    rw [haction] at htaken
    exact op.attempt_eq (Nat.le_trans htaken hleast)
  · intro b hb crash self frame values line
    exact Evaluator.callBuiltinOr_eq crash self frame hb values line
  · intro m hm input bound settings
    refine ⟨fun crash => ?_, fun after hafter => tabledContract_strict.input input hm bound hafter⟩
    rw [Run.readProgramOr_eq, ← Session.Input.performBy_readProgram]
    have hinput := Run.Contract.sessionInput (tabled_evalOr crash bound) input
    exact (hinput.strict tabledContract_strict.lenient settings hm).1

/-- A call without its input is refused. A call with an empty list and with more inputs than it
needs makes no access that misses, and a word is found in another one behind a letter of two
bytes. -/
theorem no_access_misses_short :
    (∃ after, ∀ crash, (Session.Input.run "first").performBy (Run.readProgramOr crash)
        (evalOr crash 5) .standard .initial = .failed (.notEnoughInputs "first" 1) after) ∧
    Operation.butlast.attempt [.list [], .absent] 1 =
      some (.error (.invalidInput "butlast" "[]" 1)) ∧
    Operation.member.attempt [.word "b", .word "aöb"] 1 = some (.ok (.word "b")) := by
  obtain ⟨-, hoperation, -, hinput, htold⟩ := no_access_misses
  refine ⟨?_, ?_, ?_⟩
  · obtain ⟨after, hrun⟩ : ∃ after, Session.run 5 "first" .standard .initial =
        .failed (.notEnoughInputs "first" 1) after := ⟨_, rfl⟩
    have hinitial := htold .initial .initial
    exact ⟨after, fun crash => ((hinput .initial hinitial (.run "first") 5 .standard).1 crash).trans
      hrun⟩
  · have happly := hoperation ⟨"butlast", 1, 1, .operation .butlast⟩ (by decide +kernel) .butlast
      rfl [.list [], .absent] 1 (by simp)
    exact happly.trans rfl
  · have happly := hoperation ⟨"member", 2, 2, .operation .member⟩ (by decide +kernel) .member rfl
      [.word "b", .word "aöb"] 1 (by simp)
    exact happly.trans rfl

end Logo
