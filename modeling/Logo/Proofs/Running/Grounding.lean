import Logo.Proofs.Running.BuiltinNames

/-!
# The frames of procedures

A procedure remembers the frame in which it was defined, and each of its calls makes a child of that
frame. If the frame did not exist, the child would be a root, with the parameters in it open to every
assignment from below. This does not happen. Frames are made and never given up, and a call goes on
in the frame that it has just made. So, as long as everything is run in frames that exist, every
definition is evaluated in one, and the frame of a procedure is there whenever it is called.

* `Machine.Grounded`: the frames of all procedures exist.
* `groundedContract`: evaluation in a frame that exists leaves it so.
* `Session.Framed`: the machines of a session that runs everything in frames that exist.
-/

namespace Logo

namespace Scopes

@[simp] lemma nextId_set (s : Scopes) (f : FrameId) (name : String) (v : Value) :
    (s.set f name v).nextId = s.nextId := Array.size_modify

@[simp] lemma nextId_push (s : Scopes) (parent : Option FrameId) (bindings : Dictionary Value) :
    (s.push parent bindings).nextId = s.nextId + 1 := Array.size_push ..

end Scopes

/-! ## Machines -/

/-- Every procedure that a name stands for was defined in a frame that exists. -/
def Machine.Grounded (m : Machine) : Prop :=
  ∀ name p, m.vocabulary.callable? name = some (.procedure p) → p.frame < m.scopes.nextId

namespace Machine.Grounded

variable {m after : Machine}

/-- At the start there are no procedures. -/
lemma initial : Machine.initial.Grounded := by
  intro name p hcallable
  have hbuiltin := (Vocabulary.callable?_standard name).symm.trans hcallable
  obtain ⟨b, -, hb⟩ := Option.map_eq_some_iff.mp hbuiltin
  cases hb

/-- Frames may be added, while the names stand for what they stood for. -/
lemma mono (h : m.Grounded) (hcallables : after.vocabulary.callables = m.vocabulary.callables)
    (hle : m.scopes.nextId ≤ after.scopes.nextId) : after.Grounded := by
  intro name p hcallable
  rw [Vocabulary.callable?, hcallables] at hcallable
  exact Nat.lt_of_lt_of_le (h name p hcallable) hle

/-- A definition may be evaluated in a frame that exists. -/
lemma define (h : m.Grounded) {p : Procedure} (hp : p.frame < m.scopes.nextId) :
    Machine.Grounded { m with vocabulary := m.vocabulary.define p } := by
  intro name q hcallable
  rw [Vocabulary.callable?_define] at hcallable
  split at hcallable
  · obtain rfl := Callable.procedure.inj (Option.some.inj hcallable)
    exact hp
  · exact h name q hcallable

end Machine.Grounded

/-! ## Evaluation -/

/-- Evaluation gives up no frame. -/
def growingContract (n : Nat) : Run.Contract :=
  .ofScopes (n ≤ ·.nextId)
    (fun f name v hn => Nat.le_trans hn (Nat.le_of_eq (Scopes.nextId_set _ f name v).symm))
    (fun parent bindings hn => Nat.le_trans hn (by simp))

/-- Evaluation in a frame that exists keeps the frames of all procedures. -/
def groundedContract : Run.Contract where
  Inv frame m := frame < m.scopes.nextId ∧ m.Grounded
  Fit _ := True
  Allowed _ _ := True
  read := Run.readProgram
  lenient := False
  fit_part _ _ := trivial
  fit_body _ _ _ _ := trivial
  allowed_value _ _ := trivial
  allowed_leave _ _ _ := trivial
  depth _ _ hm := hm
  write _ _ hm := hm
  setVariable := by
    rintro frame m name v ⟨hframe, hm⟩
    have hle := Nat.le_of_eq (m.scopes.nextId_set frame name v).symm
    exact ⟨Nat.lt_of_lt_of_le hframe hle, hm.mono rfl hle⟩
  openFrame := by
    rintro frame m parent bindings ⟨-, hm⟩
    have hlt : m.scopes.nextId < (m.scopes.push (some parent) bindings).nextId := by simp
    exact ⟨hlt, hm.mono rfl (Nat.le_of_lt hlt)⟩
  leaveFrame hm hafter := ⟨Nat.lt_trans hm.1 hafter.1, hafter.2⟩
  define _ _ hm := ⟨hm.1, hm.2.define hm.1⟩
  readProgram frame text := .refl fun settings m ⟨hframe, hm⟩ =>
    Run.upholds_readProgram settings
      ⟨hframe, hm.mono (Program.callables_ofText text m.vocabulary) (Nat.le_refl _)⟩
      fun _ _ _ _ _ => trivial

lemma growingContract_strict (n : Nat) : (growingContract n).Strict := ⟨rfl, id⟩

lemma groundedContract_strict : groundedContract.Strict := ⟨rfl, id⟩

/-! ## Sessions -/

namespace Session

/-- A step of a session keeps a strict contract under which all syntax trees may be evaluated. -/
lemma Step.keeps {c : Run.Contract} (hstrict : c.Strict) (hfit : ∀ node, c.Fit node)
    (bound : Nat) (step : Step) :
    c.Keeps step.frame anyPost (step.perform bound) (step.perform bound) := by
  have heval := hstrict.eval bound
  have hinput : ∀ input : Input,
      c.Keeps input.step.frame anyPost (input.step.perform bound) (input.step.perform bound) := by
    intro input
    have hkeeps := Run.Contract.sessionInput heval input
    rwa [hstrict.read, Input.performBy_readProgram] at hkeeps
  have hunit : ∀ frame, c.Keeps frame anyPost (Run.give ()) (Run.give ()) :=
    fun _ => .give fun _ => trivial
  cases step with
  | run source => exact hinput (.run source)
  | evaluate source => exact hinput (.evaluate source)
  | call name values line =>
    have hcall : c.Keeps Machine.globalFrame c.Allowed (Session.call bound name values line)
        (Session.call bound name values line) :=
      c.keeps_openFrame _ _ _ fun own => heval _ own (hfit _)
    exact hcall.bind fun _ _ => hunit _
  | enter entry =>
    have hentry := Run.Contract.entry heval hstrict.read entry fun node _ => hfit node
    exact hentry.bind fun _ _ => hunit _
  | set frame name v => exact .change fun m hm => c.setVariable m name v hm
  | ask question => exact .ask fun _ _ _ _ => trivial
  | write text line => exact c.keeps_write text line

/-- The machines that a session can come to if each step does its work in a frame that exists. -/
inductive Framed : Machine → Prop
  | initial : Framed .initial
  | next {m after : Machine} (step : Step) (bound : Nat) (settings : Settings) : Framed m →
      step.frame < m.scopes.nextId → (step.perform bound settings m).after? = some after →
      Framed after

/-- In such a session there are always the frame of the global variables and those of all
procedures. -/
lemma Framed.grounded {m : Machine} (h : Framed m) :
    Machine.globalFrame < m.scopes.nextId ∧ m.Grounded := by
  induction h with
  | initial => exact ⟨Nat.zero_lt_one, .initial⟩
  | next step bound settings _ hframe hafter ih =>
    obtain ⟨hglobal, hm⟩ := ih
    have hgrows := (step.keeps (growingContract_strict 1) (fun _ => trivial) bound).strict id
      settings hglobal
    have hstep := (step.keeps groundedContract_strict (fun _ => trivial) bound).strict id
      settings ⟨hframe, hm⟩
    exact ⟨hgrows.2.inv hafter, (hstep.2.inv hafter).2⟩

end Session

end Logo
