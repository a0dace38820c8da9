import Logo.Proofs.Reading.Contract
import Logo.Proofs.Running.Supervision

/-!
# Contracts of evaluation

A *contract* says what evaluation may rely on and what it has to keep: which machines are in order,
which syntax trees may be evaluated on them, and which flows these may lead to. It is shown one
action at a time, and then holds for all that evaluation puts together, also where a run ends with an
error. Unlike a law it may exclude syntax trees, so that what the reader of programs makes sure of
can be relied on when its programs run.

Whether a machine is in order may depend on the frame in which evaluation goes on. It goes on in one
frame until a procedure is called, and in that frame again after the call.

The statements compare evaluation with supervised evaluation. A strict contract has them do the same;
a lenient one also lets the supervisor give up.

* `Run.Contract`: what has to be shown.
* `Run.Contract.step`: one step of evaluation, one case for each kind of node.
* `Run.Contract.evalBy`: evaluation with any bound, under supervision.
* `Run.Contract.entry`, `Run.Contract.sessionInput`: what evaluation and sessions can be asked to do.
* `Run.Contract.Strict`: contracts under which supervision makes no difference.
* `Session.Told.inv`: whole sessions.
-/

namespace Logo

variable {α β : Type}

/-- The vocabulary in which a procedure has been introduced. -/
def Vocabulary.define (v : Vocabulary) (p : Procedure) : Vocabulary :=
  (v.declare p.name (.fixed p.params.length)).assign p.name (.procedure p)

lemma Vocabulary.arity?_define (v : Vocabulary) (p : Procedure) (name : String) :
    (v.define p).arity? name = if Text.lower name = Text.lower p.name
      then some (.fixed p.params.length) else v.arity? name :=
  arity?_declare ..

lemma Vocabulary.callable?_define (v : Vocabulary) (p : Procedure) (name : String) :
    (v.define p).callable? name = if Text.lower name = Text.lower p.name
      then some (.procedure p) else v.callable? name :=
  callable?_assign ..

lemma Vocabulary.resolve_eq_ok_iff {v : Vocabulary} {name : String} {line : Nat}
    {callable : Callable} :
    v.resolve name line = .ok callable ↔ v.callable? name = some callable := by
  rw [resolve]
  cases v.callable? name with
  | none => simp
  | some c => simp

/-- A call by name of a procedure evaluates its inputs and then calls the procedure. -/
lemma Evaluator.call_of_procedure (self : Evaluator) {name : String} {p : Procedure}
    (nodes : List Node) (frame : FrameId) (line : Nat) (settings : Settings) {m : Machine}
    (hcallable : m.vocabulary.callable? name = some (.procedure p)) :
    self.call name nodes frame line settings m =
      self.inputs name frame nodes (fun values => self.callProcedure p values line) settings m := by
  have hresolve : m.vocabulary.resolve name line = .ok (.procedure p) :=
    Vocabulary.resolve_eq_ok_iff.mpr hcallable
  simp only [call, bind, Run.andThen, Run.ask, hresolve, Run.lift, Run.give]

/-! ## Runs that keep a machine in order -/

/-- The syntax trees that are handed over to evaluation. -/
def Entry.nodes : Entry → List Node
  | node n _ => [n]
  | collect program _ => program
  | execute program _ _ => program
  | procedure p _ _ => p.body
  | _ => []

/-- The frame in which evaluation goes on. A call goes on in a child of the frame where its procedure
was defined. -/
def Entry.frame : Entry → FrameId
  | node _ frame | collect _ frame | execute _ frame _ | text _ frame _ | value _ frame _
  | builtin _ frame _ _ => frame
  | procedure p _ _ => p.frame

/-- The frame in which a step of a session does its work. -/
def Session.Step.frame : Session.Step → FrameId
  | enter entry => entry.frame
  | set frame _ _ => frame
  | _ => Machine.globalFrame

/-- The run ends on a machine that is in order, and what it gives is as `Post` says. -/
def Outcome.Upholds (Inv : Machine → Prop) (Post : α → Machine → Prop) : Outcome α → Prop
  | .done a after => Inv after ∧ Post a after
  | .failed _ after => Inv after
  | .exhausted => True

lemma Outcome.Upholds.mono {Inv Inv' : Machine → Prop} {Post Post' : α → Machine → Prop}
    {o : Outcome α} (h : o.Upholds Inv Post) (hInv : ∀ m, Inv m → Inv' m)
    (hPost : ∀ a m, Post a m → Post' a m) : o.Upholds Inv' Post' := by
  cases o with
  | done a after => exact ⟨hInv after h.1, hPost a after h.2⟩
  | failed e after => exact hInv after h
  | exhausted => trivial

lemma Outcome.Upholds.inv {Inv : Machine → Prop} {Post : α → Machine → Prop} {o : Outcome α}
    (h : o.Upholds Inv Post) {after : Machine} (hafter : o.after? = some after) : Inv after := by
  cases o with
  | done a m =>
    obtain rfl := Option.some.inj hafter
    exact h.1
  | failed e m =>
    obtain rfl := Option.some.inj hafter
    exact h
  | exhausted => cases hafter

/-- Reading upholds an order that the declarations of the text leave as it is. -/
lemma Run.upholds_readProgram {Inv : Machine → Prop} {Post : Program → Machine → Prop}
    {text : String} {m : Machine} (settings : Settings)
    (hInv : Inv { m with vocabulary := (Program.ofText text m.vocabulary).2 })
    (hPost : ∀ program after, (Program.ofText text m.vocabulary).1 = .ok program →
      Post program after) : (Run.readProgram text settings m).Upholds Inv Post := by
  unfold Run.readProgram
  split
  · next program v htext =>
    rw [htext] at hInv hPost
    exact ⟨hInv, hPost program _ rfl⟩
  · next e v htext =>
    rw [htext] at hInv
    exact hInv

/-- From a machine that is in order, the first run upholds that order, and the second one does the
same or, if that is allowed, gives up. -/
def Run.Keeps (Inv : Machine → Prop) (lenient : Prop) (Post : α → Machine → Prop) (r s : Run α) :
    Prop :=
  ∀ settings m, Inv m → (lenient ∧ s settings m = .exhausted) ∨
    (s settings m = r settings m ∧ (r settings m).Upholds Inv Post)

/-- Nothing is said about what a run gives. -/
def anyPost : α → Machine → Prop := fun _ _ => True

namespace Run.Keeps

variable {Inv : Machine → Prop} {lenient : Prop} {P : α → Machine → Prop} {Q : β → Machine → Prop}
  {r s : Run α}

/-- A run compared with itself. -/
lemma refl (h : ∀ settings m, Inv m → (r settings m).Upholds Inv P) : Keeps Inv lenient P r r :=
  fun settings m hm => .inr ⟨rfl, h settings m hm⟩

/-- Where the supervisor may not give up, it does the same. -/
lemma strict (h : Keeps Inv lenient P r s) (hstrict : ¬ lenient) (settings : Settings) {m : Machine}
    (hm : Inv m) : s settings m = r settings m ∧ (r settings m).Upholds Inv P := by
  rcases h settings m hm with ⟨hlenient, -⟩ | hsame
  · exact absurd hlenient hstrict
  · exact hsame

lemma mono {P' : α → Machine → Prop} (h : Keeps Inv lenient P r s) (hP : ∀ a m, P a m → P' a m) :
    Keeps Inv lenient P' r s := by
  intro settings m hm
  refine (h settings m hm).imp id ?_
  rintro ⟨heq, hup⟩
  exact ⟨heq, hup.mono (fun _ hafter => hafter) hP⟩

lemma give {a : α} (h : ∀ m, P a m) : Keeps Inv lenient P (Run.give a) (Run.give a) :=
  refl fun _ m hm => ⟨hm, h m⟩

lemma fail (e : RuntimeError) : Keeps Inv lenient P (Run.fail e) (Run.fail e) :=
  refl fun _ _ hm => hm

lemma bind {next next' : α → Run β} (h : Keeps Inv lenient P r s)
    (hnext : ∀ a, (∃ m, P a m) → Keeps Inv lenient Q (next a) (next' a)) :
    Keeps Inv lenient Q (r >>= next) (s >>= next') := by
  intro settings m hm
  rcases h settings m hm with ⟨hlenient, hs⟩ | ⟨heq, hup⟩
  · refine .inl ⟨hlenient, ?_⟩
    simp only [Bind.bind, andThen, hs]
  · cases hr : r settings m with
    | done a after =>
      rw [hr] at heq hup
      simp only [Bind.bind, andThen, hr, heq]
      exact hnext a ⟨after, hup.2⟩ settings after hup.1
    | failed e after =>
      rw [hr] at heq hup
      simp only [Bind.bind, andThen, hr, heq]
      exact .inr ⟨trivial, hup⟩
    | exhausted =>
      rw [hr] at heq
      simp only [Bind.bind, andThen, hr, heq]
      exact .inr ⟨trivial, trivial⟩

/-- A question to the machine. -/
lemma ask {question : Machine → Except RuntimeError α}
    (h : ∀ m a, Inv m → question m = .ok a → P a m) :
    Keeps Inv lenient P (Run.ask question) (Run.ask question) := by
  refine refl fun settings m hm => ?_
  unfold Run.ask
  cases hq : question m with
  | ok a => exact ⟨hm, h m a hm hq⟩
  | error e => exact hm

lemma lift (x : Except RuntimeError α) :
    Keeps Inv lenient anyPost (Run.lift x) (Run.lift x) := by
  cases x with
  | ok a => exact give fun _ => trivial
  | error e => exact fail e

/-- A change that keeps a machine in order. -/
lemma change {f : Machine → Machine} (h : ∀ m, Inv m → Inv (f m)) :
    Keeps Inv lenient anyPost (Run.change f) (Run.change f) :=
  refl fun _ m hm => ⟨h m hm, trivial⟩

/-! ## Flows -/

variable {Allowed : Flow → Machine → Prop} {body body' : Run Flow}

lemma onValue {next next' : Value → Run Flow} (h : Keeps Inv lenient Allowed body body')
    (hnext : ∀ v, Keeps Inv lenient Allowed (next v) (next' v)) :
    Keeps Inv lenient Allowed (Run.onValue body next) (Run.onValue body' next') := by
  intro settings m hm
  rcases h settings m hm with ⟨hlenient, hs⟩ | ⟨heq, hup⟩
  · refine .inl ⟨hlenient, ?_⟩
    simp only [Run.onValue, hs]
  · cases hr : body settings m with
    | done flow after =>
      rw [hr] at heq hup
      cases flow with
      | value v =>
        simp only [Run.onValue, hr, heq]
        exact hnext v settings after hup.1
      | output v =>
        simp only [Run.onValue, hr, heq]
        exact .inr ⟨trivial, hup⟩
      | stop =>
        simp only [Run.onValue, hr, heq]
        exact .inr ⟨trivial, hup⟩
    | failed e after =>
      rw [hr] at heq hup
      simp only [Run.onValue, hr, heq]
      exact .inr ⟨trivial, hup⟩
    | exhausted =>
      rw [hr] at heq
      simp only [Run.onValue, hr, heq]
      exact .inr ⟨trivial, trivial⟩

lemma times (hvalue : ∀ v m, Allowed (.value v) m) (h : Keeps Inv lenient Allowed body body')
    (count : Nat) : Keeps Inv lenient Allowed (Run.times body count) (Run.times body' count) := by
  induction count with
  | zero => exact give (hvalue _)
  | succ count ih =>
    rw [times_succ, times_succ]
    exact onValue h fun _ => ih

lemma each {body body' : Value → Nat → Run Flow} (hvalue : ∀ v m, Allowed (.value v) m)
    (h : ∀ v place, Keeps Inv lenient Allowed (body v place) (body' v place)) (place : Nat)
    (vs : List Value) :
    Keeps Inv lenient Allowed (Run.each body place vs) (Run.each body' place vs) := by
  induction vs generalizing place with
  | nil => exact give (hvalue _)
  | cons v vs ih =>
    rw [each_cons, each_cons]
    exact onValue (h v place) fun _ => ih (place + 1)

/-- A body that is entered and left. What it leads to concerns nobody but its call. -/
lemma nested (hdepth : ∀ m depth, Inv m → Inv { m with depth := depth })
    (h : Keeps Inv lenient Allowed body body') (line : Nat) :
    Keeps Inv lenient anyPost (Run.nested line body) (Run.nested line body') := by
  intro settings m hm
  unfold Run.nested
  split
  · exact .inr ⟨rfl, hm⟩
  rcases h settings _ (hdepth m (m.depth + 1) hm) with ⟨hlenient, hs⟩ | ⟨heq, hup⟩
  · rw [hs]
    exact .inl ⟨hlenient, rfl⟩
  · rw [heq]
    cases hr : body settings { m with depth := m.depth + 1 } with
    | done flow after =>
      rw [hr] at hup
      exact .inr ⟨rfl, hdepth after _ hup.1, trivial⟩
    | failed e after =>
      rw [hr] at hup
      exact .inr ⟨rfl, hdepth after _ hup⟩
    | exhausted => exact .inr ⟨rfl, trivial⟩

end Run.Keeps

/-- An input is the value of its node, except that a call without a value is refused. -/
lemma Run.input_eq_onValue (self : Evaluator) (consumer : String) (frame : FrameId) (node : Node) :
    self.input consumer frame node = Run.onValue (self node frame) fun v =>
      match v, node.called? with
      | .absent, some name => Run.fail (.noOutput name consumer node.line)
      | v, _ => Run.give (.value v) := by
  rw [input_eq, onValue_eq]
  refine congrArg (self node frame >>= ·) (funext fun flow => ?_)
  rcases flow with (_ | _ | _ | _ | _) | _ | _
  case value.absent => cases node.called? <;> rfl
  all_goals rfl

/-! ## Contracts -/

/-- What evaluation may rely on and has to keep. -/
structure Run.Contract where
  /-- The machine is in order for evaluation in the frame. -/
  Inv : FrameId → Machine → Prop
  /-- The syntax tree may be evaluated. -/
  Fit : Node → Prop
  /-- The flow may be led to, on this machine. -/
  Allowed : Flow → Machine → Prop
  /-- The reader of the supervisor. -/
  read : String → Run Program
  /-- The supervisor may give up. -/
  lenient : Prop
  fit_part : ∀ {node part : Node}, Fit node → part ∈ node.parts → Fit part
  fit_body : ∀ {frame : FrameId} {m : Machine} {name : String} {p : Procedure}, Inv frame m →
    m.vocabulary.callable? name = some (.procedure p) → ∀ node ∈ p.body, Fit node
  allowed_value : ∀ (v : Value) (m : Machine), Allowed (.value v) m
  allowed_leave : ∀ (flow : Flow) (m : Machine), m.inProcedure = true → Allowed flow m
  depth : ∀ {frame : FrameId} (m : Machine) (depth : Nat), Inv frame m →
    Inv frame { m with depth := depth }
  write : ∀ {frame : FrameId} (m : Machine) (transcript : Transcript), Inv frame m →
    Inv frame { m with transcript := transcript }
  setVariable : ∀ {frame : FrameId} (m : Machine) (name : String) (v : Value), Inv frame m →
    Inv frame { m with scopes := m.scopes.set frame name v }
  openFrame : ∀ {frame : FrameId} (m : Machine) (parent : FrameId) (bindings : Dictionary Value),
    Inv frame m → Inv m.scopes.nextId { m with scopes := m.scopes.push (some parent) bindings }
  /-- What is in order for the frame of a call is in order for its caller afterwards. -/
  leaveFrame : ∀ {frame : FrameId} {m after : Machine}, Inv frame m →
    Inv m.scopes.nextId after → Inv frame after
  define : ∀ {frame : FrameId} {name : String} {params : List String} {body : Program}
    {line : Nat} (m : Machine), Fit (.definition name params body line) → Inv frame m →
    Inv frame { m with vocabulary := m.vocabulary.define ⟨name, params, body, frame⟩ }
  readProgram : ∀ (frame : FrameId) (text : String),
    Run.Keeps (Inv frame) lenient (fun program _ => ∀ node ∈ program, Fit node)
      (Run.readProgram text) (read text)

namespace Run.Contract

variable (c : Run.Contract)

/-- In the frame, the runs keep the contract, and what is given is as `Post` says. -/
abbrev Keeps (frame : FrameId) (Post : α → Machine → Prop) (r s : Run α) : Prop :=
  Run.Keeps (c.Inv frame) c.lenient Post r s

/-- The evaluators keep the contract on all nodes that may be evaluated. -/
def Evaluators (self self' : Evaluator) : Prop :=
  ∀ node frame, c.Fit node → c.Keeps frame c.Allowed (self node frame) (self' node frame)

variable {frame : FrameId}

lemma keeps_write (text : String) (line : Nat) :
    c.Keeps frame anyPost (Run.write text line) (Run.write text line) := by
  refine .refl fun settings m hm => ?_
  unfold Run.write
  cases settings.outputLimit with
  | none => exact ⟨c.write m _ hm, trivial⟩
  | some limit =>
    dsimp only
    split
    · exact hm
    · exact ⟨c.write m _ hm, trivial⟩

lemma keeps_value (v : Value) :
    c.Keeps frame c.Allowed (Run.give (.value v)) (Run.give (.value v)) :=
  .give (c.allowed_value v)

/-- A command that has done its work. -/
lemma keeps_nothing {r : Run Unit} (h : c.Keeps frame anyPost r r) :
    c.Keeps frame c.Allowed (r >>= fun _ => Run.give .nothing) (r >>= fun _ => Run.give .nothing) :=
  h.bind fun _ _ => c.keeps_value .absent

lemma keeps_leave (name : String) (flow : Flow) (line : Nat) :
    c.Keeps frame c.Allowed (Evaluator.leave name flow line) (Evaluator.leave name flow line) := by
  refine .ask fun m a _ hq => ?_
  split at hq
  · next hin =>
    obtain rfl : flow = a := by simpa using hq
    exact c.allowed_leave flow m hin
  · simp at hq

/-- What comes after a new frame has been made goes on in that frame. -/
lemma keeps_openFrame (frame parent : FrameId) (bindings : Dictionary Value) {P : α → Machine → Prop}
    {next next' : FrameId → Run α} (h : ∀ own, c.Keeps own P (next own) (next' own)) :
    c.Keeps frame P (Run.openFrame parent bindings >>= next)
      (Run.openFrame parent bindings >>= next') := by
  intro settings m hm
  refine (h m.scopes.nextId settings _ (c.openFrame m parent bindings hm)).imp id ?_
  rintro ⟨heq, hup⟩
  exact ⟨heq, hup.mono (fun _ hafter => c.leaveFrame hm hafter) fun _ _ ha => ha⟩

/-! ## The functions of evaluation -/

variable {c} {self self' : Evaluator} (h : c.Evaluators self self')
include h

lemma execute (frame : FrameId) (keepLast : Bool) {program : Program}
    (hfit : ∀ node ∈ program, c.Fit node) :
    c.Keeps frame c.Allowed (self.execute frame keepLast program)
      (self'.execute frame keepLast program) := by
  induction program with
  | nil => exact c.keeps_value _
  | cons node rest ih =>
    refine .onValue (h node frame (hfit node List.mem_cons_self)) fun v => ?_
    split
    · exact c.keeps_value v
    split
    · exact ih fun node hnode => hfit node (List.mem_cons_of_mem _ hnode)
    · exact .fail _

lemma collect (frame : FrameId) (values : List Value) {program : Program}
    (hfit : ∀ node ∈ program, c.Fit node) :
    c.Keeps frame c.Allowed (self.collect frame values program)
      (self'.collect frame values program) := by
  induction program generalizing values with
  | nil => exact c.keeps_value _
  | cons node rest ih =>
    refine .onValue (h node frame (hfit node List.mem_cons_self)) fun v => ?_
    exact ih _ fun node hnode => hfit node (List.mem_cons_of_mem _ hnode)

lemma runText (text : String) (frame : FrameId) (keepLast : Bool) :
    c.Keeps frame c.Allowed (self.runText text frame keepLast)
      (self'.runTextBy c.read text frame keepLast) :=
  (c.readProgram frame text).bind fun _ ⟨_, hfit⟩ => execute h frame keepLast hfit

lemma runValue (v : Value) (frame : FrameId) (keepLast : Bool) :
    c.Keeps frame c.Allowed (self.runValue v frame keepLast)
      (self'.runValueBy c.read v frame keepLast) :=
  runText h v.printForm frame keepLast

lemma input (consumer : String) (frame : FrameId) {node : Node} (hfit : c.Fit node) :
    c.Keeps frame c.Allowed (self.input consumer frame node) (self'.input consumer frame node) := by
  rw [input_eq_onValue, input_eq_onValue]
  refine .onValue (h node frame hfit) fun v => ?_
  split
  · exact .fail _
  · exact c.keeps_value _

lemma inputs (consumer : String) (frame : FrameId) {nodes : List Node}
    (hfit : ∀ node ∈ nodes, c.Fit node) {next next' : List Value → Run Flow}
    (hnext : ∀ values, c.Keeps frame c.Allowed (next values) (next' values)) :
    c.Keeps frame c.Allowed (self.inputs consumer frame nodes next)
      (self'.inputs consumer frame nodes next') := by
  induction nodes generalizing next next' with
  | nil => exact hnext []
  | cons node nodes ih =>
    refine .onValue (input h consumer frame (hfit node List.mem_cons_self)) fun v => ?_
    exact ih (fun node hnode => hfit node (List.mem_cons_of_mem _ hnode)) fun vs => hnext (v :: vs)

/-- The body goes on in the frame of the call, whatever the frame of the caller is. -/
lemma callProcedure (frame : FrameId) {p : Procedure} (hfit : ∀ node ∈ p.body, c.Fit node)
    (values : List Value) (line : Nat) :
    c.Keeps frame c.Allowed (self.callProcedure p values line)
      (self'.callProcedure p values line) := by
  have hbody := Run.Keeps.nested c.depth
    (c.keeps_openFrame frame p.frame (Scopes.bindInputs .empty p.params values)
      fun own => execute h own false hfit) line
  refine hbody.bind fun flow _ => ?_
  cases flow with
  | value v => exact c.keeps_value _
  | output v => exact c.keeps_value v
  | stop => exact c.keeps_value _

lemma perform (command : Command) (frame : FrameId) (values : List Value) (line : Nat) :
    c.Keeps frame c.Allowed (self.perform command frame values line)
      (self'.performBy c.read command frame values line) := by
  have hset : ∀ name v, c.Keeps frame anyPost (Run.setVariable frame name v)
      (Run.setVariable frame name v) := fun name v =>
    .change fun m hm => c.setVariable m name v hm
  cases command with
  | print | showForm | typeOut => exact c.keeps_nothing (c.keeps_write _ line)
  | make =>
    exact (Run.Keeps.lift _).bind fun (name, v) _ => (Run.Keeps.lift _).bind fun name _ =>
      c.keeps_nothing (hset name v)
  | name =>
    exact (Run.Keeps.lift _).bind fun (v, name) _ => (Run.Keeps.lift _).bind fun name _ =>
      c.keeps_nothing (hset name v)
  | thing =>
    refine (Run.Keeps.lift _).bind fun name _ => (Run.Keeps.lift _).bind fun name _ => ?_
    exact (Run.Keeps.ask (P := anyPost) fun _ _ _ _ => trivial).bind fun v _ => c.keeps_value v
  | load =>
    refine (Run.Keeps.lift _).bind fun name _ => (Run.Keeps.lift _).bind fun name _ => ?_
    have hsettings : c.Keeps frame anyPost Run.settings Run.settings :=
      .refl fun _ _ hm => ⟨hm, trivial⟩
    refine hsettings.bind fun settings _ => ?_
    dsimp only
    cases settings.readFile (Path.script settings.corpus name) with
    | ok text => exact runText h text frame false
    | error cause => exact .fail _
  | run => exact (Run.Keeps.lift _).bind fun v _ => runValue h v frame true
  | repeatTimes =>
    exact (Run.Keeps.lift _).bind fun (count, v) _ => (Run.Keeps.lift _).bind fun n _ =>
      (Run.Keeps.lift _).bind fun n _ => .times c.allowed_value (runValue h v frame false) n
  | foreach =>
    exact (Run.Keeps.lift _).bind fun (data, template) _ => (Run.Keeps.lift _).bind fun members _ =>
      .each c.allowed_value
        (fun v place => runValue h (Template.fill v place template) frame false) 1 members
  | output => exact (Run.Keeps.lift _).bind fun v _ => c.keeps_leave _ _ line
  | stop => exact c.keeps_leave _ _ line

lemma callBuiltin (b : Builtin) (frame : FrameId) (values : List Value) (line : Nat) :
    c.Keeps frame c.Allowed (self.callBuiltin b frame values line)
      (self'.callBuiltinBy c.read b frame values line) := by
  unfold Evaluator.callBuiltinBy Evaluator.callBuiltin
  cases b.action with
  | operation op =>
    dsimp only
    split
    · exact .fail _
    · exact (Run.Keeps.lift _).bind fun v _ => c.keeps_value v
  | command command =>
    dsimp only
    split
    · exact .fail _
    · exact perform h command frame values line
  | reserved =>
    dsimp only
    split
    · exact .fail _
    · exact .fail _

lemma call (name : String) {nodes : List Node} (hfit : ∀ node ∈ nodes, c.Fit node) (frame : FrameId)
    (line : Nat) : c.Keeps frame c.Allowed (self.call name nodes frame line)
      (self'.callBy c.read name nodes frame line) := by
  -- what the name stands for is looked up on a machine that is in order
  have hresolve : c.Keeps frame
      (fun callable _ => ∀ p, callable = .procedure p → ∀ node ∈ p.body, c.Fit node)
      (Run.ask fun m => m.vocabulary.resolve name line)
      (Run.ask fun m => m.vocabulary.resolve name line) := by
    refine .ask fun m callable hm hq p hp => ?_
    subst hp
    exact c.fit_body hm (Vocabulary.resolve_eq_ok_iff.mp hq)
  refine hresolve.bind fun callable ⟨_, hbody⟩ => inputs h name frame hfit fun values => ?_
  cases callable with
  | builtin b => exact callBuiltin h b frame values line
  | procedure p => exact callProcedure h frame (hbody p rfl) values line

lemma branch (frame : FrameId) {node : Node} (hfit : c.Fit node) :
    c.Keeps frame c.Allowed (self.branch node frame) (self'.branchBy c.read node frame) := by
  refine .onValue (h node frame hfit) fun v => ?_
  cases v with
  | list items => exact runValue h (.list items) frame true
  | _ => exact c.keeps_value _

lemma conditional (form : ConditionalForm) {condition thenBranch : Node} {elseBranch : Option Node}
    {line : Nat} (frame : FrameId)
    (hfit : c.Fit (.conditional form condition thenBranch elseBranch line)) :
    c.Keeps frame c.Allowed (self.conditional form condition thenBranch elseBranch frame line)
      (self'.conditionalBy c.read form condition thenBranch elseBranch frame line) := by
  have hparts : ∀ part ∈ condition :: thenBranch :: elseBranch.toList, c.Fit part :=
    fun part hpart => c.fit_part hfit hpart
  refine .onValue (input h _ frame (hparts condition (by simp))) fun v => ?_
  refine (Run.Keeps.lift _).bind fun b _ => ?_
  split
  · exact branch h frame (hparts thenBranch (by simp))
  · cases elseBranch with
    | none => exact c.keeps_value _
    | some node => exact branch h frame (hparts node (by simp))

/-- **A step of evaluation** keeps the contract if the evaluators of the parts do. -/
theorem step : c.Evaluators self.step (self'.stepBy c.read) := by
  intro node frame hfit
  cases node with
  | number x l => exact c.keeps_value _
  | word text l => exact c.keeps_value _
  | truth b l => exact c.keeps_value _
  | list items l => exact c.keeps_value _
  | reference name l =>
    exact (Run.Keeps.ask (P := anyPost) fun _ _ _ _ => trivial).bind fun v _ => c.keeps_value v
  | binary op left right l =>
    have hparts : ∀ part ∈ [left, right], c.Fit part := fun part hpart => c.fit_part hfit hpart
    refine .onValue (input h _ frame (hparts left (by simp))) fun a => ?_
    refine .onValue (input h _ frame (hparts right (by simp))) fun b => ?_
    exact (Run.Keeps.lift _).bind fun v _ => c.keeps_value v
  | call name nodes l => exact call h name (fun node hnode => c.fit_part hfit hnode) frame l
  | definition name params body l =>
    exact c.keeps_nothing (.change fun m hm => c.define m hfit hm)
  | conditional form condition thenBranch elseBranch l => exact conditional h form frame hfit

/-- Every way into evaluation keeps the contract, if the supervisor reads as usual. -/
theorem entry (hread : c.read = Run.readProgram) (entry : Entry)
    (hfit : ∀ node ∈ entry.nodes, c.Fit node) :
    c.Keeps entry.frame c.Allowed (entry.run self) (entry.run self') := by
  cases entry with
  | node n frame => exact h n frame (hfit n List.mem_cons_self)
  | collect program frame => exact collect h frame [] hfit
  | execute program frame keepLast => exact execute h frame keepLast hfit
  | text t frame keepLast =>
    have htext := runText h t frame keepLast
    rwa [hread] at htext
  | value v frame keepLast =>
    have hvalue := runValue h v frame keepLast
    rwa [hread] at hvalue
  | builtin b frame values line =>
    have hbuiltin := callBuiltin h b frame values line
    rwa [hread, Evaluator.callBuiltinBy_readProgram] at hbuiltin
  | procedure p values line => exact callProcedure h p.frame hfit values line

/-- All that a session can be given to run keeps the contract. -/
theorem sessionInput (input : Session.Input) :
    c.Keeps input.step.frame anyPost (input.performBy Run.readProgram self)
      (input.performBy c.read self') := by
  have htop : ∀ flow, c.Keeps Machine.globalFrame anyPost (Session.atTopLevel flow)
      (Session.atTopLevel flow) := by
    intro flow
    cases flow with
    | value v => exact .give fun _ => trivial
    | output v => exact .fail _
    | stop => exact .fail _
  have hunit : ∀ frame, c.Keeps frame anyPost (Run.give ()) (Run.give ()) :=
    fun _ => .give fun _ => trivial
  cases input with
  | run source =>
    exact (runText h source _ false).bind fun flow _ => (htop flow).bind fun _ _ => hunit _
  | evaluate source =>
    have hvalues : c.Keeps Machine.globalFrame anyPost
        (Session.evaluateBy Run.readProgram self source) (Session.evaluateBy c.read self' source) :=
      (c.readProgram _ source).bind fun program ⟨_, hfit⟩ =>
        (collect h _ [] hfit).bind fun flow _ => htop flow
    exact hvalues.bind fun _ _ => hunit _
  | text t frame keepLast => exact (runText h t frame keepLast).bind fun _ _ => hunit _
  | value v frame keepLast => exact (runValue h v frame keepLast).bind fun _ _ => hunit _

end Run.Contract

namespace Run.Contract

variable (c : Run.Contract)

/-- Evaluation keeps the contract under any supervision of the nodes that does. -/
theorem evalBy {around : Run Flow → Run Flow}
    (haround : ∀ frame r s, c.Keeps frame c.Allowed r s → c.Keeps frame c.Allowed r (around s))
    (bound : Nat) :
    c.Evaluators (Logo.eval bound) (Logo.evalBy c.read around bound) := by
  induction bound with
  | zero => exact fun _ _ _ => .refl fun _ _ _ => trivial
  | succ bound ih => exact fun node frame hfit => haround _ _ _ (step ih node frame hfit)

/-- A guard lets all machines pass that are in order. -/
lemma keeps_guarded {frame : FrameId} {Ok : Machine → Prop} (hok : ∀ m, c.Inv frame m → Ok m)
    {P : α → Machine → Prop} {r s : Run α} (beyond : Run α) (h : c.Keeps frame P r s) :
    c.Keeps frame P r (Run.guarded Ok beyond s) := by
  intro settings m hm
  rcases h settings m hm with ⟨hlenient, hgivesUp⟩ | ⟨hsame, hup⟩
  · have hend : ∀ after, (s settings m).after? = some after → Ok after := by
      intro after hafter
      rw [hgivesUp] at hafter
      cases hafter
    exact .inl ⟨hlenient, (Run.guarded_eq (hok m hm) hend).trans hgivesUp⟩
  · have hend : ∀ after, (s settings m).after? = some after → Ok after := by
      intro after hafter
      rw [hsame] at hafter
      exact hok after (hup.inv hafter)
    exact .inr ⟨(Run.guarded_eq (hok m hm) hend).trans hsame, hup⟩

/-- Evaluation keeps the contract. -/
lemma eval (bound : Nat) : c.Evaluators (Logo.eval bound) (Logo.evalBy c.read id bound) :=
  c.evalBy (fun _ _ _ h => h) bound

/-- Evaluation keeps the contract under a guard that machines in order pass. -/
lemma evalGuarded {Ok : Machine → Prop} (hok : ∀ frame m, c.Inv frame m → Ok m)
    (beyond : Run Flow) (bound : Nat) :
    c.Evaluators (Logo.eval bound) (Logo.evalBy c.read (Run.guarded Ok beyond) bound) :=
  c.evalBy (fun frame _ _ h => c.keeps_guarded (hok frame) beyond h) bound

/-! ## Strict contracts -/

/-- The supervisor reads as usual and does not give up. -/
structure Strict : Prop where
  read : c.read = Run.readProgram
  lenient : ¬ c.lenient

variable {c} (hstrict : c.Strict) {settings : Settings} {m : Machine}
include hstrict

/-- Evaluation keeps a strict contract, compared with itself. -/
lemma Strict.eval (bound : Nat) : c.Evaluators (Logo.eval bound) (Logo.eval bound) := by
  have heval := c.eval bound
  rwa [hstrict.read, evalBy_readProgram] at heval

/-- After evaluation a machine is in order. -/
lemma Strict.entry (entry : Entry) (hm : c.Inv entry.frame m)
    (hfit : ∀ node ∈ entry.nodes, c.Fit node) (bound : Nat) {after : Machine}
    (hafter : (entry.run (Logo.eval bound) settings m).after? = some after) :
    c.Inv entry.frame after :=
  ((Run.Contract.entry (hstrict.eval bound) hstrict.read entry hfit).strict hstrict.lenient
    settings hm).2.inv hafter

/-- During evaluation it is in order, too: a guard makes no difference. -/
lemma Strict.entry_guarded (entry : Entry) (hm : c.Inv entry.frame m)
    (hfit : ∀ node ∈ entry.nodes, c.Fit node) (bound : Nat) {Ok : Machine → Prop}
    (hok : ∀ frame m, c.Inv frame m → Ok m) (beyond : Run Flow) :
    entry.run (Logo.evalBy Run.readProgram (Run.guarded Ok beyond) bound) settings m =
      entry.run (Logo.eval bound) settings m := by
  have heval := c.evalGuarded hok beyond bound
  rw [hstrict.read] at heval
  exact ((Run.Contract.entry heval hstrict.read entry hfit).strict hstrict.lenient settings hm).1

/-- After an input of a session a machine is in order. -/
lemma Strict.input (input : Session.Input) (hm : c.Inv input.step.frame m) (bound : Nat)
    {after : Machine} (hafter : (input.step.perform bound settings m).after? = some after) :
    c.Inv input.step.frame after := by
  rw [← Session.Input.performBy_readProgram] at hafter
  exact ((sessionInput (hstrict.eval bound) input).strict hstrict.lenient settings hm).2.inv hafter

/-- During an input of a session it is in order, too. -/
lemma Strict.input_guarded (input : Session.Input) (hm : c.Inv input.step.frame m) (bound : Nat)
    {Ok : Machine → Prop} (hok : ∀ frame m, c.Inv frame m → Ok m) (beyond : Run Flow) :
    input.performBy Run.readProgram
        (Logo.evalBy Run.readProgram (Run.guarded Ok beyond) bound) settings m =
      input.step.perform bound settings m := by
  have hinput := sessionInput (c.evalGuarded hok beyond bound) input
  rw [hstrict.read] at hinput
  rw [← Session.Input.performBy_readProgram]
  exact (hinput.strict hstrict.lenient settings hm).1

end Run.Contract

/-- A session that is told what to run keeps a strict contract from the start on, if the order of a
machine is the same for all frames. -/
lemma Session.Told.inv {m : Machine} (h : Session.Told m) {c : Run.Contract} (hstrict : c.Strict)
    (hframes : ∀ {f g : FrameId} {m : Machine}, c.Inv f m → c.Inv g m)
    (hinitial : c.Inv Machine.globalFrame .initial) : c.Inv Machine.globalFrame m := by
  induction h with
  | initial => exact hinitial
  | next input bound settings _ hafter ih =>
    exact hframes (hstrict.input input (hframes ih) bound hafter)

/-! ## Contracts about the vocabulary -/

lemma Reader.Contract.keeps_readProgram (c : Reader.Contract) (lenient : Prop) (text : String) :
    Run.Keeps (fun m => c.Inv m.vocabulary) lenient (fun program _ => c.FitAll program)
      (Run.readProgram text) (Run.readProgram text) := by
  refine .refl fun settings m hm => ?_
  obtain ⟨hafter, hfit⟩ := c.ofText text hm
  exact Run.upholds_readProgram settings hafter fun program _ => hfit program

/-- A contract in which the vocabulary alone decides whether a machine is in order. -/
def Run.Contract.ofVocabulary (Inv : Vocabulary → Prop) (Fit : Node → Prop)
    (read : String → Run Program) (lenient : Prop)
    (fit_part : ∀ {node part : Node}, Fit node → part ∈ node.parts → Fit part)
    (fit_body : ∀ {v : Vocabulary} {name : String} {p : Procedure}, Inv v →
      v.callable? name = some (.procedure p) → ∀ node ∈ p.body, Fit node)
    (define : ∀ {v : Vocabulary} {name : String} {params : List String} {body : Program}
      {line : Nat} (frame : FrameId), Fit (.definition name params body line) → Inv v →
      Inv (v.define ⟨name, params, body, frame⟩))
    (readProgram : ∀ text : String, Run.Keeps (fun m => Inv m.vocabulary) lenient
      (fun program _ => ∀ node ∈ program, Fit node) (Run.readProgram text) (read text)) :
    Run.Contract where
  Inv _ m := Inv m.vocabulary
  Fit := Fit
  Allowed _ _ := True
  read := read
  lenient := lenient
  fit_part := fit_part
  fit_body := fit_body
  allowed_value _ _ := trivial
  allowed_leave _ _ _ := trivial
  depth _ _ hm := hm
  write _ _ hm := hm
  setVariable _ _ _ hm := hm
  openFrame _ _ _ hm := hm
  leaveFrame _ hafter := hafter
  define _ hfit hm := define _ hfit hm
  readProgram _ := readProgram

/-! ## Contracts about the variables -/

/-- A contract in which the variables alone decide whether a machine is in order. -/
def Run.Contract.ofScopes (Inv : Scopes → Prop)
    (set : ∀ {s : Scopes} (f : FrameId) (name : String) (v : Value), Inv s → Inv (s.set f name v))
    (push : ∀ {s : Scopes} (parent : Option FrameId) (bindings : Dictionary Value), Inv s →
      Inv (s.push parent bindings)) : Run.Contract where
  Inv _ m := Inv m.scopes
  Fit _ := True
  Allowed _ _ := True
  read := Run.readProgram
  lenient := False
  fit_part _ _ := trivial
  fit_body _ _ _ _ := trivial
  allowed_value _ _ := trivial
  allowed_leave _ _ _ := trivial
  depth _ _ hm := hm
  write _ _ hm := hm
  setVariable _ name v hm := set _ name v hm
  openFrame _ parent bindings hm := push (some parent) bindings hm
  leaveFrame _ hafter := hafter
  define _ _ hm := hm
  readProgram _ _ := .refl fun settings _ hm =>
    Run.upholds_readProgram settings hm fun _ _ _ _ _ => trivial

end Logo
