import Logo.Proofs.Running.Law

/-!
# The number of open calls

A machine counts the procedure calls that are open. The count goes up by one when the body of a
procedure is entered, which is refused at the limit, and down by one when it is left, whether with a
value or with an error. So every run ends with as many open calls as it started with, and none ever
goes beyond the limit.

What happens *during* a run is stated with a watch: `watched beyond r` is `r` as long as it starts
within the limit, and the arbitrary run `beyond` otherwise. Evaluation with a watch at every node is
the same as evaluation without, whatever `beyond` is, so that no node is ever evaluated beyond the
limit.

* `depthLaw`: the law of the count, with a watch on the right-hand side.
* `Session.Reachable`: the machines of a session.
* `depth_restored`: the statement in all its parts.
-/

namespace Logo

variable {α β : Type}

/-- The outcome, if there is one, has this many open calls. -/
def Outcome.HasDepth (depth : Nat) : Outcome α → Prop
  | .done _ after => after.depth = depth
  | .failed _ after => after.depth = depth
  | .exhausted => True

/-- The run, unless it starts with more open calls than are allowed; then it is `beyond`. -/
def Run.watched (beyond r : Run α) : Run α := fun settings m =>
  if m.depth ≤ settings.maxDepth then r settings m else beyond settings m

/-- Evaluation with a watch at every node. -/
def evalWatched (beyond : Run Flow) : (bound : Nat) → Evaluator
  | 0 => fun _ _ => Run.giveUp
  | bound + 1 => fun node frame =>
    Run.watched beyond (Evaluator.step (evalWatched beyond bound) node frame)

/-! ## The law of the count -/

/-- The first run keeps the number of open calls, and the second one does the same as the first if
it starts within the limit. -/
def Run.KeepsDepth (r s : Run α) : Prop :=
  ∀ settings m, (r settings m).HasDepth m.depth ∧
    (m.depth ≤ settings.maxDepth → s settings m = r settings m)

namespace Run.KeepsDepth

lemma refl {r : Run α} (h : ∀ settings m, (r settings m).HasDepth m.depth) : KeepsDepth r r :=
  fun settings m => ⟨h settings m, fun _ => rfl⟩

lemma bind {r s : Run α} {next next' : α → Run β} (h : KeepsDepth r s)
    (hnext : ∀ a, KeepsDepth (next a) (next' a)) : KeepsDepth (r >>= next) (s >>= next') := by
  intro settings m
  obtain ⟨hdepth, hsame⟩ := h settings m
  show (andThen r next settings m).HasDepth _ ∧
    (_ → andThen s next' settings m = andThen r next settings m)
  unfold andThen
  cases hr : r settings m with
  | done a after =>
    rw [hr] at hdepth hsame
    obtain ⟨hdepth', hsame'⟩ := hnext a settings after
    rw [show after.depth = m.depth from hdepth] at hdepth' hsame'
    refine ⟨hdepth', fun hle => ?_⟩
    simp only [hsame hle]
    exact hsame' hle
  | failed e after =>
    rw [hr] at hdepth hsame
    exact ⟨hdepth, fun hle => by simp only [hsame hle]⟩
  | exhausted =>
    rw [hr] at hsame
    exact ⟨trivial, fun hle => by simp only [hsame hle]⟩

/-- A body that is entered and left. At the start the limit is not reached yet, so that the body
runs within it, and at the end its own call is still open. -/
lemma nested {body body' : Run Flow} (h : KeepsDepth body body') (line : Nat) :
    KeepsDepth (Run.nested line body) (Run.nested line body') := by
  intro settings m
  unfold Run.nested
  by_cases hlimit : settings.maxDepth ≤ m.depth
  · simp only [if_pos hlimit]
    exact ⟨rfl, fun _ => trivial⟩
  · obtain ⟨hdepth, hsame⟩ := h settings { m with depth := m.depth + 1 }
    have hle : m.depth + 1 ≤ settings.maxDepth := by omega
    simp only [if_neg hlimit, hsame hle, implies_true, and_true]
    cases hbody : body settings { m with depth := m.depth + 1 } with
    | done flow after =>
      rw [hbody] at hdepth
      exact congrArg (· - 1) hdepth
    | failed e after =>
      rw [hbody] at hdepth
      exact congrArg (· - 1) hdepth
    | exhausted => trivial

end Run.KeepsDepth

lemma Run.hasDepth_ask (question : Machine → Except RuntimeError α) (settings : Settings)
    (m : Machine) : (Run.ask question settings m).HasDepth m.depth := by
  unfold Run.ask
  cases question m <;> rfl

lemma Run.hasDepth_write (text : String) (line : Nat) (settings : Settings) (m : Machine) :
    (Run.write text line settings m).HasDepth m.depth := by
  unfold Run.write
  cases settings.outputLimit with
  | none => rfl
  | some limit =>
    dsimp only
    split
    · rfl
    · rfl

lemma Run.hasDepth_readProgram (text : String) (settings : Settings) (m : Machine) :
    (Run.readProgram text settings m).HasDepth m.depth := by
  unfold Run.readProgram
  split
  · rfl
  · rfl

open Run in
/-- The number of open calls is kept, and a watch on the right-hand side sees nothing. -/
def depthLaw : Run.Law where
  lines := id
  Rel := KeepsDepth
  give _ := .refl fun _ _ => rfl
  fail h _ := by
    rw [RuntimeError.mapLine_id, RuntimeError.mapLine_id] at h
    subst h
    exact .refl fun _ _ => rfl
  giveUp := .refl fun _ _ => trivial
  andThen := KeepsDepth.bind
  settings h := fun settings m => h settings settings rfl rfl settings m
  resolve := by
    rintro _ _ _ name l _ rfl h
    exact (KeepsDepth.refl (hasDepth_ask _)).bind fun c => h c c rfl
  leave := by
    rintro name flow l _ rfl
    exact .refl (hasDepth_ask _)
  readVariable := by
    rintro frame name l _ rfl
    exact .refl (hasDepth_ask _)
  setVariable _ _ _ := .refl fun _ _ => rfl
  write := by
    rintro text l _ rfl
    exact .refl (hasDepth_write text l)
  define h := by
    rw [Procedure.mapLines_id, Procedure.mapLines_id] at h
    subst h
    exact .refl fun _ _ => rfl
  readProgram text := .refl (hasDepth_readProgram text)
  openFrame _ _ := .refl fun _ _ => rfl
  nested := by
    rintro l _ body body' rfl h
    exact h.nested l

/-- Evaluation keeps the count, and a watch makes no difference to it. -/
lemma keepsDepth_evalWatched (beyond : Run Flow) (bound : Nat) :
    depthLaw.Evaluators (eval bound) (evalWatched beyond bound) := by
  induction bound with
  | zero => exact fun _ _ _ _ => depthLaw.giveUp
  | succ bound ih =>
    -- the step starts within the limit, where the watch lets it pass
    intro node node' frame hnode settings m
    obtain ⟨hdepth, hsame⟩ := Run.Law.step ih node node' frame hnode settings m
    exact ⟨hdepth, fun hle => (if_pos hle).trans (hsame hle)⟩

/-- Bodies only run within the limit. -/
lemma nested_watched (line : Nat) (beyond body : Run Flow) :
    Run.nested line (Run.watched beyond body) = Run.nested line body := by
  funext settings m
  unfold Run.nested
  by_cases hlimit : settings.maxDepth ≤ m.depth
  · rw [if_pos hlimit, if_pos hlimit]
  · have hwatched : Run.watched beyond body settings { m with depth := m.depth + 1 } =
        body settings { m with depth := m.depth + 1 } := if_pos (Nat.lt_of_not_le hlimit)
    rw [if_neg hlimit, if_neg hlimit, hwatched]

/-! ## Sessions -/

/-- What a session can be asked to do next. -/
inductive Session.Step where
  /-- Run a text. -/
  | run (source : String)
  /-- Run a text and give the values of its instructions. -/
  | evaluate (source : String)
  /-- Call what a name stands for. -/
  | call (name : String) (values : List Value) (line : Nat)
  /-- Enter evaluation directly. -/
  | enter (entry : Entry)
  /-- Bind a variable. -/
  | set (frame : FrameId) (name : String) (v : Value)
  /-- Look at the machine. -/
  | ask (question : Machine → Except RuntimeError Unit)
  /-- Write a text. -/
  | write (text : String) (line : Nat)

/-- Does what the step asks for. What it gives is left out. -/
def Session.Step.perform (bound : Nat) : Session.Step → Run Unit
  | run source => Session.run bound source
  | evaluate source => do let _ ← Session.evaluate bound source
  | call name values line => do let _ ← Session.call bound name values line
  | enter entry => do let _ ← entry.run (eval bound)
  | set frame name v => Run.setVariable frame name v
  | ask question => Run.ask question
  | write text line => Run.write text line

/-- The machines that a session can come to, with steps that succeed or fail, each with settings of
its own. -/
inductive Session.Reachable : Machine → Prop
  | initial : Reachable .initial
  | done {m after : Machine} (step : Step) (bound : Nat) (settings : Settings) : Reachable m →
      step.perform bound settings m = .done () after → Reachable after
  | failed {m after : Machine} {e : RuntimeError} (step : Step) (bound : Nat)
      (settings : Settings) : Reachable m → step.perform bound settings m = .failed e after →
      Reachable after

/-- A step of a session keeps the number of open calls. -/
lemma Session.Step.keepsDepth (bound : Nat) (step : Session.Step) :
    depthLaw.Rel (step.perform bound) (step.perform bound) := by
  have heval := depthLaw.eval bound
  cases step with
  | run source => exact Run.Law.sessionRun heval source
  | evaluate source =>
    exact depthLaw.andThen (Run.Law.sessionEvaluate heval source) fun _ => depthLaw.give ()
  | call name values line =>
    refine depthLaw.andThen ?_ fun _ => depthLaw.give ()
    exact depthLaw.andThen (depthLaw.openFrame _ _) fun frame => heval _ _ frame rfl
  | enter entry => exact depthLaw.andThen (Run.Law.entry heval entry) fun _ => depthLaw.give ()
  | set frame name v => exact depthLaw.setVariable frame name v
  | ask question => exact .refl (Run.hasDepth_ask question)
  | write text line => exact depthLaw.write text rfl

/-- No call is open between the steps of a session. -/
lemma Session.Reachable.depth_eq {m : Machine} (h : Session.Reachable m) : m.depth = 0 := by
  induction h with
  | initial => rfl
  | @done m after step bound settings _ hstep ih =>
    have hdepth := (step.keepsDepth bound settings m).1
    rw [hstep, ih] at hdepth
    exact hdepth
  | @failed m after e step bound settings _ hstep ih =>
    have hdepth := (step.keepsDepth bound settings m).1
    rw [hstep, ih] at hdepth
    exact hdepth

/-! ## Leaving a body -/

/-- The body of a procedure, with its inputs bound. -/
def Evaluator.body (self : Evaluator) (p : Procedure) (values : List Value) : Run Flow := do
  let frame ← Run.openFrame p.frame (Scopes.bindInputs .empty p.params values)
  self.execute frame false p.body

/-- One more call is open while `body` runs. If none is open when it ends, `stuck` comes next. -/
def Run.nestedOr (stuck : Run Flow) (line : Nat) (body : Run Flow) : Run Flow := fun settings m =>
  if settings.maxDepth ≤ m.depth then .failed (.recursionLimit settings.maxDepth line) m
  else
    match body settings { m with depth := m.depth + 1 } with
    | .done flow after =>
      if after.depth = 0 then stuck settings after
      else .done flow { after with depth := after.depth - 1 }
    | .failed error after =>
      if after.depth = 0 then stuck settings after
      else .failed error { after with depth := after.depth - 1 }
    | .exhausted => .exhausted

/-- A body that keeps the number of open calls has a call to close. -/
lemma nestedOr_eq (stuck : Run Flow) (line : Nat) {body : Run Flow}
    (h : ∀ settings m, (body settings m).HasDepth m.depth) :
    Run.nestedOr stuck line body = Run.nested line body := by
  funext settings m
  unfold Run.nestedOr Run.nested
  split
  · rfl
  · have hdepth := h settings { m with depth := m.depth + 1 }
    have hopen : ∀ {after : Machine}, after.depth = m.depth + 1 → after.depth ≠ 0 := by
      intro after hafter
      omega
    cases hbody : body settings { m with depth := m.depth + 1 } with
    | done flow after =>
      rw [hbody] at hdepth
      exact if_neg (hopen hdepth)
    | failed e after =>
      rw [hbody] at hdepth
      exact if_neg (hopen hdepth)
    | exhausted => rfl

lemma callProcedure_nestedOr (stuck : Run Flow) (bound : Nat) (p : Procedure) (values : List Value)
    (line : Nat) : (eval bound).callProcedure p values line =
      Run.nestedOr stuck line ((eval bound).body p values) >>= fun flow =>
        Run.give flow.ofBody := by
  have hbody : depthLaw.Rel ((eval bound).body p values) ((eval bound).body p values) :=
    depthLaw.andThen (depthLaw.openFrame _ _) fun frame =>
      Run.Law.execute (depthLaw.eval bound) frame false rfl
  rw [nestedOr_eq stuck line fun settings m => (hbody settings m).1]
  rfl

/-- **The count of open calls is balanced.**
* However evaluation is entered and however it ends, as many calls are open after it as before.
* From a start within the limit, no node is evaluated and no body is entered beyond the limit: it
  does not matter what evaluation would do there.
* When the body of a procedure ends, there is a call to close: it does not matter what would be done
  if there were none.
* Between the steps of a session no procedure is running. -/
theorem depth_restored :
    (∀ (entry : Entry) bound settings (m : Machine),
      (entry.run (eval bound) settings m).HasDepth m.depth) ∧
    (∀ (entry : Entry) bound beyond settings (m : Machine), m.depth ≤ settings.maxDepth →
      entry.run (evalWatched beyond bound) settings m = entry.run (eval bound) settings m) ∧
    (∀ line beyond body, Run.nested line (Run.watched beyond body) = Run.nested line body) ∧
    (∀ stuck bound p values line, (eval bound).callProcedure p values line =
      Run.nestedOr stuck line ((eval bound).body p values) >>= fun flow =>
        Run.give flow.ofBody) ∧
    (∀ m, Session.Reachable m → m.inProcedure = false) := by
  refine ⟨?_, ?_, nested_watched, callProcedure_nestedOr, ?_⟩
  · intro entry bound settings m
    exact (Run.Law.entry (depthLaw.eval bound) entry settings m).1
  · intro entry bound beyond settings m hle
    exact (Run.Law.entry (keepsDepth_evalWatched beyond bound) entry settings m).2 hle
  · intro m h
    simp [Machine.inProcedure, h.depth_eq]

/-- A procedure that calls itself is stopped at the limit, and no call is open afterwards. -/
theorem depth_restored_at_limit :
    let p : Procedure := ⟨"f", [], [.call "f" [] 1], 0⟩
    let vocabulary := (Vocabulary.standard.declare "f" (.fixed 0)).assign "f" (.procedure p)
    let m : Machine := { Machine.initial with vocabulary := vocabulary }
    let settings : Settings := { Settings.standard with maxDepth := 1 }
    ∃ after, eval 3 (.call "f" [] 1) 0 settings m = .failed (.recursionLimit 1 1) after ∧
      after.depth = 0 ∧ after.inProcedure = false ∧
      ∀ beyond, evalWatched beyond 3 (.call "f" [] 1) 0 settings m =
        .failed (.recursionLimit 1 1) after := by
  intro p vocabulary m settings
  let call : Entry := .node (.call "f" [] 1) 0
  have hm : Session.Reachable m :=
    .done (.enter (.node (.definition "f" [] [.call "f" [] 1] 1) 0)) 1 settings .initial rfl
  obtain ⟨after, hcall⟩ : ∃ after, call.run (eval 3) settings m =
      .failed (.recursionLimit 1 1) after := ⟨_, rfl⟩
  have hafter : Session.Reachable after := by
    refine .failed (.enter call) 3 settings hm (e := .recursionLimit 1 1) ?_
    simp only [Session.Step.perform, bind, Run.andThen, hcall]
  have hdepth := depth_restored.1 call 3 settings m
  rw [hcall] at hdepth
  refine ⟨after, hcall, hdepth, depth_restored.2.2.2.2 after hafter, fun beyond => ?_⟩
  exact (depth_restored.2.1 call 3 beyond settings m (Nat.zero_le 1)).trans hcall

end Logo
