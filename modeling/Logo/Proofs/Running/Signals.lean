import Logo.Proofs.Running.Contract

/-!
# Leaving a procedure

`output` and `stop` lead to a signal: the wish to leave the procedure that they stand in. A signal
travels up through instructions, inputs, branches, loops and loaded files, until the call of the
procedure takes it for the value of the call. It can only arise where a procedure is running. So
none is ever left over outside of all procedures, and what a session keeps ready for such a case is
never used.

* `signalContract`: a signal is only led to while a procedure is running.
* `exists_of_inputs`: the signal of a call is that of one of its inputs.
* `signals_stay_inside`: the statement in all its parts.
-/

namespace Logo

/-- The flow is a value, not a wish to leave the procedure. -/
def Flow.IsValue (flow : Flow) : Prop := ∃ v, flow = .value v

/-- A signal is only led to while a procedure is running. -/
def signalContract : Run.Contract where
  Inv _ _ := True
  Fit _ := True
  Allowed flow m := flow.IsValue ∨ m.inProcedure = true
  read := Run.readProgram
  lenient := False
  fit_part _ _ := trivial
  fit_body _ _ _ _ := trivial
  allowed_value v _ := .inl ⟨v, rfl⟩
  allowed_leave _ _ hin := .inr hin
  depth _ _ _ := trivial
  write _ _ _ := trivial
  setVariable _ _ _ _ := trivial
  openFrame _ _ _ _ := trivial
  leaveFrame _ _ := trivial
  define _ _ _ := trivial
  readProgram _ _ := .refl fun settings _ _ =>
    Run.upholds_readProgram settings trivial fun _ _ _ _ _ => trivial

/-- Outside of all procedures, evaluation leads to values only. -/
lemma isValue_of_entry (entry : Entry) {bound : Nat} {settings : Settings} {m after : Machine}
    {flow : Flow} (hdepth : m.depth = 0)
    (hrun : entry.run (eval bound) settings m = .done flow after) : flow.IsValue := by
  have hentry := Run.Contract.entry (signalContract.eval bound) rfl entry fun _ _ => trivial
  have hup := (hentry.strict id settings (m := m) trivial).2
  rw [hrun] at hup
  -- as many calls are open at the end as at the start
  have hafter := (Run.Law.entry (depthLaw.eval bound) entry settings m).1
  rw [hrun, hdepth] at hafter
  rcases hup.2 with hvalue | hin
  · exact hvalue
  · simp [Machine.inProcedure, show after.depth = 0 from hafter] at hin

/-! ## What a session keeps ready -/

namespace Session

/-- The value of a flow outside of all procedures. A signal, if there were one, would lead to
`stray`. -/
def topLevelOr (stray : Flow → Run Value) : Flow → Run Value
  | .value v => Run.give v
  | flow => stray flow

/-- Runs a text, with `stray` for a signal that is left over. -/
def runOr (stray : Flow → Run Value) (bound : Nat) (source : String) : Run Unit := do
  let flow ← (eval bound).runText source Machine.globalFrame false
  let _ ← topLevelOr stray flow

/-- Gives the values of a text, with `stray` for a signal that is left over. -/
def evaluateOr (stray : Flow → Run Value) (bound : Nat) (source : String) : Run Value := do
  let program ← Run.readProgram source
  let flow ← (eval bound).collect Machine.globalFrame [] program
  topLevelOr stray flow

end Session

/-- What comes after a run only matters for the flows that the run leads to. -/
lemma Run.andThen_congr_of_isValue {α : Type} {r : Run Flow} {next next' : Flow → Run α}
    {settings : Settings} {m : Machine}
    (hvalue : ∀ flow after, r settings m = .done flow after → flow.IsValue)
    (hnext : ∀ v, next (.value v) = next' (.value v)) :
    (r >>= next) settings m = (r >>= next') settings m := by
  show Run.andThen r next settings m = Run.andThen r next' settings m
  unfold Run.andThen
  cases hr : r settings m with
  | done flow after =>
    obtain ⟨v, rfl⟩ := hvalue flow after hr
    dsimp only
    rw [hnext]
  | failed e after => rfl
  | exhausted => rfl

lemma Session.runOr_eq (stray : Flow → Run Value) (bound : Nat) (source : String)
    (settings : Settings) {m : Machine} (hdepth : m.depth = 0) :
    Session.runOr stray bound source settings m = Session.run bound source settings m :=
  Run.andThen_congr_of_isValue
    (fun _ _ hr => isValue_of_entry (.text source Machine.globalFrame false) hdepth hr)
    fun _ => rfl

lemma Session.evaluateOr_eq (stray : Flow → Run Value) (bound : Nat) (source : String)
    (settings : Settings) {m : Machine} (hdepth : m.depth = 0) :
    Session.evaluateOr stray bound source settings m =
      Session.evaluate bound source settings m := by
  show Run.andThen (Run.readProgram source) _ settings m =
    Run.andThen (Run.readProgram source) _ settings m
  unfold Run.andThen
  have hread := Run.hasDepth_readProgram source settings m
  cases hr : Run.readProgram source settings m with
  | done program after =>
    rw [hr, hdepth] at hread
    exact Run.andThen_congr_of_isValue
      (fun _ _ hrun => isValue_of_entry (.collect program Machine.globalFrame) hread hrun)
      fun _ => rfl
  | failed e after => rfl
  | exhausted => rfl

/-! ## Calls -/

/-- A call of a procedure gives a value, whatever its body leads to. -/
lemma isValue_of_callProcedure {self : Evaluator} {p : Procedure} {values : List Value} {line : Nat}
    {settings : Settings} {m after : Machine} {flow : Flow}
    (h : self.callProcedure p values line settings m = .done flow after) : flow.IsValue := by
  unfold Evaluator.callProcedure at h
  simp only [bind, Run.andThen] at h
  split at h
  · next body _ _ =>
    obtain ⟨rfl, -⟩ := Outcome.done.inj h
    cases body with
    | value v => exact ⟨.absent, rfl⟩
    | output v => exact ⟨v, rfl⟩
    | stop => exact ⟨.absent, rfl⟩
  · simp at h
  · simp at h

/-- A signal as an input is what the node of the input leads to. -/
lemma done_of_input {self : Evaluator} {consumer : String} {frame : FrameId} {node : Node}
    {settings : Settings} {m after : Machine} {flow : Flow}
    (h : self.input consumer frame node settings m = .done flow after) :
    self node frame settings m = .done flow after := by
  rw [Run.input_eq] at h
  simp only [bind, Run.andThen] at h
  cases hnode : self node frame settings m with
  | done flow' after' =>
    rw [hnode] at h
    rcases flow' with (_ | _ | _ | _ | _) | _ | _
    case value.absent =>
      -- only a call has to give a value
      cases hcalled : node.called? with
      | none =>
        simp only [hcalled] at h
        exact h
      | some name => simp [hcalled, Run.fail] at h
    all_goals exact h
  | failed e after' => simp [hnode] at h
  | exhausted => simp [hnode] at h

/-- What inputs lead to is what is done with their values, or a signal that one of them leads to. -/
lemma exists_of_inputs {self : Evaluator} {consumer : String} {frame : FrameId} {nodes : List Node}
    {next : List Value → Run Flow} {settings : Settings} {m after : Machine} {flow : Flow}
    (h : self.inputs consumer frame nodes next settings m = .done flow after) :
    (∃ values before, next values settings before = .done flow after) ∨
      ∃ node ∈ nodes, ∃ before, self node frame settings before = .done flow after := by
  induction nodes generalizing next m with
  | nil => exact .inl ⟨[], m, h⟩
  | cons node nodes ih =>
    simp only [Evaluator.inputs, Run.onValue] at h
    split at h
    · rcases ih h with ⟨values, before, hnext⟩ | ⟨other, hmem, before, hother⟩
      · exact .inl ⟨_, before, hnext⟩
      · exact .inr ⟨other, List.mem_cons_of_mem node hmem, before, hother⟩
    · exact .inr ⟨node, List.mem_cons_self, m, done_of_input h⟩

/-- A call of a procedure that a program has defined gives a value, unless one of its inputs leads to
a signal before the procedure is entered. -/
lemma isValue_or_input_of_call {bound : Nat} {name : String} {p : Procedure} {nodes : List Node}
    {line : Nat} {frame : FrameId} {settings : Settings} {m after : Machine} {flow : Flow}
    (hname : m.vocabulary.callable? name = some (.procedure p))
    (h : eval (bound + 1) (.call name nodes line) frame settings m = .done flow after) :
    flow.IsValue ∨
      ∃ node ∈ nodes, ∃ before, eval bound node frame settings before = .done flow after := by
  have hcall : (eval bound).inputs name frame nodes
      (fun values => (eval bound).callProcedure p values line) settings m = .done flow after :=
    ((eval bound).call_of_procedure nodes frame line settings hname).symm.trans h
  rcases exists_of_inputs hcall with ⟨values, before, hbody⟩ | hinput
  · exact .inl (isValue_of_callProcedure hbody)
  · exact .inr hinput

/-- **Signals stay inside of procedures.**
* Outside of all procedures, every way into evaluation leads to a value or to an error.
* What a session does with a signal that is left over does not matter: there is none.
* With any number of open calls, the call of a procedure gives a value or ends with an error.
* If the node of such a call leads to something else, then one of its inputs has led to it, and the
  procedure has not been entered. -/
theorem signals_stay_inside :
    (∀ (entry : Entry) bound settings (m after : Machine) flow, m.depth = 0 →
      entry.run (eval bound) settings m = .done flow after → flow.IsValue) ∧
    (∀ stray bound source settings (m : Machine), m.depth = 0 →
      Session.runOr stray bound source settings m = Session.run bound source settings m ∧
      Session.evaluateOr stray bound source settings m =
        Session.evaluate bound source settings m) ∧
    (∀ bound p values line settings m after flow,
      (eval bound).callProcedure p values line settings m = .done flow after → flow.IsValue) ∧
    (∀ bound name p nodes line frame settings (m after : Machine) flow,
      m.vocabulary.callable? name = some (.procedure p) →
      eval (bound + 1) (.call name nodes line) frame settings m = .done flow after →
      flow.IsValue ∨
        ∃ node ∈ nodes, ∃ before, eval bound node frame settings before = .done flow after) := by
  refine ⟨?_, ?_, ?_, ?_⟩
  · intro entry bound settings m after flow hdepth hrun
    exact isValue_of_entry entry hdepth hrun
  · intro stray bound source settings m hdepth
    exact ⟨Session.runOr_eq stray bound source settings hdepth,
      Session.evaluateOr_eq stray bound source settings hdepth⟩
  · intro bound p values line settings m after flow hcall
    exact isValue_of_callProcedure hcall
  · intro bound name p nodes line frame settings m after flow hname hcall
    exact isValue_or_input_of_call hname hcall

/-- A procedure that ends with `output` gives a value to its caller, with no call open and with one
open, and `output` as an input of its call is a signal of the input, not of the procedure. -/
theorem signals_stay_inside_of_output :
    let p : Procedure := ⟨"f", ["x"], [.call "output" [.reference "x" 1] 1], 0⟩
    let m : Machine := { Machine.initial with vocabulary := Vocabulary.standard.define p }
    let nested : Machine := { m with depth := 1 }
    let inner : Node := .call "output" [.word "a" 1] 1
    (∃ flow after, eval 5 (.call "f" [.word "a" 1] 1) 0 .standard m = .done flow after ∧
      flow.IsValue) ∧
    (∃ flow after, (eval 4).callProcedure p [.word "a"] 1 .standard nested = .done flow after ∧
      flow.IsValue) ∧
    (∃ flow after, eval 5 (.call "f" [inner] 1) 0 .standard nested = .done flow after ∧
      ¬ flow.IsValue ∧
      ∃ node ∈ [inner], ∃ before, eval 4 node 0 .standard before = .done flow after) ∧
    ∀ stray, Session.evaluateOr stray 9 "f \"a" .standard m =
      Session.evaluate 9 "f \"a" .standard m := by
  intro p m nested inner
  refine ⟨?_, ?_, ?_, fun stray => ?_⟩
  · have hrun : (eval 5 (.call "f" [.word "a" 1] 1) 0 .standard m).gives (fun _ => true) := by
      decide +kernel
    obtain ⟨flow, after, h, -⟩ := Outcome.exists_of_gives hrun
    exact ⟨flow, after, h, signals_stay_inside.1 (.node _ 0) 5 .standard m after flow rfl h⟩
  · have hrun : ((eval 4).callProcedure p [.word "a"] 1 .standard nested).gives
        (fun _ => true) := by decide +kernel
    obtain ⟨flow, after, h, -⟩ := Outcome.exists_of_gives hrun
    exact ⟨flow, after, h, signals_stay_inside.2.2.1 4 p _ 1 .standard nested after flow h⟩
  · have hrun : (eval 5 (.call "f" [inner] 1) 0 .standard nested).gives
        (fun flow => !flow matches .value _) := by decide +kernel
    obtain ⟨flow, after, h, hsignal⟩ := Outcome.exists_of_gives hrun
    have hnot : ¬ flow.IsValue := by
      rintro ⟨v, rfl⟩
      cases hsignal
    have hname : nested.vocabulary.callable? "f" = some (.procedure p) := by
      rw [Vocabulary.callable?_define, if_pos rfl]
    have hcall := signals_stay_inside.2.2.2 4 "f" p [inner] 1 0 .standard nested after flow hname h
    exact ⟨flow, after, h, hnot, hcall.resolve_left hnot⟩
  · exact (signals_stay_inside.2.1 stray 9 _ .standard m rfl).2

end Logo
