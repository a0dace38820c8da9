import Logo.Proofs.Running.Limit

/-!
# Running a text and evaluating it

A session can run a text, all instructions of which have to be commands, or evaluate it and collect
the values of its instructions. The two go through the instructions side by side up to the first one
that leaves a value over. There the run ends with an error, while the evaluation keeps the value and
goes on. If no value is left over, they do the same.

* `Evaluator.LeavesOver`: which instruction is the first to leave a value over, and where.
* `Evaluator.agree_or_leavesOver`: the two loops over instructions.
* `Evaluator.execute_concat`: keeping the value of the last instruction is carrying out the others
  and then evaluating the last one.
* `run_agrees_with_evaluate`: the statement for the texts of a session.
-/

namespace Logo

open Session (atTopLevel)

/-! ## The first value that is left over -/

namespace Evaluator

variable (self : Evaluator) (frame : FrameId) (settings : Settings)

/-- Carrying out a program on a machine, all instructions before `node` are commands, and `node`
gives the value `v`. After it the instructions `rest` are left and the machine is `after`. -/
inductive LeavesOver (node : Node) (v : Value) (rest : Program) (after : Machine) :
    Program → Machine → Prop
  | here {m : Machine} : self node frame settings m = .done (.value v) after →
      v.isAbsent = false → LeavesOver node v rest after (node :: rest) m
  | later {command : Node} {program : Program} {m next : Machine} :
      self command frame settings m = .done .nothing next →
      LeavesOver node v rest after program next →
      LeavesOver node v rest after (command :: program) m

/-- The outcomes of carrying out a program and of collecting its values agree: all instructions are
commands and there are no values, or neither comes to its end. -/
inductive Agree : Outcome Flow → Outcome Flow → Prop
  | commands (after : Machine) : Agree (.done .nothing after) (.done (.value (.list [])) after)
  | output (v : Value) (after : Machine) : Agree (.done (.output v) after) (.done (.output v) after)
  | stop (after : Machine) : Agree (.done .stop after) (.done .stop after)
  | failed (e : RuntimeError) (after : Machine) : Agree (.failed e after) (.failed e after)
  | exhausted : Agree .exhausted .exhausted

variable {self frame settings} {node : Node} {v : Value} {rest program : Program}
  {m after : Machine}

lemma eq_absent_of_isAbsent {v : Value} (h : v.isAbsent = true) : v = .absent := by
  cases v with
  | absent => rfl
  | _ => cases h

/-- An instruction that gives a value, and the instructions after it. -/
lemma execute_cons_of_value (h : self node frame settings m = .done (.value v) after) :
    self.execute frame false (node :: rest) settings m =
      (if v.isAbsent then self.execute frame false rest
        else Run.fail (.unconsumedValue v.display node.line)) settings after := by
  simp only [execute, Run.onValue, h]
  rfl

lemma collect_cons_of_value (values : List Value)
    (h : self node frame settings m = .done (.value v) after) :
    self.collect frame values (node :: rest) settings m =
      self.collect frame (if v.isAbsent then values else v :: values) rest settings after := by
  simp only [collect, Run.onValue, h]

/-- Carrying out the program ends at the value that is left over. -/
lemma LeavesOver.execute_eq
    (h : LeavesOver self frame settings node v rest after program m) :
    self.execute frame false program settings m =
      .failed (.unconsumedValue v.display node.line) after := by
  induction h with
  | here hnode hv =>
    rw [execute_cons_of_value hnode, if_neg (by simp [hv])]
    rfl
  | later hcommand _ ih =>
    rw [execute_cons_of_value hcommand]
    exact ih

/-- Collecting the values keeps the value that is left over and goes on. -/
lemma LeavesOver.collect_eq
    (h : LeavesOver self frame settings node v rest after program m) :
    self.collect frame [] program settings m = self.collect frame [v] rest settings after := by
  induction h with
  | here hnode hv => rw [collect_cons_of_value [] hnode, if_neg (by simp [hv])]
  | later hcommand _ ih =>
    rw [collect_cons_of_value [] hcommand]
    exact ih

/-- **The two loops over instructions** agree, unless a value is left over. -/
theorem agree_or_leavesOver (self : Evaluator) (frame : FrameId) (settings : Settings)
    (program : Program) (m : Machine) :
    Agree (self.execute frame false program settings m) (self.collect frame [] program settings m) ∨
      ∃ node v rest after, LeavesOver self frame settings node v rest after program m := by
  induction program generalizing m with
  | nil => exact .inl (.commands m)
  | cons node rest ih =>
    cases hnode : self node frame settings m with
    | done flow next =>
      cases flow with
      | value v =>
        rw [execute_cons_of_value hnode, collect_cons_of_value [] hnode]
        cases hv : v.isAbsent with
        | true =>
          obtain rfl := eq_absent_of_isAbsent hv
          refine (ih next).imp id ?_
          rintro ⟨node', v', rest', after, h⟩
          exact ⟨node', v', rest', after, .later hnode h⟩
        | false => exact .inr ⟨node, v, rest, next, .here hnode hv⟩
      | output v =>
        simp only [execute, collect, Run.onValue, hnode]
        exact .inl (.output v next)
      | stop =>
        simp only [execute, collect, Run.onValue, hnode]
        exact .inl (.stop next)
    | failed e next =>
      simp only [execute, collect, Run.onValue, hnode]
      exact .inl (.failed e next)
    | exhausted =>
      simp only [execute, collect, Run.onValue, hnode]
      exact .inl .exhausted

/-- What is collected is a list that starts with the values that have been collected before. -/
lemma exists_of_collect (values : List Value) (program : Program) {w : Value}
    (h : self.collect frame values program settings m = .done (.value w) after) :
    ∃ more, w = .list (values.reverse ++ more) := by
  induction program generalizing values m with
  | nil =>
    obtain ⟨rfl, -⟩ : .list values.reverse = w ∧ m = after := by
      simpa [collect, Run.give] using h
    exact ⟨[], by rw [List.append_nil]⟩
  | cons node rest ih =>
    cases hnode : self node frame settings m with
    | done flow next =>
      cases flow with
      | value v =>
        rw [collect_cons_of_value values hnode] at h
        obtain ⟨more, rfl⟩ := ih _ h
        split
        · exact ⟨more, rfl⟩
        · exact ⟨v :: more, by simp⟩
      | output v => simp [collect, Run.onValue, hnode] at h
      | stop => simp [collect, Run.onValue, hnode] at h
    | failed e next => simp [collect, Run.onValue, hnode] at h
    | exhausted => simp [collect, Run.onValue, hnode] at h

/-! ## The value of the last instruction -/

lemma onValue_give (r : Run Flow) : Run.onValue r (fun v => Run.give (.value v)) = r := by
  funext settings m
  unfold Run.onValue
  cases r settings m with
  | done flow after => cases flow <;> rfl
  | failed e after => rfl
  | exhausted => rfl

lemma onValue_onValue (r : Run Flow) (next last : Value → Run Flow) :
    Run.onValue (Run.onValue r next) last = Run.onValue r fun v => Run.onValue (next v) last := by
  funext settings m
  simp only [Run.onValue]
  cases r settings m with
  | done flow after => cases flow <;> rfl
  | failed e after => rfl
  | exhausted => rfl

/-- Keeping the value of the last instruction: the others are carried out, and if that comes to its
end, the last one is evaluated. -/
theorem execute_concat (self : Evaluator) (frame : FrameId) (body : Program) (last : Node) :
    self.execute frame true (body ++ [last]) =
      Run.onValue (self.execute frame false body) fun _ => self last frame := by
  induction body with
  | nil => exact onValue_give (self last frame)
  | cons node rest ih =>
    rw [List.cons_append, execute, execute, onValue_onValue]
    refine congrArg (Run.onValue (self node frame)) (funext fun v => ?_)
    -- something comes after this instruction, so that its value is not kept on either side
    have hlast : (true && (rest ++ [last]).isEmpty) = false := by simp
    rw [hlast, Bool.false_and, if_neg Bool.false_ne_true, if_neg Bool.false_ne_true]
    split
    · exact ih
    · rfl

end Evaluator

/-! ## Sessions -/

namespace Session

/-- The evaluation of the instructions after one that has left the value `v` over. -/
def evaluateRest (bound : Nat) (v : Value) (rest : Program) : Run Value := do
  let flow ← (eval bound).collect Machine.globalFrame [v] rest
  atTopLevel flow

/-- The text is read, and of its instructions `node` is the first that leaves a value over, which is
`v`, on the machine `mid`. The evaluation of the text goes on there and ends with `o`. -/
def LeavesOver (source : String) (settings : Settings) (m : Machine) (node : Node) (v : Value)
    (rest : Program) (mid : Machine) (o : Outcome Value) : Prop :=
  ∃ bound program start, Run.readProgram source settings m = .done program start ∧
    (eval bound).LeavesOver Machine.globalFrame settings node v rest mid program start ∧
    evaluateRest bound v rest settings mid = o

/-- How running a text and evaluating it compare, if both start on the machine `m`. -/
structure Agrees (source : String) (settings : Settings) (m : Machine) : Prop where
  /-- The run succeeds exactly if there are no values, and then both end on the same machine, with
  the same names, variables and writing. -/
  done : ∀ after, Run.Ends (fun bound => run bound source) settings m (.done () after) ↔
    Run.Ends (fun bound => evaluate bound source) settings m (.done (.list []) after)
  /-- The evaluation gives a list. If it is not empty, the run ends at its first member, which the
  first instruction with a value has left over. All that it has written the evaluation writes,
  too. -/
  leftOver : ∀ w after, Run.Ends (fun bound => evaluate bound source) settings m (.done w after) →
    w = .list [] ∨ ∃ v vs node rest mid, w = .list (v :: vs) ∧
      LeavesOver source settings m node v rest mid (.done w after) ∧
      Run.Ends (fun bound => run bound source) settings m
        (.failed (.unconsumedValue v.display node.line) mid) ∧
      ∀ count, ∃ more, after.transcript.textAfter count = mid.transcript.textAfter count ++ more
  /-- If the evaluation fails, the run fails in the same way, unless an instruction has left a value
  over before the one that fails. -/
  failed : ∀ e after, Run.Ends (fun bound => evaluate bound source) settings m (.failed e after) →
    Run.Ends (fun bound => run bound source) settings m (.failed e after) ∨
      ∃ node v rest mid, LeavesOver source settings m node v rest mid (.failed e after) ∧
        Run.Ends (fun bound => run bound source) settings m
          (.failed (.unconsumedValue v.display node.line) mid)

/-- The outcomes of running a text and of evaluating it agree: there are no values, or neither comes
to its end. -/
inductive Agree : Outcome Unit → Outcome Value → Prop
  | commands (after : Machine) : Agree (.done () after) (.done (.list []) after)
  | failed (e : RuntimeError) (after : Machine) : Agree (.failed e after) (.failed e after)
  | exhausted : Agree .exhausted .exhausted

lemma Agree.done_iff {o : Outcome Unit} {o' : Outcome Value} (h : Agree o o') (after : Machine) :
    o = .done () after ↔ o' = .done (.list []) after := by
  cases h with
  | commands _ => simp
  | failed _ _ => simp
  | exhausted => simp

lemma Agree.eq_of_done {o : Outcome Unit} {w : Value} {after : Machine}
    (h : Agree o (.done w after)) : w = .list [] := by
  cases h
  rfl

lemma Agree.eq_of_failed {o : Outcome Unit} {e : RuntimeError} {after : Machine}
    (h : Agree o (.failed e after)) : o = .failed e after := by
  cases h
  rfl

variable {source : String} {settings : Settings} {m : Machine}

lemma run_of_read {program : Program} {start : Machine}
    (h : Run.readProgram source settings m = .done program start) (bound : Nat) :
    run bound source settings m =
      ((eval bound).execute Machine.globalFrame false program >>= fun flow =>
        atTopLevel flow >>= fun _ => Run.give ()) settings start := by
  simp only [run, Evaluator.runText, bind, Run.andThen, h]
  rfl

lemma evaluate_of_read {program : Program} {start : Machine}
    (h : Run.readProgram source settings m = .done program start) (bound : Nat) :
    evaluate bound source settings m =
      ((eval bound).collect Machine.globalFrame [] program >>= atTopLevel) settings start := by
  simp only [evaluate, bind, Run.andThen, h]

/-- A text that cannot be read. -/
lemma agree_of_unreadable (bound : Nat)
    (h : ∀ program start, Run.readProgram source settings m ≠ .done program start) :
    Agree (run bound source settings m) (evaluate bound source settings m) := by
  simp only [run, evaluate, Evaluator.runText, bind, Run.andThen]
  cases hread : Run.readProgram source settings m with
  | done program start => exact absurd hread (h program start)
  | failed e after => exact .failed e after
  | exhausted => exact .exhausted

/-- With any bound the two agree, or a value is left over. -/
lemma agree_or_leavesOver (bound : Nat) (source : String) (settings : Settings) (m : Machine) :
    Agree (run bound source settings m) (evaluate bound source settings m) ∨
      ∃ node v rest mid, run bound source settings m =
          .failed (.unconsumedValue v.display node.line) mid ∧
        evaluate bound source settings m = evaluateRest bound v rest settings mid ∧
        LeavesOver source settings m node v rest mid (evaluate bound source settings m) := by
  by_cases hread : ∃ program start, Run.readProgram source settings m = .done program start
  · obtain ⟨program, start, hread⟩ := hread
    rw [run_of_read hread, evaluate_of_read hread]
    rcases (eval bound).agree_or_leavesOver Machine.globalFrame settings program start with
      hagree | ⟨node, v, rest, mid, hleaves⟩
    · refine .inl ?_
      simp only [bind, Run.andThen]
      revert hagree
      generalize (eval bound).execute Machine.globalFrame false program settings start = o,
        (eval bound).collect Machine.globalFrame [] program settings start = o'
      intro hagree
      cases hagree with
      | commands after => exact .commands after
      | output v after => exact .failed _ after
      | stop after => exact .failed _ after
      | failed e after => exact .failed e after
      | exhausted => exact .exhausted
    · have hrest : ((eval bound).collect Machine.globalFrame [] program >>= atTopLevel) settings
          start = evaluateRest bound v rest settings mid := by
        simp only [evaluateRest, bind, Run.andThen, hleaves.collect_eq]
      refine .inr ⟨node, v, rest, mid, ?_, hrest, bound, program, start, hread, hleaves, hrest.symm⟩
      simp only [bind, Run.andThen, hleaves.execute_eq]
  · exact .inl (agree_of_unreadable bound fun program start h => hread ⟨program, start, h⟩)

/-- What is evaluated after a value has been left over gives a list that starts with it, and begins
with what has been written before. -/
lemma exists_of_evaluateRest {bound : Nat} {v w : Value} {rest : Program} {mid after : Machine}
    (h : evaluateRest bound v rest settings mid = .done w after) :
    (∃ vs, w = .list (v :: vs)) ∧
      ∀ count, ∃ more,
        after.transcript.textAfter count = mid.transcript.textAfter count ++ more := by
  have hwrites := (limitLaw.andThen
    (Run.Law.collect (limitLaw.eval bound) Machine.globalFrame [v] (p := rest) rfl)
    limitLaw.atTopLevel).writes settings mid
  constructor
  · simp only [evaluateRest, bind, Run.andThen] at h
    cases hcollect : (eval bound).collect Machine.globalFrame [v] rest settings mid with
    | done flow next =>
      rw [hcollect] at h
      cases flow with
      | value u =>
        obtain ⟨rfl, rfl⟩ : u = w ∧ next = after := by simpa [atTopLevel, Run.give] using h
        obtain ⟨vs, rfl⟩ := Evaluator.exists_of_collect [v] rest hcollect
        exact ⟨vs, rfl⟩
      | output u => simp [atTopLevel, Run.fail] at h
      | stop => simp [atTopLevel, Run.fail] at h
    | failed e next => simp [hcollect] at h
    | exhausted => simp [hcollect] at h
  · have hbegins : (evaluateRest bound v rest settings mid).Begins mid.transcript := hwrites
    rw [h] at hbegins
    exact Transcript.exists_textAfter (hbegins after rfl)

lemma ends_done_iff (after : Machine) :
    Run.Ends (fun bound => run bound source) settings m (.done () after) ↔
      Run.Ends (fun bound => evaluate bound source) settings m (.done (.list []) after) := by
  have hbound : ∀ bound, run bound source settings m = .done () after ↔
      evaluate bound source settings m = .done (.list []) after := by
    intro bound
    rcases agree_or_leavesOver bound source settings m with
      hagree | ⟨node, v, rest, mid, hrun, hrest, -⟩
    · exact hagree.done_iff after
    · constructor
      · intro hdone
        cases hrun.symm.trans hdone
      · intro hdone
        obtain ⟨⟨vs, hlist⟩, -⟩ := exists_of_evaluateRest (hrest.symm.trans hdone)
        simp at hlist
  simp only [Run.Ends, ne_eq, reduceCtorEq, not_false_eq_true, true_and, hbound]

lemma agrees (source : String) (settings : Settings) (m : Machine) :
    Agrees source settings m where
  done := ends_done_iff
  leftOver := by
    rintro w after ⟨-, bound, (heval : evaluate bound source settings m = _)⟩
    have hcases := agree_or_leavesOver bound source settings m
    rw [heval] at hcases
    rcases hcases with hagree | ⟨node, v, rest, mid, hrun, hrest, hleaves⟩
    · exact .inl hagree.eq_of_done
    · obtain ⟨⟨vs, hlist⟩, hwrites⟩ := exists_of_evaluateRest hrest.symm
      exact .inr ⟨v, vs, node, rest, mid, hlist, hleaves, ⟨by simp, bound, hrun⟩, hwrites⟩
  failed := by
    rintro e after ⟨-, bound, (heval : evaluate bound source settings m = _)⟩
    have hcases := agree_or_leavesOver bound source settings m
    rw [heval] at hcases
    rcases hcases with hagree | ⟨node, v, rest, mid, hrun, -, hleaves⟩
    · exact .inl ⟨by simp, bound, hagree.eq_of_failed⟩
    · exact .inr ⟨node, v, rest, mid, hleaves, by simp, bound, hrun⟩

end Session

/-- **Running a text and evaluating it agree**, on all machines and with all settings. And keeping
the value of the last instruction is carrying out the others and then, if that comes to its end,
evaluating the last one. -/
theorem run_agrees_with_evaluate :
    (∀ source settings m, Session.Agrees source settings m) ∧
    ∀ bound frame body last, (eval bound).execute frame true (body ++ [last]) =
      Run.onValue ((eval bound).execute frame false body) fun _ => eval bound last frame :=
  ⟨Session.agrees, fun bound => (eval bound).execute_concat⟩

/-- Two words are two values, and the first of them is left over. A text with a command only is run
and evaluated alike. -/
theorem run_agrees_with_evaluate_words :
    (∃ after line mid, Run.Ends (fun bound => Session.evaluate bound "\"a \"b") .standard .initial
        (.done (.list [.word "a", .word "b"]) after) ∧
      Run.Ends (fun bound => Session.run bound "\"a \"b") .standard .initial
        (.failed (.unconsumedValue "a" line) mid)) ∧
    (∃ after, Run.Ends (fun bound => Session.evaluate bound "make \"x \"a") .standard .initial
        (.done (.list []) after) ∧
      Run.Ends (fun bound => Session.run bound "make \"x \"a") .standard .initial
        (.done () after)) ∧
    (eval 5).execute 0 true ([.call "print" [.word "a" 1] 1] ++ [.word "b" 1]) =
      Run.onValue ((eval 5).execute 0 false [.call "print" [.word "a" 1] 1]) fun _ =>
        eval 5 (.word "b" 1) 0 := by
  refine ⟨?_, ?_, run_agrees_with_evaluate.2 5 0 _ _⟩
  · obtain ⟨after, heval⟩ : ∃ after, Session.evaluate 5 "\"a \"b" .standard .initial =
        .done (.list [.word "a", .word "b"]) after := ⟨_, rfl⟩
    have hends : Run.Ends (fun bound => Session.evaluate bound "\"a \"b") .standard .initial
        (.done (.list [.word "a", .word "b"]) after) := ⟨by simp, 5, heval⟩
    rcases (run_agrees_with_evaluate.1 "\"a \"b" .standard .initial).leftOver _ _ hends with
      hnil | ⟨v, vs, node, rest, mid, hlist, -, hrun, -⟩
    · simp at hnil
    · obtain ⟨rfl, -⟩ : .word "a" = v ∧ [.word "b"] = vs := by simpa using hlist
      exact ⟨after, node.line, mid, hends, hrun⟩
  · have hgives : (Session.evaluate 5 "make \"x \"a" .standard .initial).gives Value.isEmpty := by
      decide +kernel
    obtain ⟨w, after, heval, hempty⟩ := Outcome.exists_of_gives hgives
    have hagrees := run_agrees_with_evaluate.1 "make \"x \"a" .standard .initial
    have hends : Run.Ends (fun bound => Session.evaluate bound "make \"x \"a") .standard .initial
        (.done w after) := ⟨by simp, 5, heval⟩
    rcases hagrees.leftOver w after hends with rfl | ⟨v, vs, node, rest, mid, rfl, -⟩
    · exact ⟨after, hends, (hagrees.done after).mpr hends⟩
    · simp [Value.isEmpty] at hempty

end Logo
