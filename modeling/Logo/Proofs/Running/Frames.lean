import Logo.Proofs.Running.Grounding

/-!
# What running leaves alone

Assignments go to the root of a chain of frames, and a call binds its parameters in a frame of its
own before its body runs. So no frame that has a parent is ever changed: not by the code that runs in
it, not by that which runs in frames below it, and not by procedures that were defined in it and
outlive the call. A parameter has one value for the whole activation of its procedure, as the frame
of a call has a parent: the frame of the definition, which still exists.

* `Scopes.parent?_root`: a root has no parent.
* `Scopes.KeptIn`: all frames that have a parent are as they were.
* `Scopes.find?_bindInputs`: which value a parameter is bound to.
* `callProcedure_guarded`, `call_guarded`: what a parameter reads as during a call.
* `only_roots_change`: the statement in all its parts.
-/

namespace Logo

namespace Scopes

variable (s : Scopes)

/-! ## Roots -/

/-- Going up from a frame as many steps as its number says comes to a frame without parent. -/
lemma parent?_getLastD_chainFrom {steps f : Nat} (hle : f ≤ steps) (default : FrameId) :
    s.parent? ((s.chainFrom steps f).getLastD default) = none := by
  have hlt : ∀ {g p : FrameId}, s.parent? g = some p → p < g := by
    intro g p hparent
    obtain ⟨frame, hframe, hp⟩ := Option.bind_eq_some_iff.1 hparent
    exact s.parent_lt g frame p hframe hp
  induction steps generalizing f default with
  | zero =>
    obtain rfl : f = 0 := Nat.le_zero.1 hle
    show s.parent? 0 = none
    cases hparent : s.parent? 0 with
    | none => rfl
    | some p => exact absurd (hlt hparent) (Nat.not_lt_zero p)
  | succ steps ih =>
    unfold chainFrom
    cases hparent : s.parent? f with
    | none => exact hparent
    | some p =>
      have hp : p ≤ steps := Nat.le_of_lt_succ (Nat.lt_of_lt_of_le (hlt hparent) hle)
      show s.parent? ((f :: s.chainFrom steps p).getLastD default) = none
      rw [List.getLastD_cons]
      exact ih hp f

/-- A root has no parent. -/
lemma parent?_root (f : FrameId) : s.parent? (s.root f) = none :=
  s.parent?_getLastD_chainFrom (Nat.le_refl f) f

lemma ne_root_of_parent {f : FrameId} {frame : Frame} (hframe : s.frames[f]? = some frame)
    (hparent : frame.parent ≠ none) (g : FrameId) : f ≠ s.root g := by
  rintro rfl
  refine hparent ?_
  rw [← s.parent?_root g, parent?, hframe, Option.bind_some]

/-! ## Assignments and new frames -/

/-- An assignment changes no other frame than the root. -/
lemma frames_set_of_ne {f g : FrameId} (hne : f ≠ s.root g) (name : String) (v : Value) :
    (s.set g name v).frames[f]? = s.frames[f]? := by
  show (s.frames.modify _ _)[f]? = _
  rw [Array.getElem?_modify, if_neg hne.symm]

/-- In the root, an assignment changes one variable. -/
lemma binding?_set_root {g : FrameId} (hroot : s.root g < s.nextId) (name other : String)
    (v : Value) : (s.set g name v).binding? (s.root g) other =
      if Text.lower other = Text.lower name then some v else s.binding? (s.root g) other := by
  obtain ⟨frame, hframe⟩ : ∃ frame, s.frames[s.root g]? = some frame :=
    ⟨_, Array.getElem?_eq_getElem hroot⟩
  have hset : (s.set g name v).frames[s.root g]? =
      some { frame with bindings := frame.bindings.insert (Text.lower name) v } := by
    show (s.frames.modify _ _)[s.root g]? = _
    rw [Array.getElem?_modify, if_pos rfl, hframe, Option.map_some]
  rw [binding?, binding?, hset, hframe, Option.bind_some, Option.bind_some, Dictionary.find?_insert]

/-- A new frame changes no other. -/
lemma frames_push_of_lt {f : FrameId} (hlt : f < s.nextId) (parent : Option FrameId)
    (bindings : Dictionary Value) : (s.push parent bindings).frames[f]? = s.frames[f]? := by
  have hne : f ≠ s.frames.size := Nat.ne_of_lt hlt
  show (s.frames.push _)[f]? = _
  rw [Array.getElem?_push, if_neg hne]

lemma frames_push_nextId {parent : FrameId} (hparent : parent < s.nextId)
    (bindings : Dictionary Value) :
    (s.push (some parent) bindings).frames[s.nextId]? = some ⟨some parent, bindings⟩ := by
  show (s.frames.push _)[s.frames.size]? = _
  rw [Array.getElem?_push, if_pos rfl]
  simp [Option.filter, show parent < s.frames.size from hparent]

/-! ## Frames that are kept -/

/-- Every frame of `s` that has a parent is the same in `t`. -/
def KeptIn (s t : Scopes) : Prop :=
  ∀ (f : FrameId) (frame : Frame), s.frames[f]? = some frame → frame.parent ≠ none →
    t.frames[f]? = some frame

variable {s} {t : Scopes}

lemma KeptIn.refl (s : Scopes) : s.KeptIn s := fun _ _ hframe _ => hframe

lemma KeptIn.set (h : s.KeptIn t) (g : FrameId) (name : String) (v : Value) :
    s.KeptIn (t.set g name v) := by
  intro f frame hframe hparent
  have hkept := h f frame hframe hparent
  rw [t.frames_set_of_ne (t.ne_root_of_parent hkept hparent g), hkept]

lemma KeptIn.push (h : s.KeptIn t) (parent : Option FrameId) (bindings : Dictionary Value) :
    s.KeptIn (t.push parent bindings) := by
  intro f frame hframe hparent
  have hkept := h f frame hframe hparent
  obtain ⟨hlt, -⟩ := Array.getElem?_eq_some_iff.1 hkept
  rw [t.frames_push_of_lt hlt, hkept]

/-! ## Parameters -/

/-- A name that is no parameter keeps its binding. -/
lemma find?_bindInputs_of_ne {params : List String} {key : String}
    (h : ∀ y ∈ params, Text.lower y ≠ key) (d : Dictionary Value) (values : List Value) :
    (bindInputs d params values).find? key = d.find? key := by
  induction params generalizing d values with
  | nil => rfl
  | cons y params ih =>
    obtain ⟨hy, hrest⟩ := List.forall_mem_cons.1 h
    cases values with
    | nil => rw [bindInputs, ih hrest, Dictionary.find?_insert, if_neg hy.symm]
    | cons v values => rw [bindInputs, ih hrest, Dictionary.find?_insert, if_neg hy.symm]

/-- A parameter is bound to the input at its place, or to no value if there is none. Of parameters
with the same name the last one counts. -/
lemma find?_bindInputs {before after : List String} {x : String}
    (hlast : ∀ y ∈ after, Text.lower y ≠ Text.lower x) (d : Dictionary Value)
    (values : List Value) : (bindInputs d (before ++ x :: after) values).find? (Text.lower x) =
      some (values.getD before.length .absent) := by
  induction before generalizing d values with
  | nil =>
    cases values with
    | nil => exact (find?_bindInputs_of_ne hlast _ _).trans (by simp [Dictionary.find?_insert])
    | cons v values =>
      exact (find?_bindInputs_of_ne hlast _ _).trans (by simp [Dictionary.find?_insert])
  | cons y before ih =>
    cases values with
    | nil => rw [List.cons_append, bindInputs, ih]; simp
    | cons v values => rw [List.cons_append, bindInputs, ih]; simp

/-- What a frame binds itself is found there. -/
lemma lookup_of_binding? {f : FrameId} {name : String} {v : Value}
    (h : s.binding? f name = some v) : s.lookup f name = some v := by
  have hchain : ∃ others, s.chain f = f :: others := by
    unfold chain
    cases f with
    | zero => exact ⟨[], rfl⟩
    | succ f =>
      unfold chainFrom
      split
      · exact ⟨_, rfl⟩
      · exact ⟨[], rfl⟩
  obtain ⟨others, hchain⟩ := hchain
  rw [lookup, hchain, List.findSome?_cons, h]

end Scopes

/-! ## Runs -/

/-- Evaluation keeps the frames that have a parent. -/
def keptContract (s : Scopes) : Run.Contract :=
  .ofScopes (s.KeptIn ·) (fun f name v hs => hs.set f name v)
    (fun parent bindings hs => hs.push parent bindings)

lemma keptContract_strict (s : Scopes) : (keptContract s).Strict := ⟨rfl, id⟩

/-- In the frame, every parameter reads as the input at its place, or as no value if there is none,
by a reference and by `thing`. Of parameters with the same name the last one counts. -/
def Machine.Binds (m : Machine) (frame : FrameId) (params : List String) (values : List Value) :
    Prop :=
  ∀ before x after, params = before ++ x :: after → (∀ y ∈ after, Text.lower y ≠ Text.lower x) →
    ∀ name, Text.lower name = Text.lower x → ∀ bound line settings,
      eval (bound + 1) (.reference name line) frame settings m =
        .done (.value (values.getD before.length .absent)) m ∧
      (eval bound).perform .thing frame [.word name] line settings m =
        .done (.value (values.getD before.length .absent)) m

/-- The machine on which the body of a called procedure starts. -/
def Machine.entered (m : Machine) (p : Procedure) (values : List Value) : Machine :=
  { m with
    depth := m.depth + 1
    scopes := m.scopes.push (some p.frame) (Scopes.bindInputs .empty p.params values) }

/-- While the frame of a call is as it was made, the parameters read as they were bound. -/
lemma Machine.binds_of_kept {m m' : Machine} {p : Procedure} {values : List Value}
    (hframe : p.frame < m.scopes.nextId) (hkept : (m.entered p values).scopes.KeptIn m'.scopes) :
    m'.Binds m.scopes.nextId p.params values := by
  intro before x after hparams hlast name hname bound line settings
  have hown := hkept _ _ (m.scopes.frames_push_nextId hframe _) (by simp)
  have hbinding : m'.scopes.binding? m.scopes.nextId name =
      some (values.getD before.length .absent) := by
    rw [Scopes.binding?, hown, Option.bind_some, hname, hparams]
    exact Scopes.find?_bindInputs hlast .empty values
  have hget : m'.scopes.get m.scopes.nextId name line =
      .ok (values.getD before.length .absent) := by
    rw [Scopes.get, Scopes.lookup_of_binding? hbinding]
  have hread : Run.readVariable m.scopes.nextId name line settings m' =
      .done (values.getD before.length .absent) m' := by
    rw [Run.readVariable, Run.ask, hget]
    rfl
  constructor
  · simp only [eval, Evaluator.step, bind, Run.andThen, hread]
    rfl
  · simp only [Evaluator.perform, firstInput, Value.asWord, Run.lift, Run.give, bind, Run.andThen,
      hread]
    rfl

/-- What a call makes of the end of its body: one call less is open, and a signal has arrived. -/
def Outcome.left : Outcome Flow → Outcome Flow
  | .done flow after => .done flow.ofBody { after with depth := after.depth - 1 }
  | .failed e after => .failed e { after with depth := after.depth - 1 }
  | .exhausted => .exhausted

/-- A call makes one frame and runs the body in it: whatever else changes, the body has changed. -/
lemma callProcedure_eq (self : Evaluator) (p : Procedure) (values : List Value) (line : Nat)
    (settings : Settings) {m : Machine} (hdepth : m.depth < settings.maxDepth) :
    self.callProcedure p values line settings m =
      (self.execute m.scopes.nextId false p.body settings (m.entered p values)).left := by
  have hbody : (do
      let frame ← Run.openFrame p.frame (Scopes.bindInputs .empty p.params values)
      self.execute frame false p.body : Run Flow) settings { m with depth := m.depth + 1 } =
        self.execute m.scopes.nextId false p.body settings (m.entered p values) := rfl
  simp only [Evaluator.callProcedure, Run.nested, bind, Run.andThen] at hbody ⊢
  rw [if_neg (Nat.not_le.2 hdepth), hbody]
  cases self.execute m.scopes.nextId false p.body settings (m.entered p values) with
  | done flow after => rfl
  | failed e after => rfl
  | exhausted => rfl

/-- A call beyond the limit changes nothing. -/
lemma callProcedure_of_le (self : Evaluator) (p : Procedure) (values : List Value) (line : Nat)
    {settings : Settings} {m : Machine} (hdepth : settings.maxDepth ≤ m.depth) :
    self.callProcedure p values line settings m =
      .failed (.recursionLimit settings.maxDepth line) m := by
  simp only [Evaluator.callProcedure, Run.nested, bind, Run.andThen, if_pos hdepth]

/-- During the whole activation of a procedure its parameters read as they were bound. -/
lemma callProcedure_guarded (bound : Nat) {p : Procedure} (values : List Value) (line : Nat)
    (settings : Settings) {m : Machine} (beyond : Run Flow) (hframe : p.frame < m.scopes.nextId) :
    (evalBy Run.readProgram
        (Run.guarded (fun m' => m'.Binds m.scopes.nextId p.params values) beyond)
        bound).callProcedure p values line settings m =
      (eval bound).callProcedure p values line settings m := by
  by_cases hdepth : m.depth < settings.maxDepth
  · let c := keptContract (m.entered p values).scopes
    have heval := c.evalGuarded (fun _ m' hm' => Machine.binds_of_kept hframe hm') beyond bound
    have hfit : ∀ node ∈ p.body, c.Fit node := fun _ _ => trivial
    have hbody := Run.Contract.execute heval m.scopes.nextId false hfit
    have hsame := (hbody.strict id settings (Scopes.KeptIn.refl _)).1
    rw [callProcedure_eq _ p values line settings hdepth,
      callProcedure_eq _ p values line settings hdepth]
    exact congrArg Outcome.left hsame
  · have hle := Nat.not_lt.1 hdepth
    rw [callProcedure_of_le _ p values line hle, callProcedure_of_le _ p values line hle]

/-- A call of a procedure, during which `beyond` comes next wherever a parameter does not read as it
was bound. -/
noncomputable def callGuarded (beyond : Run Flow) (bound : Nat) (p : Procedure) (line : Nat)
    (values : List Value) : Run Flow := fun settings m =>
  (evalBy Run.readProgram
    (Run.guarded (fun m' => m'.Binds m.scopes.nextId p.params values) beyond)
    bound).callProcedure p values line settings m

/-- In a call by name, the parameters read as they were bound, whatever the inputs have done before.
They are evaluated when the procedure has been looked up, but they do away with no frame. -/
lemma call_guarded (bound : Nat) {name : String} {p : Procedure} (nodes : List Node)
    (frame : FrameId) (line : Nat) (settings : Settings) {m : Machine} (beyond : Run Flow)
    (hm : m.Grounded) (hcallable : m.vocabulary.callable? name = some (.procedure p)) :
    (eval bound).inputs name frame nodes (callGuarded beyond bound p line) settings m =
      (eval bound).call name nodes frame line settings m := by
  have hstrict := growingContract_strict (p.frame + 1)
  have heval := hstrict.eval bound
  have hfit : ∀ node, (growingContract (p.frame + 1)).Fit node := fun _ => trivial
  have hcall : ∀ values, (growingContract (p.frame + 1)).Keeps frame anyPost
      ((eval bound).callProcedure p values line) (callGuarded beyond bound p line values) := by
    intro values settings m' hm'
    have hkeeps := Run.Contract.callProcedure heval frame
      (fun node (_ : node ∈ p.body) => hfit node) values line
    exact .inr ⟨callProcedure_guarded bound values line settings beyond hm',
      (hkeeps.strict hstrict.lenient settings hm').2⟩
  have hinputs := Run.Contract.inputs heval name frame
    (fun node (_ : node ∈ nodes) => hfit node) hcall
  rw [Evaluator.call_of_procedure _ nodes frame line settings hcallable]
  exact (hinputs.strict hstrict.lenient settings (hm name p hcallable)).1

lemma perform_make (self : Evaluator) (frame : FrameId) (name : String) (v : Value) (line : Nat)
    (settings : Settings) (m : Machine) :
    self.perform .make frame [.word name, v] line settings m =
      .done .nothing { m with scopes := m.scopes.set frame name v } := rfl

lemma perform_name (self : Evaluator) (frame : FrameId) (name : String) (v : Value) (line : Nat)
    (settings : Settings) (m : Machine) :
    self.perform .name frame [v, .word name] line settings m =
      .done .nothing { m with scopes := m.scopes.set frame name v } := rfl

/-- **Only roots change.**
* However evaluation is entered and however it ends, every frame that was there before and has a
  parent is the same afterwards.
* It is the same in between, too: it does not matter what evaluation would do if such a frame had
  changed at the start or at the end of the evaluation of any node.
* During the whole activation of a procedure that was defined in an existing frame, each parameter
  reads as the input that it was called with, or as no value if that was missing.
* `make` and `name` change one variable of the root, and no other frame.
* A call itself makes at most one frame, and leaves all others as they are.
* If the frames of all procedures exist, then each parameter reads as its input during every call by
  name, whatever the evaluation of the inputs has done before.
* Evaluation in a frame that exists keeps the frames of all procedures, after it and in between.
* So does a session that does everything in frames that exist. -/
theorem only_roots_change :
    (∀ (entry : Entry) bound settings (m after : Machine),
      (entry.run (eval bound) settings m).after? = some after → m.scopes.KeptIn after.scopes) ∧
    (∀ (entry : Entry) bound settings (m : Machine) beyond,
      entry.run (evalBy Run.readProgram
        (Run.guarded (fun m' => m.scopes.KeptIn m'.scopes) beyond) bound) settings m =
      entry.run (eval bound) settings m) ∧
    (∀ bound p values line settings (m : Machine) beyond, p.frame < m.scopes.nextId →
      (evalBy Run.readProgram
        (Run.guarded (fun m' => m'.Binds m.scopes.nextId p.params values) beyond)
        bound).callProcedure p values line settings m =
      (eval bound).callProcedure p values line settings m) ∧
    (∀ (self : Evaluator) frame name v line settings (m : Machine), ∃ after : Machine,
      self.perform .make frame [.word name, v] line settings m = .done .nothing after ∧
      self.perform .name frame [v, .word name] line settings m = .done .nothing after ∧
      m.scopes.parent? (m.scopes.root frame) = none ∧
      (∀ f, f ≠ m.scopes.root frame → after.scopes.frames[f]? = m.scopes.frames[f]?) ∧
      (m.scopes.root frame < m.scopes.nextId → ∀ other,
        after.scopes.binding? (m.scopes.root frame) other =
          if Text.lower other = Text.lower name then some v
          else m.scopes.binding? (m.scopes.root frame) other)) ∧
    (∀ (self : Evaluator) p values line settings (m : Machine),
      (settings.maxDepth ≤ m.depth → self.callProcedure p values line settings m =
        .failed (.recursionLimit settings.maxDepth line) m) ∧
      (m.depth < settings.maxDepth → self.callProcedure p values line settings m =
        (self.execute m.scopes.nextId false p.body settings (m.entered p values)).left) ∧
      ∀ f, f < m.scopes.nextId →
        (m.entered p values).scopes.frames[f]? = m.scopes.frames[f]?) ∧
    (∀ bound name p nodes frame line settings (m : Machine) beyond, m.Grounded →
      m.vocabulary.callable? name = some (.procedure p) →
      (eval bound).inputs name frame nodes (callGuarded beyond bound p line) settings m =
        (eval bound).call name nodes frame line settings m) ∧
    (∀ (entry : Entry) bound settings (m : Machine), entry.frame < m.scopes.nextId → m.Grounded →
      (∀ beyond, entry.run (evalBy Run.readProgram
          (Run.guarded Machine.Grounded beyond) bound) settings m =
        entry.run (eval bound) settings m) ∧
      ∀ after, (entry.run (eval bound) settings m).after? = some after → after.Grounded) ∧
    (∀ m, Session.Framed m → Machine.globalFrame < m.scopes.nextId ∧ m.Grounded) := by
  refine ⟨?_, ?_, ?_, ?_, ?_, ?_, ?_, fun m h => h.grounded⟩
  · intro entry bound settings m after hafter
    exact (keptContract_strict m.scopes).entry entry (Scopes.KeptIn.refl m.scopes)
      (fun _ _ => trivial) bound hafter
  · intro entry bound settings m beyond
    exact (keptContract_strict m.scopes).entry_guarded entry (Scopes.KeptIn.refl m.scopes)
      (fun _ _ => trivial) bound (fun _ _ hm => hm) beyond
  · intro bound p values line settings m beyond hframe
    exact callProcedure_guarded bound values line settings beyond hframe
  · intro self frame name v line settings m
    refine ⟨_, perform_make .., perform_name .., m.scopes.parent?_root frame, ?_, ?_⟩
    · intro f hne
      exact m.scopes.frames_set_of_ne hne name v
    · intro hroot other
      exact m.scopes.binding?_set_root hroot name other v
  · intro self p values line settings m
    refine ⟨callProcedure_of_le self p values line, callProcedure_eq self p values line settings, ?_⟩
    intro f hlt
    exact m.scopes.frames_push_of_lt hlt _ _
  · intro bound name p nodes frame line settings m beyond hm hcallable
    exact call_guarded bound nodes frame line settings beyond hm hcallable
  · intro entry bound settings m hframe hm
    refine ⟨fun beyond => ?_, fun after hafter => ?_⟩
    · exact groundedContract_strict.entry_guarded entry ⟨hframe, hm⟩ (fun _ _ => trivial) bound
        (fun _ _ hm' => hm'.2) beyond
    · exact (groundedContract_strict.entry entry ⟨hframe, hm⟩ (fun _ _ => trivial) bound hafter).2

/-- A procedure that assigns to its parameter changes a global variable; the frame of its call and a
frame that was there before keep theirs. A session that defines it in the global frame calls it with
its parameters bound. -/
theorem only_roots_change_of_make :
    let body : Program := [.call "make" [.word "x" 1, .word "b" 1] 1]
    let p : Procedure := ⟨"f", ["x", "y"], body, 1⟩
    let old : Frame := ⟨some 0, ⟨[("x", .word "c")]⟩⟩
    let m : Machine :=
      { Machine.initial with scopes := Machine.initial.scopes.push old.parent old.bindings }
    let q : Procedure := ⟨"f", ["x", "y"], body, 0⟩
    let s : Machine := { Machine.initial with vocabulary := Vocabulary.standard.define q }
    m.scopes.frames[1]? = some old ∧
    (∃ after, ((eval 5).execute 2 false p.body .standard (m.entered p [.word "a"])).after? =
        some after ∧
      after.scopes.frames[1]? = some old ∧
      after.scopes.frames[2]? =
        some ⟨some 1, Scopes.bindInputs .empty ["x", "y"] [.word "a"]⟩) ∧
    (∀ beyond, (evalBy Run.readProgram
        (Run.guarded (fun m' => m'.Binds 2 ["x", "y"] [.word "a"]) beyond)
        5).callProcedure p [.word "a"] 1 .standard m =
      (eval 5).callProcedure p [.word "a"] 1 .standard m) ∧
    (∃ after, (eval 5).perform .make 1 [.word "x", .word "b"] 1 .standard m =
        .done .nothing after ∧
      after.scopes.frames[1]? = some old ∧ after.scopes.binding? 0 "x" = some (.word "b")) ∧
    Session.Framed s ∧ s.Grounded ∧
    (∀ beyond, (eval 5).inputs "f" 0 [.word "a" 1] (callGuarded beyond 5 q 1) .standard s =
      (eval 5).call "f" [.word "a" 1] 0 1 .standard s) ∧
    (∀ beyond, (Entry.node (.call "f" [.word "a" 1] 1) 0).run
        (evalBy Run.readProgram (Run.guarded Machine.Grounded beyond) 5) .standard s =
      eval 5 (.call "f" [.word "a" 1] 1) 0 .standard s) := by
  intro body p old m q s
  have hold : m.scopes.frames[1]? = some old := rfl
  have hroot : m.scopes.root 1 = 0 := rfl
  have hframed : Session.Framed s :=
    .next (.enter (.node (.definition "f" ["x", "y"] body 1) 0)) 1 .standard .initial
      Nat.zero_lt_one rfl
  obtain ⟨hroots, -, hbinds, hassign, henter, hcalls, hguarded, hsession⟩ := only_roots_change
  obtain ⟨hglobal, hgrounded⟩ := hsession s hframed
  refine ⟨hold, ?_, ?_, ?_, hframed, hgrounded, ?_, ?_⟩
  · have hentered := (henter (eval 5) p [.word "a"] 1 .standard m).2.2 1 (by decide)
    have hsome : ((eval 5).execute 2 false p.body .standard (m.entered p [.word "a"])).after?.isSome
        := by decide +kernel
    obtain ⟨after, hafter⟩ := Option.isSome_iff_exists.1 hsome
    have hkept := hroots (.execute p.body 2 false) 5 .standard _ after hafter
    exact ⟨after, hafter, hkept 1 old (hentered.trans hold) (by simp [old]),
      hkept 2 _ rfl (by simp)⟩
  · intro beyond
    exact hbinds 5 p [.word "a"] 1 .standard m beyond (by decide)
  · obtain ⟨after, hmake, -, -, hothers, hassigned⟩ := hassign (eval 5) 1 "x" (.word "b") 1
      .standard m
    refine ⟨after, hmake, (hothers 1 (by simp [hroot])).trans hold, ?_⟩
    have hx := hassigned (by decide) "x"
    rwa [if_pos rfl, hroot] at hx
  · intro beyond
    have hcallable : s.vocabulary.callable? "f" = some (.procedure q) :=
      (Vocabulary.callable?_define ..).trans (if_pos rfl)
    exact hcalls 5 "f" q [.word "a" 1] 0 1 .standard s beyond hgrounded hcallable
  · exact (hguarded (.node (.call "f" [.word "a" 1] 1) 0) 5 .standard s hglobal hgrounded).1

end Logo
