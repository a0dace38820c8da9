import Logo.Proofs.Running.Complaints
import Logo.Proofs.Running.Readers

/-!
# Comparisons of evaluations

Evaluation puts runs together from a few actions on the machine. A *comparison* is a relation
between runs that holds between the same actions on two sides and goes over to the runs that are put
together from related ones. The two sides may differ in two ways:

* they count lines differently: `left` and `right` say what is compared of a line, and the two sides
  may hold different syntax trees as long as these agree in that;
* they read texts differently: what the two readers make of one text has to agree in the same way.

Any comparison that relates two evaluators relates all functions of evaluation that are made with
them, so that a property of evaluation is shown one action at a time.

* `Run.Comparison`: what has to be shown of a relation.
* `Run.Comparison.stepBy`: one step of evaluation, one case for each kind of node.
* `Run.Comparison.evalBy`: evaluation with any bound.
-/

namespace Logo

/-! ## Syntax trees that differ in lines only -/

/-- The outermost parts of two syntax trees agree, and so do the parts below up to lines. -/
inductive Node.Matches (f g : Nat → Nat) : Node → Node → Prop
  | number (x : Float) (l l' : Nat) : Matches f g (.number x l) (.number x l')
  | word (text : String) (l l' : Nat) : Matches f g (.word text l) (.word text l')
  | truth (b : Bool) (l l' : Nat) : Matches f g (.truth b l) (.truth b l')
  | reference (name : String) {l l' : Nat} :
      f l = g l' → Matches f g (.reference name l) (.reference name l')
  | binary (op : Operator) {a a' b b' : Node} {l l' : Nat} : a.mapLines f = a'.mapLines g →
      b.mapLines f = b'.mapLines g → f l = g l' →
      Matches f g (.binary op a b l) (.binary op a' b' l')
  | list {items items' : List Node} (l l' : Nat) :
      items.map (Node.mapLines f) = items'.map (Node.mapLines g) →
      Matches f g (.list items l) (.list items' l')
  | call (name : String) {inputs inputs' : List Node} {l l' : Nat} :
      inputs.map (Node.mapLines f) = inputs'.map (Node.mapLines g) → f l = g l' →
      Matches f g (.call name inputs l) (.call name inputs' l')
  | definition (name : String) (params : List String) {body body' : Program} (l l' : Nat) :
      Program.mapLines f body = Program.mapLines g body' →
      Matches f g (.definition name params body l) (.definition name params body' l')
  | conditional (form : ConditionalForm) {a a' b b' : Node} {c c' : Option Node} {l l' : Nat} :
      a.mapLines f = a'.mapLines g → b.mapLines f = b'.mapLines g →
      c.map (Node.mapLines f) = c'.map (Node.mapLines g) → f l = g l' →
      Matches f g (.conditional form a b c l) (.conditional form a' b' c' l')

variable {f g : Nat → Nat}

lemma Node.matches_of_mapLines {node node' : Node} (h : node.mapLines f = node'.mapLines g) :
    Node.Matches f g node node' := by
  cases node <;> cases node' <;> simp only [Node.mapLines, Node.mapLinesEach_eq,
    Node.mapLinesOption_eq, Node.number.injEq, Node.word.injEq, Node.truth.injEq,
    Node.reference.injEq, Node.binary.injEq, Node.list.injEq, Node.call.injEq,
    Node.definition.injEq, Node.conditional.injEq, reduceCtorEq] at h
  case number => obtain ⟨rfl, -⟩ := h; exact .number _ _ _
  case word => obtain ⟨rfl, -⟩ := h; exact .word _ _ _
  case truth => obtain ⟨rfl, -⟩ := h; exact .truth _ _ _
  case reference => obtain ⟨rfl, hl⟩ := h; exact .reference _ hl
  case binary => obtain ⟨rfl, ha, hb, hl⟩ := h; exact .binary _ ha hb hl
  case list => exact .list _ _ h.1
  case call => obtain ⟨rfl, hinputs, hl⟩ := h; exact .call _ hinputs hl
  case definition => obtain ⟨rfl, rfl, hbody, -⟩ := h; exact .definition _ _ _ _ hbody
  case conditional => obtain ⟨rfl, ha, hb, hc, hl⟩ := h; exact .conditional _ ha hb hc hl

mutual

/-- The value of an item does not depend on lines. -/
lemma Node.quoted_mapLines : ∀ node : Node, (node.mapLines f).quoted = node.quoted
  | .list items _ => by
    rw [Node.mapLines, Node.quoted, Node.quoted, Node.quotedEach_mapLines items]
  | .number _ _ | .word _ _ | .truth _ _ | .reference _ _ | .binary _ _ _ _ | .call _ _ _
  | .definition _ _ _ _ | .conditional _ _ _ _ _ => rfl

lemma Node.quotedEach_mapLines :
    ∀ nodes : List Node, Node.quotedEach (Node.mapLinesEach f nodes) = Node.quotedEach nodes
  | [] => rfl
  | node :: nodes => by
    rw [Node.mapLinesEach, Node.quotedEach, Node.quotedEach, Node.quoted_mapLines node,
      Node.quotedEach_mapLines nodes]

end

lemma Node.quotedEach_eq {items items' : List Node}
    (h : items.map (Node.mapLines f) = items'.map (Node.mapLines g)) :
    Node.quotedEach items = Node.quotedEach items' := by
  rw [← Node.quotedEach_mapLines (f := f) items, ← Node.quotedEach_mapLines (f := g) items',
    Node.mapLinesEach_eq, Node.mapLinesEach_eq, h]

/-- The name that a call calls. -/
def Node.called? : Node → Option String
  | .call name _ _ => some name
  | _ => none

lemma Node.called?_mapLines (node : Node) : (node.mapLines f).called? = node.called? := by
  cases node <;> rfl

/-! ## Comparisons -/

/-- A relation between runs on two sides that goes over to all that evaluation puts together. -/
structure Run.Comparison where
  /-- What is compared of a line on the left. -/
  left : Nat → Nat
  /-- What is compared of a line on the right. -/
  right : Nat → Nat
  /-- How a text is read on the left. -/
  read : String → Run Program
  /-- How a text is read on the right. -/
  read' : String → Run Program
  /-- The two runs are related. -/
  Rel : {α : Type} → Run α → Run α → Prop
  give : ∀ {α : Type} (a : α), Rel (Run.give a) (Run.give a)
  fail : ∀ {α : Type} {e e' : RuntimeError}, e.mapLine left = e'.mapLine right →
    e.isLimit = false → Rel (Run.fail e : Run α) (Run.fail e')
  giveUp : ∀ {α : Type}, Rel (Run.giveUp : Run α) Run.giveUp
  andThen : ∀ {α β : Type} {r s : Run α} {next next' : α → Run β}, Rel r s →
    (∀ a, Rel (next a) (next' a)) → Rel (r >>= next) (s >>= next')
  settings : ∀ {β : Type} {next next' : Settings → Run β},
    (∀ s s', s.corpus = s'.corpus → s.readFile = s'.readFile → Rel (next s) (next' s')) →
    Rel (Run.settings >>= next) (Run.settings >>= next')
  resolve : ∀ {β : Type} {next next' : Callable → Run β} (name : String) {l l' : Nat},
    left l = right l' →
    (∀ c c', c.mapLines left = c'.mapLines right → Rel (next c) (next' c')) →
    Rel (Run.ask (fun m => m.vocabulary.resolve name l) >>= next)
      (Run.ask (fun m => m.vocabulary.resolve name l') >>= next')
  leave : ∀ (name : String) (flow : Flow) {l l' : Nat}, left l = right l' →
    Rel (Evaluator.leave name flow l) (Evaluator.leave name flow l')
  readVariable : ∀ (frame : FrameId) (name : String) {l l' : Nat}, left l = right l' →
    Rel (Run.readVariable frame name l) (Run.readVariable frame name l')
  setVariable : ∀ (frame : FrameId) (name : String) (v : Value),
    Rel (Run.setVariable frame name v) (Run.setVariable frame name v)
  write : ∀ (text : String) {l l' : Nat}, left l = right l' →
    Rel (Run.write text l) (Run.write text l')
  define : ∀ {p p' : Procedure}, p.mapLines left = p'.mapLines right →
    Rel (Run.define p) (Run.define p')
  reading : ∀ {β : Type} {next next' : Program → Run β} (text : String),
    (∀ p p', Program.mapLines left p = Program.mapLines right p' → Rel (next p) (next' p')) →
    Rel (read text >>= next) (read' text >>= next')
  openFrame : ∀ (parent : FrameId) (bindings : Dictionary Value),
    Rel (Run.openFrame parent bindings) (Run.openFrame parent bindings)
  nested : ∀ {l l' : Nat} {body body' : Run Flow}, left l = right l' → Rel body body' →
    Rel (Run.nested l body) (Run.nested l' body')

namespace Run

/-! ## Runs that are put together in other ways -/

lemma onValue_eq (r : Run Flow) (next : Value → Run Flow) : onValue r next = r >>= fun flow =>
    match flow with
    | .value v => next v
    | flow => give flow := by
  funext settings m
  show onValue r next settings m = andThen r _ settings m
  unfold onValue andThen
  cases r settings m with
  | done flow after => cases flow <;> rfl
  | failed e after => rfl
  | exhausted => rfl

lemma times_succ (body : Run Flow) (count : Nat) :
    times body (count + 1) = onValue body fun _ => times body count := by
  funext settings m
  simp only [times, onValue]

lemma each_cons (body : Value → Nat → Run Flow) (place : Nat) (v : Value) (vs : List Value) :
    each body place (v :: vs) = onValue (body v place) fun _ => each body (place + 1) vs := by
  funext settings m
  simp only [each, onValue]

/-- An input is a call that gives no value, or whatever its node leads to. -/
lemma input_eq (self : Evaluator) (consumer : String) (frame : FrameId) (node : Node) :
    self.input consumer frame node = self node frame >>= fun flow =>
      match flow, node.called? with
      | .value .absent, some name => fail (.noOutput name consumer node.line)
      | flow, _ => give flow := by
  refine congrArg (self node frame >>= ·) (funext fun flow => ?_)
  rcases flow with (_ | _ | _ | _ | _) | _ | _
  case value.absent => cases node <;> rfl
  all_goals rfl

namespace Comparison

variable (k : Run.Comparison) {α : Type}

lemma lift {x y : Except RuntimeError α} (h : SameResult k.left k.right x y) :
    k.Rel (Run.lift x) (Run.lift y) := by
  cases h with
  | ok a => exact k.give a
  | error h hlimit => exact k.fail h hlimit

lemma onValue {r s : Run Flow} {next next' : Value → Run Flow} (h : k.Rel r s)
    (hnext : ∀ v, k.Rel (next v) (next' v)) :
    k.Rel (Run.onValue r next) (Run.onValue s next') := by
  rw [onValue_eq, onValue_eq]
  refine k.andThen h fun flow => ?_
  cases flow with
  | value v => exact hnext v
  | output v => exact k.give _
  | stop => exact k.give _

lemma times {body body' : Run Flow} (h : k.Rel body body') (count : Nat) :
    k.Rel (Run.times body count) (Run.times body' count) := by
  induction count with
  | zero => exact k.give _
  | succ count ih =>
    rw [times_succ, times_succ]
    exact k.onValue h fun _ => ih

lemma each {body body' : Value → Nat → Run Flow}
    (h : ∀ v place, k.Rel (body v place) (body' v place)) (place : Nat) (vs : List Value) :
    k.Rel (Run.each body place vs) (Run.each body' place vs) := by
  induction vs generalizing place with
  | nil => exact k.give _
  | cons v vs ih =>
    rw [each_cons, each_cons]
    exact k.onValue (h v place) fun _ => ih (place + 1)

/-! ## The functions of evaluation -/

/-- The evaluators are related on syntax trees that differ in lines only. -/
def Evaluators (self self' : Evaluator) : Prop :=
  ∀ node node' frame, node.mapLines k.left = node'.mapLines k.right →
    k.Rel (self node frame) (self' node' frame)

variable {k} {self self' : Evaluator} (h : k.Evaluators self self') {l l' : Nat}
include h

lemma execute (frame : FrameId) (keepLast : Bool) {p p' : Program}
    (hp : Program.mapLines k.left p = Program.mapLines k.right p') :
    k.Rel (self.execute frame keepLast p) (self'.execute frame keepLast p') := by
  induction p generalizing p' with
  | nil =>
    obtain rfl : p' = [] := by simpa [Program.mapLines] using hp.symm
    exact k.give _
  | cons node rest ih =>
    obtain ⟨node', rest', rfl, hnode, hrest⟩ := List.map_eq_cons_iff.mp hp.symm
    have hline : k.left node.line = k.right node'.line := by
      simpa using congrArg Node.line hnode.symm
    have hempty : rest.isEmpty = rest'.isEmpty := by
      simpa using congrArg List.isEmpty hrest.symm
    refine k.onValue (h node node' frame hnode.symm) fun v => ?_
    rw [hempty]
    split
    · exact k.give _
    split
    · exact ih hrest.symm
    · exact k.fail (congrArg (RuntimeError.unconsumedValue _) hline) rfl

lemma collect (frame : FrameId) (values : List Value) {p p' : Program}
    (hp : Program.mapLines k.left p = Program.mapLines k.right p') :
    k.Rel (self.collect frame values p) (self'.collect frame values p') := by
  induction p generalizing p' values with
  | nil =>
    obtain rfl : p' = [] := by simpa [Program.mapLines] using hp.symm
    exact k.give _
  | cons node rest ih =>
    obtain ⟨node', rest', rfl, hnode, hrest⟩ := List.map_eq_cons_iff.mp hp.symm
    exact k.onValue (h node node' frame hnode.symm) fun v => ih _ hrest.symm

lemma runTextBy (text : String) (frame : FrameId) (keepLast : Bool) :
    k.Rel (self.runTextBy k.read text frame keepLast)
      (self'.runTextBy k.read' text frame keepLast) :=
  k.reading text fun _ _ => execute h frame keepLast

lemma runValueBy (v : Value) (frame : FrameId) (keepLast : Bool) :
    k.Rel (self.runValueBy k.read v frame keepLast) (self'.runValueBy k.read' v frame keepLast) :=
  runTextBy h v.printForm frame keepLast

lemma input (consumer : String) (frame : FrameId) {node node' : Node}
    (hnode : node.mapLines k.left = node'.mapLines k.right) :
    k.Rel (self.input consumer frame node) (self'.input consumer frame node') := by
  have hcalled : node.called? = node'.called? := by
    rw [← node.called?_mapLines (f := k.left), hnode, Node.called?_mapLines]
  have hline : k.left node.line = k.right node'.line := by
    simpa using congrArg Node.line hnode
  rw [input_eq, input_eq, hcalled]
  refine k.andThen (h node node' frame hnode) fun flow => ?_
  split
  · exact k.fail (congrArg (RuntimeError.noOutput _ consumer) hline) rfl
  · exact k.give _

lemma inputs (consumer : String) (frame : FrameId) {nodes nodes' : List Node}
    (hnodes : nodes.map (Node.mapLines k.left) = nodes'.map (Node.mapLines k.right))
    {next next' : List Value → Run Flow} (hnext : ∀ values, k.Rel (next values) (next' values)) :
    k.Rel (self.inputs consumer frame nodes next) (self'.inputs consumer frame nodes' next') := by
  induction nodes generalizing nodes' next next' with
  | nil =>
    obtain rfl : nodes' = [] := by simpa using hnodes.symm
    exact hnext []
  | cons node nodes ih =>
    obtain ⟨node', nodes', rfl, hnode, hrest⟩ := List.map_eq_cons_iff.mp hnodes.symm
    exact k.onValue (input h consumer frame hnode.symm) fun v =>
      ih hrest.symm fun vs => hnext (v :: vs)

lemma callProcedure {p p' : Procedure} (hp : p.mapLines k.left = p'.mapLines k.right)
    (values : List Value) (hl : k.left l = k.right l') :
    k.Rel (self.callProcedure p values l) (self'.callProcedure p' values l') := by
  obtain ⟨name, params, body, frame⟩ := p
  obtain ⟨name', params', body', frame'⟩ := p'
  obtain ⟨rfl, rfl, hbody, rfl⟩ := Procedure.mk.inj hp
  refine k.andThen (k.nested hl ?_) fun flow => k.give _
  exact k.andThen (k.openFrame _ _) fun frame => execute h frame false hbody

lemma performBy (command : Command) (frame : FrameId) (values : List Value)
    (hl : k.left l = k.right l') :
    k.Rel (self.performBy k.read command frame values l)
      (self'.performBy k.read' command frame values l') := by
  have hone : ∀ name, k.Rel (Run.lift (firstInput name values l))
      (Run.lift (firstInput name values l')) :=
    fun name => k.lift (sameResult_firstInput hl name values)
  have htwo : ∀ name, k.Rel (Run.lift (firstTwoInputs name values l))
      (Run.lift (firstTwoInputs name values l')) :=
    fun name => k.lift (sameResult_firstTwoInputs hl name values)
  have hword : ∀ (v : Value) name, k.Rel (Run.lift (v.asWord name l))
      (Run.lift (v.asWord name l')) :=
    fun v name => k.lift (v.sameResult_asWord hl name)
  cases command with
  | print | showForm | typeOut => exact k.andThen (k.write _ hl) fun _ => k.give _
  | make =>
    exact k.andThen (htwo _) fun (name, v) => k.andThen (hword name _) fun name =>
      k.andThen (k.setVariable frame name v) fun _ => k.give _
  | name =>
    exact k.andThen (htwo _) fun (v, name) => k.andThen (hword name _) fun name =>
      k.andThen (k.setVariable frame name v) fun _ => k.give _
  | thing =>
    exact k.andThen (hone _) fun name => k.andThen (hword name _) fun name =>
      k.andThen (k.readVariable frame name hl) fun v => k.give _
  | load =>
    -- the settings may differ, but not in the directory and the files that are asked for here
    refine k.andThen (hone _) fun name => k.andThen (hword name _) fun name =>
      k.settings fun s s' hcorpus hfile => ?_
    rw [hcorpus, hfile]
    dsimp only
    split
    · exact runTextBy h _ frame false
    · exact k.fail (congrArg (RuntimeError.loadFailed _ _) hl) rfl
  | run => exact k.andThen (hone _) fun v => runValueBy h v frame true
  | repeatTimes =>
    exact k.andThen (htwo _) fun (count, v) =>
      k.andThen (k.lift (count.sameResult_asInteger hl _)) fun n =>
        k.andThen (k.lift (Value.sameResult_natural hl n)) fun n =>
          k.times (runValueBy h v frame false) n
  | foreach =>
    exact k.andThen (htwo _) fun (data, template) =>
      k.andThen (k.lift (data.sameResult_members hl _)) fun members =>
        k.each (fun v place => runValueBy h (Template.fill v place template) frame false) 1 members
  | output => exact k.andThen (hone _) fun v => k.leave _ _ hl
  | stop => exact k.leave _ _ hl

lemma callBuiltinBy (b : Builtin) (frame : FrameId) (values : List Value)
    (hl : k.left l = k.right l') :
    k.Rel (self.callBuiltinBy k.read b frame values l)
      (self'.callBuiltinBy k.read' b frame values l') := by
  unfold Evaluator.callBuiltinBy Evaluator.callBuiltin
  by_cases hfew : values.length < b.least
  · have hfail : k.Rel (Run.fail (.notEnoughInputs b.name l) : Run Flow)
        (Run.fail (.notEnoughInputs b.name l')) :=
      k.fail (congrArg (RuntimeError.notEnoughInputs _) hl) rfl
    cases b.action <;> simpa only [if_pos hfew] using hfail
  · simp only [if_neg hfew]
    cases b.action with
    | operation op =>
      exact k.andThen (k.lift (op.sameResult_apply hl values)) fun v => k.give _
    | command command => exact performBy h command frame values hl
    | reserved => exact k.fail (congrArg (RuntimeError.unimplemented _) hl) rfl

lemma callBy (name : String) {nodes nodes' : List Node}
    (hnodes : nodes.map (Node.mapLines k.left) = nodes'.map (Node.mapLines k.right))
    (frame : FrameId) (hl : k.left l = k.right l') :
    k.Rel (self.callBy k.read name nodes frame l) (self'.callBy k.read' name nodes' frame l') := by
  refine k.resolve name hl fun c c' hc => inputs h name frame hnodes fun values => ?_
  cases c with
  | builtin b =>
    cases c' with
    | builtin b' =>
      obtain rfl : b = b' := Callable.builtin.inj hc
      exact callBuiltinBy h b frame values hl
    | procedure p' => simp [Callable.mapLines] at hc
  | procedure p =>
    cases c' with
    | builtin b' => simp [Callable.mapLines] at hc
    | procedure p' => exact callProcedure h (Callable.procedure.inj hc) values hl

lemma branchBy (frame : FrameId) {node node' : Node}
    (hnode : node.mapLines k.left = node'.mapLines k.right) :
    k.Rel (self.branchBy k.read node frame) (self'.branchBy k.read' node' frame) := by
  refine k.onValue (h node node' frame hnode) fun v => ?_
  cases v with
  | list items => exact runValueBy h (.list items) frame true
  | _ => exact k.give _

/-- **A step of evaluation** is related if the evaluators of the parts are. -/
theorem stepBy : k.Evaluators (self.stepBy k.read) (self'.stepBy k.read') := by
  intro node node' frame hnode
  cases Node.matches_of_mapLines hnode with
  | number x l l' => exact k.give _
  | word text l l' => exact k.give _
  | truth b l l' => exact k.give _
  | reference name hl => exact k.andThen (k.readVariable frame name hl) fun v => k.give _
  | binary op ha hb hl =>
    exact k.onValue (input h _ frame ha) fun a => k.onValue (input h _ frame hb) fun b =>
      k.andThen (k.lift (op.sameResult_apply hl a b)) fun v => k.give _
  | list l l' hitems =>
    show k.Rel (Run.give (Flow.value (.list _))) (Run.give (Flow.value (.list _)))
    rw [Node.quotedEach_eq hitems]
    exact k.give _
  | call name hinputs hl => exact callBy h name hinputs frame hl
  | definition name params l l' hbody =>
    refine k.andThen (k.define ?_) fun _ => k.give _
    exact congrArg (Procedure.mk name params · frame) hbody
  | @conditional form _ _ _ _ c c' _ _ ha hb hc hl =>
    refine k.onValue (input h _ frame ha) fun v =>
      k.andThen (k.lift (v.sameResult_asTruth hl _)) fun b => ?_
    split
    · exact branchBy h frame hb
    · cases c with
      | none =>
        obtain rfl : c' = none := by simpa using hc.symm
        exact k.give _
      | some node =>
        obtain ⟨node', rfl, helse⟩ := Option.map_eq_some_iff.mp hc.symm
        exact branchBy h frame helse.symm

omit h in
/-- Evaluation with one bound on both sides. -/
theorem evalBy (k : Run.Comparison) (bound : Nat) :
    k.Evaluators (Logo.evalBy k.read id bound) (Logo.evalBy k.read' id bound) := by
  induction bound with
  | zero => exact fun _ _ _ _ => k.giveUp
  | succ bound ih => exact stepBy ih

end Comparison

end Run

end Logo
