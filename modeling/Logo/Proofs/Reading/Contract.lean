import Logo.Proofs.Reading.Progress

/-!
# Contracts of reading

Reading a program changes the vocabulary in one way only: a definition declares its name, after the
name has been found to be free. A *contract* says which vocabularies are in order and which names
count as free in them. Reading keeps the vocabulary in order, also where it fails, and all
definitions in what has been read, at any depth, are of free names.

* `Node.DefinesOnly`: the definitions in a syntax tree.
* `Reader.Contract`: what has to be shown.
* `Reader.Contract.Reads`: the five readers that call each other.
* `Reader.Contract.ofText`: whole programs.
-/

namespace Logo

variable {α β : Type}

/-- The nodes right below a node that are evaluated or stored with it. The items of a list are data
and not among them. -/
def Node.parts : Node → List Node
  | .binary _ left right _ => [left, right]
  | .call _ inputs _ => inputs
  | .definition _ _ body _ => body
  | .conditional _ condition thenBranch elseBranch _ =>
    condition :: thenBranch :: elseBranch.toList
  | _ => []

/-- The name that a node defines. -/
def Node.defined? : Node → Option String
  | .definition name _ _ _ => some name
  | _ => none

/-- The definitions in the syntax tree, at any depth, are of free names. -/
inductive Node.DefinesOnly (Free : String → Prop) : Node → Prop
  | mk {node : Node} : (∀ name ∈ node.defined?, Free name) →
      (∀ part ∈ node.parts, DefinesOnly Free part) → DefinesOnly Free node

namespace Node.DefinesOnly

variable {Free : String → Prop} {node : Node}

lemma defined (h : node.DefinesOnly Free) {name : String} (hname : node.defined? = some name) :
    Free name := by
  obtain ⟨hdefined, -⟩ := h
  exact hdefined name hname

lemma part (h : node.DefinesOnly Free) {part : Node} (hpart : part ∈ node.parts) :
    part.DefinesOnly Free := by
  obtain ⟨-, hparts⟩ := h
  exact hparts part hpart

/-- A node that is no definition. -/
lemma of_parts (hnode : node.defined? = none)
    (hparts : ∀ part ∈ node.parts, part.DefinesOnly Free) : node.DefinesOnly Free :=
  mk (by simp [hnode]) hparts

/-- A node without parts. -/
lemma leaf (hnode : node.defined? = none) (hparts : node.parts = []) : node.DefinesOnly Free :=
  of_parts hnode (by simp [hparts])

end Node.DefinesOnly

/-! ## Readers that keep a vocabulary in order -/

/-- The reader leaves a vocabulary that is in order, and what it gives is as `Post` says. -/
def Reader.Result.Upholds (Inv : Vocabulary → Prop) (Post : α → Prop) : Reader.Result α → Prop
  | .done a _ after => Inv after ∧ Post a
  | .failed _ after => Inv after
  | .exhausted => True

/-- From a vocabulary that is in order, the reader upholds that order. -/
def Reader.Keeps (Inv : Vocabulary → Prop) (Post : α → Prop) (r : Reader α) : Prop :=
  ∀ tokens v, Inv v → (r tokens v).Upholds Inv Post

/-- Nothing is said about what a reader gives. -/
def anyRead : α → Prop := fun _ => True

namespace Reader.Keeps

variable {Inv : Vocabulary → Prop} {P : α → Prop} {Q : β → Prop}

lemma give {a : α} (h : P a) : (Reader.give a).Keeps Inv P := fun _ _ hv => ⟨hv, h⟩

lemma fail (e : ParseError) : (Reader.fail e : Reader α).Keeps Inv P := fun _ _ hv => hv

lemma giveUp : (Reader.giveUp : Reader α).Keeps Inv P := fun _ _ _ => trivial

lemma bind {r : Reader α} {next : α → Reader β} (h : r.Keeps Inv P)
    (hnext : ∀ a, P a → (next a).Keeps Inv Q) : (r >>= next).Keeps Inv Q := by
  intro tokens v hv
  have hr := h tokens v hv
  show Result.Upholds Inv Q (andThen r next tokens v)
  unfold andThen
  cases hres : r tokens v with
  | done a rest after =>
    rw [hres] at hr
    exact hnext a hr.2 rest after hr.1
  | failed e after => rwa [hres] at hr
  | exhausted => trivial

lemma peek : Reader.peek.Keeps Inv anyRead := fun _ _ hv => ⟨hv, trivial⟩

lemma next : Reader.next.Keeps Inv anyRead := fun _ _ hv => ⟨hv, trivial⟩

lemma skipSeparators : Reader.skipSeparators.Keeps Inv anyRead := fun _ _ hv => ⟨hv, trivial⟩

/-- The vocabulary of the moment is in order. -/
lemma vocabulary : Reader.vocabulary.Keeps Inv Inv := fun _ _ hv => ⟨hv, hv⟩

end Reader.Keeps

/-- What reading may rely on and has to keep. -/
structure Reader.Contract where
  /-- The vocabulary is in order. -/
  Inv : Vocabulary → Prop
  /-- The name may be defined. -/
  Free : String → Prop
  free : ∀ {v : Vocabulary} {word : String}, Inv v → Grammar.isKeyword (Text.lower word) = false →
    v.isBuiltin (Text.lower word) = false → Free (Text.lower word)
  declare : ∀ {v : Vocabulary} {name : String} (count : Nat), Inv v → Free name →
    Inv (v.declare name (.fixed count))

namespace Reader.Contract

open Grammar

variable (c : Reader.Contract)

/-- The definitions in a node are of free names. -/
abbrev Fit (node : Node) : Prop := node.DefinesOnly c.Free

/-- The definitions in nodes are of free names. -/
abbrev FitAll (nodes : List Node) : Prop := ∀ node ∈ nodes, c.Fit node

/-- What a reader of one node owes. -/
abbrev ReadsNode (r : Reader Node) : Prop := r.Keeps c.Inv c.Fit

/-- What a reader of nodes owes. -/
abbrev ReadsNodes (r : Reader (List Node)) : Prop := r.Keeps c.Inv c.FitAll

/-! ## Readers that are made of others -/

lemma exists_of_listItems {tokens rest : List Placed} {node : Node} {line : Nat} {items : List Node}
    {outer : List (Nat × List Node)} (h : listItems line items outer tokens = .ok (node, rest)) :
    ∃ items' line', node = .list items' line' := by
  fun_induction listItems line items outer tokens
  case case1 | case7 => simp at h
  case case2 => exact ⟨_, _, (Prod.mk.inj (Except.ok.inj h)).1.symm⟩
  case case3 ih | case4 ih | case5 ih | case6 ih | case8 ih => exact ih h

lemma list (line : Nat) : c.ReadsNode (Grammar.list line) := by
  intro tokens v hv
  unfold Grammar.list
  cases hitems : listItems line [] [] tokens with
  | error e => exact hv
  | ok found =>
    obtain ⟨items, line', hlist⟩ := exists_of_listItems hitems
    exact ⟨hv, hlist ▸ .leaf rfl rfl⟩

/-- The name of a definition is free. -/
lemma definedName (line : Nat) : (Grammar.definedName line).Keeps c.Inv c.Free := by
  refine Keeps.next.bind fun t _ => ?_
  split
  · refine Keeps.vocabulary.bind fun v hv => ?_
    split
    · exact .fail _
    · next hfree =>
      simp only [Bool.or_eq_true, not_or, Bool.not_eq_true] at hfree
      exact .give (c.free hv hfree.1 hfree.2)
  all_goals exact .fail _

variable {c}

lemma group {expression : Reader Node} {sequence : Closer → Reader (List Node)}
    (he : c.ReadsNode expression) (hs : ∀ closer, c.ReadsNodes (sequence closer)) (line : Nat) :
    c.ReadsNode (Grammar.group expression sequence line) := by
  have henclosed : c.ReadsNode (Grammar.group.enclosed expression line) := by
    refine he.bind fun node hnode => Keeps.skipSeparators.bind fun _ _ => ?_
    refine Keeps.next.bind fun t _ => ?_
    split
    · exact .give hnode
    · exact .fail _
  refine Keeps.skipSeparators.bind fun _ _ => Keeps.peek.bind fun t _ => ?_
  split
  · split
    · exact henclosed
    · refine Keeps.next.bind fun _ _ => Keeps.vocabulary.bind fun v _ => ?_
      split
      · exact .fail _
      · exact (hs _).bind fun inputs hinputs => .give (.of_parts rfl hinputs)
  · exact henclosed

lemma call {inputs : Nat → Reader (List Node)} (hi : ∀ count, c.ReadsNodes (inputs count))
    (name : String) (line : Nat) : c.ReadsNode (Grammar.call inputs name line) := by
  refine Keeps.vocabulary.bind fun v _ => ?_
  split
  · exact (hi _).bind fun nodes hnodes => .give (.of_parts rfl hnodes)
  · exact .fail _
  · exact .fail _

/-- A definition declares its name, which is free. -/
lemma definition {sequence : Closer → Reader (List Node)}
    (hs : ∀ closer, c.ReadsNodes (sequence closer)) (line : Nat) :
    c.ReadsNode (Grammar.definition sequence line) := by
  refine (c.definedName line).bind fun name hfree => ?_
  have hparams : Grammar.params.Keeps c.Inv anyRead := fun _ _ hv => ⟨hv, trivial⟩
  refine hparams.bind fun names _ => ?_
  have hdeclare : (Reader.declare name (.fixed names.length)).Keeps c.Inv anyRead :=
    fun _ _ hv => ⟨c.declare _ hv hfree, trivial⟩
  refine hdeclare.bind fun _ _ => (hs _).bind fun body hbody => ?_
  exact .give (.mk (by simpa [Node.defined?] using hfree) hbody)

lemma branch {expression : Reader Node} (he : c.ReadsNode expression) (line : Nat) :
    c.ReadsNode (Grammar.branch expression line) := by
  refine Keeps.peek.bind fun t _ => ?_
  split
  · exact .fail _
  · exact he

lemma conditional {expression : Reader Node} (he : c.ReadsNode expression) (form : ConditionalForm)
    (line : Nat) : c.ReadsNode (Grammar.conditional expression form line) := by
  refine (branch he line).bind fun condition hcondition => ?_
  refine (branch he line).bind fun thenBranch hthen => ?_
  cases form with
  | oneBranch =>
    refine .give (.of_parts rfl ?_)
    simpa [Node.parts] using ⟨hcondition, hthen⟩
  | twoBranches =>
    refine (branch he line).bind fun elseBranch helse => .give (.of_parts rfl ?_)
    simpa [Node.parts] using ⟨hcondition, hthen, helse⟩

lemma nil : c.ReadsNodes (Reader.give []) := .give fun _ h => nomatch h

lemma atEnd (closer : Closer) : c.ReadsNodes closer.atEnd := by
  cases closer with
  | text => exact nil
  | paren line => exact .fail _
  | definition name line => exact .fail _

/-- A node and the nodes after it. -/
lemma cons {first : Reader Node} {others : Reader (List Node)} (hfirst : c.ReadsNode first)
    (hothers : c.ReadsNodes others) :
    c.ReadsNodes (first >>= fun node => others >>= fun nodes => Reader.give (node :: nodes)) :=
  hfirst.bind fun _ hnode => hothers.bind fun _ hnodes =>
    .give (List.forall_mem_cons.2 ⟨hnode, hnodes⟩)

/-! ## The mutual recursion -/

/-- The five readers keep the contract. -/
structure Reads (c : Reader.Contract) (bound : Nat) : Prop where
  expression : ∀ floor, c.ReadsNode (expression bound floor)
  operators : ∀ floor left, c.Fit left → c.ReadsNode (operators bound floor left)
  operand : c.ReadsNode (operand bound)
  sequence : ∀ closer, c.ReadsNodes (sequence bound closer)
  inputs : ∀ count, c.ReadsNodes (inputs bound count)

variable {bound : Nat}

lemma operators_succ (ih : Reads c bound) (floor : Nat) (left : Node) (hleft : c.Fit left) :
    c.ReadsNode (Grammar.operators (bound + 1) floor left) := by
  rw [Grammar.operators]
  refine Keeps.peek.bind fun t _ => ?_
  split
  · split
    · refine Keeps.next.bind fun _ _ => (ih.expression _).bind fun right hright => ?_
      refine ih.operators floor _ (.of_parts rfl ?_)
      simpa [Node.parts] using ⟨hleft, hright⟩
    · exact .give hleft
  · exact .give hleft

lemma operand_succ (ih : Reads c bound) : c.ReadsNode (Grammar.operand (bound + 1)) := by
  rw [Grammar.operand]
  refine Keeps.next.bind fun t _ => ?_
  rcases t with _ | ⟨token, line, column⟩
  · exact .fail _
  dsimp only
  split
  · split
    · exact .give (.leaf rfl rfl)
    · exact .fail _
  · exact .give (.leaf rfl rfl)
  · exact .give (.leaf rfl rfl)
  · refine ih.operand.bind fun node hnode => .give (.of_parts rfl ?_)
    simpa [Node.parts] using ⟨.leaf rfl rfl, hnode⟩
  · exact group (ih.expression 0) ih.sequence line
  · exact c.list line
  · split
    · exact definition ih.sequence line
    · exact conditional (ih.expression 0) _ line
    · exact .give (.leaf rfl rfl)
    · exact .fail _
    · exact call ih.inputs _ line
  all_goals exact .fail _

lemma sequence_succ (ih : Reads c bound) (closer : Closer) :
    c.ReadsNodes (Grammar.sequence (bound + 1) closer) := by
  rw [Grammar.sequence]
  refine Keeps.skipSeparators.bind fun _ _ => Keeps.peek.bind fun t _ => ?_
  split
  · exact atEnd closer
  split
  · exact atEnd closer
  split
  · exact Keeps.next.bind fun _ _ => nil
  · exact cons (ih.expression 0) (ih.sequence closer)

lemma inputs_succ (ih : Reads c bound) (count : Nat) :
    c.ReadsNodes (Grammar.inputs (bound + 1) count) := by
  cases count with
  | zero => exact nil
  | succ count =>
    rw [Grammar.inputs]
    refine Keeps.peek.bind fun t _ => ?_
    split
    · exact nil
    · exact cons (ih.expression 0) (ih.inputs count)

variable (c)

lemma reads (bound : Nat) : Reads c bound := by
  induction bound with
  | zero =>
    exact ⟨fun _ => .giveUp, fun _ _ _ => .giveUp, .giveUp, fun _ => .giveUp, fun _ => .giveUp⟩
  | succ bound ih =>
    refine ⟨fun floor => ?_, operators_succ ih, operand_succ ih, sequence_succ ih, inputs_succ ih⟩
    rw [Grammar.expression]
    exact ih.operand.bind fun left hleft => ih.operators floor left hleft

/-! ## Programs -/

lemma ofTokens (tokens : List Placed) {v : Vocabulary} (hv : c.Inv v) :
    c.Inv (Program.ofTokens tokens v).2 ∧
      ∀ program, (Program.ofTokens tokens v).1 = .ok program → c.FitAll program := by
  have hreads := (c.reads (Program.bound tokens)).sequence .text tokens v hv
  unfold Program.ofTokens
  cases hres : Grammar.sequence (Program.bound tokens) .text tokens v with
  | done program rest after =>
    rw [hres] at hreads
    refine ⟨hreads.1, fun program' hprogram => ?_⟩
    obtain rfl := Except.ok.inj hprogram
    exact hreads.2
  | failed e after =>
    rw [hres] at hreads
    exact ⟨hreads, fun program hprogram => nomatch hprogram⟩
  | exhausted => exact ⟨hv, fun program hprogram => nomatch hprogram⟩

/-- **Reading a text keeps the contract**, whether it is a program or not. -/
theorem ofText (text : String) {v : Vocabulary} (hv : c.Inv v) :
    c.Inv (Program.ofText text v).2 ∧
      ∀ program, (Program.ofText text v).1 = .ok program → c.FitAll program := by
  unfold Program.ofText
  cases tokenize text with
  | ok tokens => exact c.ofTokens tokens hv
  | error e => exact ⟨hv, fun program hprogram => nomatch hprogram⟩

end Reader.Contract

/-- Reading leaves alone what names stand for. -/
theorem Program.callables_ofText (text : String) (v : Vocabulary) :
    (Program.ofText text v).2.callables = v.callables :=
  let untouched : Reader.Contract :=
    { Inv := fun after => after.callables = v.callables
      Free := fun _ => True
      free := fun _ _ _ => trivial
      declare := fun _ hv _ => hv }
  (untouched.ofText text rfl).1

end Logo
