import Logo.Machine.Evaluator
import Logo.Proofs.Reading.Derivation
import Logo.Proofs.Text.SmallLetters

/-!
# Programs are well formed

The type of syntax trees has more trees than the reader can give. This file says which trees it
gives, at any depth: what a list holds is data, names are in small letters and come from the tokens,
a called name is known once the reading is over, a defined name was free when it began, and the form
of a conditional tells how many branches it has.

A call is checked against the vocabulary of the moment, which grows while the program is read. What
carries the proof is that it only grows (`Vocabulary.Continues`): a name that is known stays known,
and no name becomes built-in or stops being so.

* `Node.WellFormed`: the trees in question.
* `Grammar.Derives.continues`: reading continues the vocabulary.
* `wellFormed_of_read`: all trees of a program are well formed.
-/

namespace Logo

/-! ## Well-formed trees -/

/-- An item of a list: a word, or a list of such items. -/
inductive Node.IsData : Node → Prop
  | word {text : String} {line : Nat} : IsData (.word text line)
  | list {items : List Node} {line : Nat} : (∀ item ∈ items, IsData item) →
      IsData (.list items line)

/-- A value without numbers, truth values and absent values: a word, or a list of such values. -/
inductive Value.MadeOfWords : Value → Prop
  | word {text : String} : MadeOfWords (.word text)
  | list {members : List Value} : (∀ v ∈ members, MadeOfWords v) → MadeOfWords (.list members)

/-- The name is in small letters the text of a token of a certain form. -/
def SpelledBy (tokens : List Placed) (form : String → Token) (name : String) : Prop :=
  ∃ t ∈ tokens, ∃ text, t.token = form text ∧ name = Text.lower text

/-- A tree that can come from the tokens, if the vocabulary is `before` when the reading begins and
`after` when it is over. -/
inductive Node.WellFormed (tokens : List Placed) (before after : Vocabulary) : Node → Prop
  | number {x : Float} {line : Nat} : WellFormed tokens before after (.number x line)
  | word {text : String} {line : Nat} : WellFormed tokens before after (.word text line)
  | truth {b : Bool} {line : Nat} : WellFormed tokens before after (.truth b line)
  | reference {name : String} {line : Nat} : SpelledBy tokens .reference name →
      WellFormed tokens before after (.reference name line)
  | binary {op : Operator} {left right : Node} {line : Nat} :
      WellFormed tokens before after left → WellFormed tokens before after right →
      WellFormed tokens before after (.binary op left right line)
  | list {items : List Node} {line : Nat} : (∀ item ∈ items, item.IsData) →
      (∀ v ∈ Node.quotedEach items, v.MadeOfWords) →
      WellFormed tokens before after (.list items line)
  | call {name : String} {inputs : List Node} {line : Nat} : SpelledBy tokens .bare name →
      (after.arity? name).isSome → (∀ node ∈ inputs, WellFormed tokens before after node) →
      WellFormed tokens before after (.call name inputs line)
  | definition {name : String} {params : List String} {body : List Node} {line : Nat} :
      SpelledBy tokens .bare name → Grammar.isKeyword name = false →
      before.isBuiltin name = false → (∀ param ∈ params, SpelledBy tokens .reference param) →
      (∀ node ∈ body, WellFormed tokens before after node) →
      WellFormed tokens before after (.definition name params body line)
  | oneBranch {condition thenBranch : Node} {line : Nat} :
      WellFormed tokens before after condition → WellFormed tokens before after thenBranch →
      WellFormed tokens before after (.conditional .oneBranch condition thenBranch none line)
  | twoBranches {condition thenBranch elseBranch : Node} {line : Nat} :
      WellFormed tokens before after condition → WellFormed tokens before after thenBranch →
      WellFormed tokens before after elseBranch → WellFormed tokens before after
        (.conditional .twoBranches condition thenBranch (some elseBranch) line)

/-! ## Lists -/

lemma Itemizes.isData {us : List Placed} {nodes : List Node} (h : Itemizes us nodes) :
    ∀ node ∈ nodes, node.IsData := by
  induction h with
  | nil => exact List.forall_mem_nil _
  | separator _ _ ih => exact ih
  | word _ _ _ ih => exact List.forall_mem_cons.mpr ⟨.word, ih⟩
  | list _ _ _ _ ihinner ihrest => exact List.forall_mem_cons.mpr ⟨.list ihinner, ihrest⟩

lemma Node.quotedEach_eq_map (nodes : List Node) :
    Node.quotedEach nodes = nodes.map Node.quoted := by
  induction nodes with
  | nil => rfl
  | cons node nodes ih => rw [Node.quotedEach, ih, List.map_cons]

/-- Nothing in the value of an item is absent. -/
lemma Node.IsData.quoted {node : Node} (h : node.IsData) : node.quoted.MadeOfWords := by
  induction h with
  | word => exact .word
  | list _ ih =>
    refine .list fun v hv => ?_
    rw [quotedEach_eq_map] at hv
    obtain ⟨item, hitem, rfl⟩ := List.mem_map.mp hv
    exact ih item hitem

/-! ## The vocabulary grows -/

namespace Vocabulary

/-- What is known in `v` is known in `w`, and the same names are built in. -/
structure Continues (w v : Vocabulary) : Prop where
  known : ∀ name, (v.arity? name).isSome → (w.arity? name).isSome
  builtin : ∀ name, w.isBuiltin name = v.isBuiltin name

variable {u v w : Vocabulary}

lemma Continues.refl (v : Vocabulary) : v.Continues v := ⟨fun _ h => h, fun _ => rfl⟩

lemma Continues.trans (hw : w.Continues v) (hv : v.Continues u) : w.Continues u where
  known name h := hw.known name (hv.known name h)
  builtin name := (hw.builtin name).trans (hv.builtin name)

@[simp] lemma arity?_lower (v : Vocabulary) (name : String) :
    v.arity? (Text.lower name) = v.arity? name := by
  rw [arity?, Text.lower_lower, arity?]

/-- A name that is not built in can be declared. -/
lemma Continues.declare {name : String} (hname : v.isBuiltin name = false) (count : Nat) :
    (v.declare name (.fixed count)).Continues v where
  known other h := by
    rw [arity?_declare]
    split
    · rfl
    · exact h
  builtin other := by
    rw [isBuiltin, isBuiltin, callable?_declare, arity?_declare]
    by_cases hother : Text.lower other = Text.lower name
    · -- the name had no rule of its own before, so both sides ask for a built-in procedure
      have hspecial : (v.arity? other == some .special) = false := by
        rw [isBuiltin, Bool.or_eq_false_iff] at hname
        rw [arity?, hother]
        exact hname.2
      rw [if_pos hother, hspecial]
      rfl
    · rw [if_neg hother]

end Vocabulary

namespace Grammar

variable {goal : Goal} {v w before after : Vocabulary} {us rest tokens : List Placed}
  {nodes : List Node}

/-- Reading continues the vocabulary. -/
lemma Derives.continues (h : Derives goal v us rest nodes w) : w.Continues v := by
  induction h with
  | expression _ _ ih ih' | operator _ _ _ ih ih' | oneBranch _ _ _ ih ih' | item _ _ _ _ ih ih'
  | input _ _ ih ih' => exact ih'.trans ih
  | twoBranches _ _ _ _ ih ih' ih'' => exact ih''.trans (ih'.trans ih)
  | minus _ ih | enclosed _ _ _ _ _ ih | groupCall _ _ _ _ ih | call _ _ _ ih => exact ih
  | definition _ _ hbuiltin _ _ _ ih => exact ih.trans (.declare hbuiltin _)
  | _ => exact .refl _

/-! ## Reading gives well-formed trees -/

lemma spelledBy_of_params {heads : List Placed} {params : List String}
    (hheads : heads.map paramName? = params.map some) (hsub : heads ⊆ tokens) :
    ∀ param ∈ params, SpelledBy tokens .reference param := by
  intro param hparam
  obtain ⟨t, ht, hname⟩ : ∃ t ∈ heads, paramName? t = some param :=
    List.mem_map.mp (hheads ▸ List.mem_map_of_mem hparam)
  unfold paramName? at hname
  split at hname
  · next text htoken => exact ⟨t, hsub ht, text, htoken, (Option.some.inj hname).symm⟩
  · cases hname

/-- The operand that a reader of operators starts from. -/
def Goal.left? : Goal → Option Node
  | operators _ left => some left
  | _ => none

/-- The trees of a derivation are well formed, if its tokens are among `tokens` and its vocabularies
lie between `before` and `after`. -/
lemma Derives.wellFormed (h : Derives goal v us rest nodes w) (hus : us ⊆ tokens)
    (hv : v.Continues before) (hw : after.Continues w)
    (hleft : ∀ left ∈ goal.left?, left.WellFormed tokens before after) :
    ∀ node ∈ nodes, node.WellFormed tokens before after := by
  have hnone : ∀ left ∈ (none : Option Node), left.WellFormed tokens before after := by simp
  induction h with
  | expression hoperand hmore ih ih' =>
    obtain ⟨hus, hus'⟩ := List.append_subset.mp hus
    refine ih' hus' (hoperand.continues.trans hv) hw ?_
    simpa [Goal.left?] using ih hus hv (hw.trans hmore.continues) hnone
  | noOperator => simpa [Goal.left?] using hleft
  | operator _ hright hmore ih ih' =>
    obtain ⟨-, hus⟩ := List.cons_subset.mp hus
    obtain ⟨hus, hus'⟩ := List.append_subset.mp hus
    have hnode := List.forall_mem_singleton.mp (ih hus hv (hw.trans hmore.continues) hnone)
    have hstart := hleft _ rfl
    refine ih' hus' (hright.continues.trans hv) hw ?_
    simpa [Goal.left?] using Node.WellFormed.binary hstart hnode
  | number => exact List.forall_mem_singleton.mpr .number
  | word => exact List.forall_mem_singleton.mpr .word
  | truth => exact List.forall_mem_singleton.mpr .truth
  | reference =>
    exact List.forall_mem_singleton.mpr (.reference ⟨_, hus List.mem_cons_self, _, rfl, rfl⟩)
  | minus _ ih =>
    obtain ⟨-, hus⟩ := List.cons_subset.mp hus
    have hnode := List.forall_mem_singleton.mp (ih hus hv hw hnone)
    exact List.forall_mem_singleton.mpr (.binary .number hnode)
  | list hitems =>
    refine List.forall_mem_singleton.mpr (.list hitems.isData fun v hv => ?_)
    rw [Node.quotedEach_eq_map] at hv
    obtain ⟨item, hitem, rfl⟩ := List.mem_map.mp hv
    exact (hitems.isData item hitem).quoted
  | enclosed _ _ _ _ _ ih =>
    obtain ⟨-, hus⟩ := List.cons_subset.mp hus
    simp only [List.append_assoc, List.append_subset] at hus
    exact ih hus.2.1 hv hw hnone
  | groupCall _ _ harity hinputs ih =>
    obtain ⟨-, hus⟩ := List.cons_subset.mp hus
    obtain ⟨-, hus⟩ := List.append_subset.mp hus
    obtain ⟨hname, hus⟩ := List.cons_subset.mp hus
    refine List.forall_mem_singleton.mpr
      (.call ⟨_, hname, _, rfl, rfl⟩ ?_ (ih hus hv hw hnone))
    rw [Vocabulary.arity?_lower]
    exact hw.known _ (hinputs.continues.known _ harity)
  | definition _ hkeyword hbuiltin hheads _ hbody ih =>
    obtain ⟨-, hus⟩ := List.cons_subset.mp hus
    obtain ⟨hname, hus⟩ := List.cons_subset.mp hus
    obtain ⟨hparams, hus⟩ := List.append_subset.mp hus
    refine List.forall_mem_singleton.mpr (.definition ⟨_, hname, _, rfl, rfl⟩ hkeyword
      ((hv.builtin _).symm.trans hbuiltin) (spelledBy_of_params hheads hparams) ?_)
    exact ih hus ((Vocabulary.Continues.declare hbuiltin _).trans hv) hw hnone
  | oneBranch _ hcondition hthen ih ih' =>
    obtain ⟨-, hus⟩ := List.cons_subset.mp hus
    obtain ⟨hus, hus'⟩ := List.append_subset.mp hus
    have hnode := List.forall_mem_singleton.mp (ih hus hv (hw.trans hthen.continues) hnone)
    have hnode' := List.forall_mem_singleton.mp
      (ih' hus' (hcondition.continues.trans hv) hw hnone)
    exact List.forall_mem_singleton.mpr (.oneBranch hnode hnode')
  | twoBranches _ hcondition hthen helse ih ih' ih'' =>
    obtain ⟨-, hus⟩ := List.cons_subset.mp hus
    obtain ⟨hus, hus''⟩ := List.append_subset.mp hus
    obtain ⟨hus, hus'⟩ := List.append_subset.mp hus
    have hv' := hcondition.continues.trans hv
    have hw' := hw.trans helse.continues
    have hnode := List.forall_mem_singleton.mp (ih hus hv (hw'.trans hthen.continues) hnone)
    have hnode' := List.forall_mem_singleton.mp (ih' hus' hv' hw' hnone)
    have hnode'' := List.forall_mem_singleton.mp
      (ih'' hus'' (hthen.continues.trans hv') hw hnone)
    exact List.forall_mem_singleton.mpr (.twoBranches hnode hnode' hnode'')
  | call _ harity hinputs ih =>
    obtain ⟨hname, hus⟩ := List.cons_subset.mp hus
    refine List.forall_mem_singleton.mpr
      (.call ⟨_, hname, _, rfl, rfl⟩ ?_ (ih hus hv hw hnone))
    rw [Vocabulary.arity?_lower]
    exact hw.known _ (hinputs.continues.known _ (Option.isSome_of_eq_some harity))
  | ended | closed | enough | noInput => exact List.forall_mem_nil _
  | item _ _ hnode hmore ih ih' =>
    obtain ⟨hus, hus'⟩ := List.append_subset.mp hus
    obtain ⟨-, hus⟩ := List.append_subset.mp hus
    exact List.forall_mem_cons.mpr
      ⟨List.forall_mem_singleton.mp (ih hus hv (hw.trans hmore.continues) hnone),
        ih' hus' (hnode.continues.trans hv) hw hnone⟩
  | input hnode hmore ih ih' =>
    obtain ⟨hus, hus'⟩ := List.append_subset.mp hus
    exact List.forall_mem_cons.mpr
      ⟨List.forall_mem_singleton.mp (ih hus hv (hw.trans hmore.continues) hnone),
        ih' hus' (hnode.continues.trans hv) hw hnone⟩

end Grammar

/-- **Every program that has been read is well formed**, whatever the tokens and the vocabulary. -/
theorem wellFormed_of_read (tokens : List Placed) (before after : Vocabulary) (program : Program)
    (h : Program.ofTokens tokens before = (.ok program, after)) :
    ∀ node ∈ program, node.WellFormed tokens before after := by
  obtain ⟨us, rest, rfl, -, hderives⟩ := Program.ofTokens_eq_ok_iff.mp h
  exact hderives.wellFormed (List.subset_append_left us rest) (.refl before) (.refl after)
    (by simp [Grammar.Goal.left?])

/-- A definition whose body calls it with a nested list. -/
theorem wellFormed_of_read_nested :
    let tokens : List Placed := [⟨.bare "To", 1, 1⟩, ⟨.bare "Half", 1, 4⟩, ⟨.reference "X", 1, 9⟩,
      ⟨.newline, 1, 0⟩, ⟨.openParen, 2, 1⟩, ⟨.bare "half", 2, 2⟩, ⟨.openBracket, 2, 7⟩,
      ⟨.bare "a", 2, 8⟩, ⟨.openBracket, 2, 10⟩, ⟨.bare "b", 2, 11⟩, ⟨.closeBracket, 2, 12⟩,
      ⟨.closeBracket, 2, 13⟩, ⟨.reference "X", 2, 15⟩, ⟨.closeParen, 2, 17⟩, ⟨.bare "END", 3, 1⟩,
      ⟨.endOfText, 3, 4⟩]
    let program : Program := [.definition "half" ["x"] [.call "half"
      [.list [.word "a" 2, .list [.word "b" 2] 2] 2, .reference "x" 2] 2] 1]
    let after := Vocabulary.standard.declare "half" (.fixed 1)
    Program.ofTokens tokens .standard = (.ok program, after) ∧
      ∀ node ∈ program, node.WellFormed tokens .standard after :=
  ⟨rfl, wellFormed_of_read _ _ _ _ rfl⟩

end Logo
