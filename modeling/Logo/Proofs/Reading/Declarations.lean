import Logo.Proofs.Reading.Headings

/-!
# What a program declares

The reader of a definition declares the name as soon as it has read the heading, in the midst of
whatever is being read, and what it has declared stays so if an error follows. This file says which
declarations these are: reading declares the headings that stand in the tokens, from the first one
on. If it gives a tree, then the headings of the tokens that were taken are those of the tree; if it
fails, some of the first headings have been declared and the others have not.

* `Reader.Result.Declares`: what a result has declared of the headings.
* `Grammar.DeclaringReaders`: the five readers that call each other.
* `vocabulary_of_read`: how a program changes the vocabulary.
-/

namespace Logo

open Reader Likeness Grammar

variable {α β : Type} {f : α → List Heading} {g : β → List Heading} {ds hs : List Heading}
  {ts : List Placed} {v : Vocabulary} {line : Nat}

/-! ## Declaring readers -/

/-- Of the headings `hs`, those of the value have been declared, and those of the tokens that are
left are still to come. An error may come after any of them. -/
inductive Reader.Result.Declares (f : α → List Heading) (hs : List Heading) (v : Vocabulary) :
    Result α → Prop
  | done (a : α) (rest : List Placed) : hs = f a ++ headings rest →
      Declares f hs v (.done a rest (v.declareAll (f a)))
  | failed (e : ParseError) (ds : List Heading) : ds <+: hs →
      Declares f hs v (.failed e (v.declareAll ds))
  | exhausted : Declares f hs v .exhausted

/-- The reader, if it starts after the headings `ds`, declares those of the tokens. Both together
are the headings of the value. -/
def Reader.Declares (ds : List Heading) (f : α → List Heading) (r : Reader α) : Prop :=
  ∀ ts v, (r ts (v.declareAll ds)).Declares f (ds ++ headings ts) v

namespace Reader.Result.Declares

/-- A value without headings, before any of them. -/
lemma plain {a : α} (h : f a = []) : (.done a ts v : Result α).Declares f (headings ts) v := by
  have hdone : (.done a ts (v.declareAll (f a)) : Result α).Declares f (headings ts) v :=
    .done a ts (by rw [h, List.nil_append])
  rwa [h] at hdone

/-- An error before any of the headings. -/
lemma early (e : ParseError) : (.failed e v : Result α).Declares f hs v :=
  .failed e [] List.nil_prefix

/-- What follows other headings. -/
lemma after (ds : List Heading) {result : Result α}
    (h : result.Declares f hs (v.declareAll ds)) :
    result.Declares (fun a => ds ++ f a) (ds ++ hs) v := by
  cases h with
  | done a rest h =>
    rw [← Vocabulary.declareAll_append]
    exact .done a rest (by rw [h, List.append_assoc])
  | failed e ds' h =>
    rw [← Vocabulary.declareAll_append]
    exact .failed e (ds ++ ds') ((List.prefix_append_right_inj ds).mpr h)
  | exhausted => exact .exhausted

/-- Readers one after the other. -/
lemma bind {r : Reader α} {next : α → Reader β} {w : Vocabulary} (h : (r ts w).Declares f hs v)
    (hnext : ∀ a, (next a).Declares (f a) g) : ((r >>= next) ts w).Declares g hs v := by
  show (andThen r next ts w).Declares g hs v
  unfold andThen
  generalize r ts w = result at h
  cases h with
  | done a rest h =>
    rw [h]
    exact hnext a rest v
  | failed e ds h => exact .failed e ds h
  | exhausted => exact .exhausted

end Reader.Result.Declares

namespace Reader.Declares

lemma give {a : α} (h : f a = ds) : (Reader.give a).Declares ds f := by
  subst h
  exact fun ts _ => .done a ts rfl

lemma fail (e : ParseError) : (Reader.fail e : Reader α).Declares ds f :=
  fun _ _ => .failed e ds (List.prefix_append ds _)

lemma vocabulary : Reader.vocabulary.Declares ds fun _ => ds := fun ts _ => .done _ ts rfl

lemma after {r : Reader α} (h : r.Declares [] f) (ds : List Heading) :
    r.Declares ds fun a => ds ++ f a := fun ts v => (h ts (v.declareAll ds)).after ds

lemma bind {r : Reader α} {next : α → Reader β} (h : r.Declares ds f)
    (hnext : ∀ a, (next a).Declares (f a) g) : (r >>= next).Declares ds g :=
  fun ts v => (h ts v).bind hnext

end Reader.Declares

namespace Grammar

/-! ## Readers that are made of others -/

/-- A list declares nothing, whatever stands in it and whether it is closed or not. -/
lemma list_keeps_vocabulary (line : Nat) (ts : List Placed) (v : Vocabulary) :
    (∃ node rest, list line ts v = .done node rest v) ∨ ∃ e, list line ts v = .failed e v := by
  unfold list
  cases listItems line [] [] ts with
  | ok found => exact .inl ⟨found.1, found.2, rfl⟩
  | error e => exact .inr ⟨e, rfl⟩

lemma declares_list (line column : Nat) (ts : List Placed) (v : Vocabulary) :
    (list line ts v).Declares Node.headings (headings (⟨.openBracket, line, column⟩ :: ts)) v := by
  rcases list_keeps_vocabulary line ts v with ⟨node, rest, hlist⟩ | ⟨e, hlist⟩
  · obtain ⟨inner, close, nodes, rfl, hclose, hitems, rfl, -⟩ := exists_itemizes_of_list hlist
    rw [hlist, headings_list rfl hclose hitems.balanced]
    exact .plain rfl
  · rw [hlist]
    exact .early e

/-- Either the name of a definition is missing or cannot be used, or it is read. -/
lemma definedName_cases (line : Nat) (ts : List Placed) (v : Vocabulary) :
    (∃ e, definedName line ts v = .failed e v) ∨
    ∃ word l c rest, ts = ⟨.bare word, l, c⟩ :: rest ∧ isKeyword word = false ∧
      definedName line ts v = .done (Text.lower word) rest v := by
  rcases ts with _ | ⟨⟨token, l, c⟩, ts⟩
  · exact .inl ⟨_, rfl⟩
  · cases token with
    | bare word =>
      rw [definedName_bare, isKeyword_lower]
      split
      · exact .inl ⟨_, rfl⟩
      · next hfree =>
        simp only [Bool.or_eq_true, not_or, Bool.not_eq_true] at hfree
        exact .inr ⟨word, l, c, ts, rfl, hfree.1, rfl⟩
    | _ => exact .inl ⟨_, rfl⟩

/-- A definition declares its heading, and then those in its body. -/
lemma declares_definition {xs : Closer → Reader (List Node)} {word : String}
    (hxs : ∀ closer, (xs closer).Declares [] Node.headingsEach)
    (hword : Opening.ofWord word = .definition) (line column : Nat) (ts : List Placed)
    (v : Vocabulary) : (definition xs line ts v).Declares Node.headings
      (headings (⟨.bare word, line, column⟩ :: ts)) v := by
  rcases definedName_cases line ts v with
    ⟨e, hname⟩ | ⟨name, l, c, rest, rfl, hkeyword, hname⟩
  · have hfailed : definition xs line ts v = .failed e v := by
      simp only [definition, Bind.bind, andThen, hname]
    rw [hfailed]
    exact .early e
  · obtain ⟨names, more, hnames⟩ : ∃ names more, params rest v = .done names more v := ⟨_, _, rfl⟩
    obtain ⟨heads, rfl, hheads, hmore, -⟩ := exists_heads_of_params hnames
    have hdeclared : definition xs line (⟨.bare name, l, c⟩ :: (heads ++ more)) v =
        (xs (.definition (Text.lower name) line) >>= fun body =>
          give (.definition (Text.lower name) names body line)) more
          (v.declareAll [⟨Text.lower name, names.length⟩]) := by
      rw [definition, bind_of_done hname, bind_of_done hnames]
      rfl
    have hlength : heads.length = names.length := by
      simpa using congrArg List.length hheads
    have hparams : ∀ t ∈ heads, (paramName? t).isSome := by
      intro t ht
      have hmem : paramName? t ∈ names.map some := hheads ▸ List.mem_map_of_mem ht
      obtain ⟨param, -, hparam⟩ := List.mem_map.mp hmem
      rw [← hparam]
      rfl
    rw [hdeclared, headings_definition hword hkeyword hparams hmore, hlength]
    refine ((hxs _).after [⟨Text.lower name, names.length⟩]).bind (fun body => ?_) more v
    exact .give rfl

lemma declares_closing (node : Node) :
    (closing line node).Declares node.headings Node.headings := by
  intro ts v
  unfold closing
  rw [← headings_dropSeparators ts]
  rcases dropSeparators ts with _ | ⟨⟨token, l, c⟩, ts⟩
  · exact .failed _ _ (List.prefix_append _ _)
  · split
    · next hclose =>
      obtain rfl : token = .closeParen := by simpa using hclose
      rw [headings_cons (by simp [IsPlain])]
      exact .done node ts rfl
    · exact .failed _ _ (List.prefix_append _ _)

lemma declares_group {x : Reader Node} {xs : Closer → Reader (List Node)}
    (hx : x.Declares [] Node.headings)
    (hxs : ∀ closer, (xs closer).Declares [] Node.headingsEach) :
    (group x xs line).Declares [] Node.headings := by
  have henclosed : (group.enclosed x line).Declares [] Node.headings := by
    rw [enclosed_eq]
    exact hx.bind fun node => declares_closing node
  intro ts v
  rw [← group_dropSeparators, ← headings_dropSeparators]
  have hidem : dropSeparators (dropSeparators ts) = dropSeparators ts := dropSeparators_idem
  generalize dropSeparators ts = ts at hidem
  rcases ts with _ | ⟨⟨token, l, c⟩, ts⟩
  · rw [group_other hidem (by simp)]
    exact henclosed [] v
  cases token with
  | bare name =>
    rw [group_bare]
    split
    · exact henclosed _ v
    · next hname =>
      rw [headings_cons (isPlain_name (Bool.eq_false_iff.mpr hname))]
      split
      · exact .early _
      · refine (hxs _).bind (fun inputs => ?_) ts v
        exact .give rfl
  | _ =>
    rw [group_other hidem (by simp)]
    exact henclosed _ v

lemma declares_branch {x : Reader Node} (hx : x.Declares [] Node.headings) :
    (branch x line).Declares [] Node.headings := by
  intro ts v
  rw [branch_eq]
  split
  · exact .early _
  · exact hx ts v

lemma declares_conditional {x : Reader Node} (hx : x.Declares [] Node.headings)
    (form : ConditionalForm) : (conditional x form line).Declares [] Node.headings := by
  have hbranch : (branch x line).Declares [] Node.headings := declares_branch hx
  refine hbranch.bind fun condition => (hbranch.after _).bind fun thenBranch => ?_
  cases form with
  | oneBranch => exact .give (List.append_nil _)
  | twoBranches => exact (hbranch.after _).bind fun elseBranch => .give rfl

lemma declares_call {xs : Nat → Reader (List Node)}
    (hxs : ∀ count, (xs count).Declares [] Node.headingsEach) (name : String) :
    (call xs name line).Declares [] Node.headings := by
  refine Declares.vocabulary.bind fun v => ?_
  split
  · exact (hxs _).bind fun nodes => .give rfl
  · exact .fail _
  · exact .fail _

lemma declares_atEnd (closer : Closer) : closer.atEnd.Declares [] Node.headingsEach := by
  cases closer with
  | text => exact .give rfl
  | paren line => exact .fail _
  | definition name line => exact .fail _

/-! ## The mutual recursion -/

/-- The five readers with a bound declare the headings of what they read. The operators come after
the headings of their left operand. -/
structure DeclaringReaders (bound : Nat) : Prop where
  expression : ∀ floor, (expression bound floor).Declares [] Node.headings
  operators : ∀ floor left, (operators bound floor left).Declares left.headings Node.headings
  operand : (operand bound).Declares [] Node.headings
  sequence : ∀ closer, (sequence bound closer).Declares [] Node.headingsEach
  inputs : ∀ count, (inputs bound count).Declares [] Node.headingsEach

namespace DeclaringReaders

variable {bound : Nat} (ih : DeclaringReaders bound)
include ih

lemma operators_succ (floor : Nat) (left : Node) :
    (Grammar.operators (bound + 1) floor left).Declares left.headings Node.headings := by
  intro ts v
  rcases ts with _ | ⟨⟨token, l, c⟩, ts⟩
  · rw [operators_other (by simp)]
    exact .done left _ rfl
  · cases token with
    | operator op =>
      rw [operators_operator]
      split
      · rw [headings_cons (by simp [IsPlain])]
        refine ((ih.expression _).after _).bind (fun right => ?_) ts v
        exact ih.operators floor (.binary op left right l)
      · exact .done left _ rfl
    | _ =>
      rw [operators_other (by simp)]
      exact .done left _ rfl

lemma operand_succ : (Grammar.operand (bound + 1)).Declares [] Node.headings := by
  intro ts v
  rcases ts with _ | ⟨⟨token, l, c⟩, ts⟩
  · rw [operand_of_isEnd rfl]
    exact .early _
  have hplain : IsPlain token → headings (⟨token, l, c⟩ :: ts) = headings ts :=
    fun h => headings_cons h
  have hexpression := ih.expression 0
  rw [Grammar.operand, next_bind_cons]
  cases token with
  | number text =>
    rw [hplain (by simp [IsPlain])]
    dsimp only
    cases Number.read? text with
    | some x => exact .plain rfl
    | none => exact .early _
  | word | reference =>
    rw [hplain (by simp [IsPlain])]
    exact .plain rfl
  | operator op =>
    rw [hplain (by simp [IsPlain])]
    cases op with
    | sub =>
      refine ih.operand.bind (fun node => ?_) ts v
      exact .give rfl
    | _ => exact .early _
  | openParen =>
    rw [hplain (by simp [IsPlain])]
    exact declares_group hexpression ih.sequence ts v
  | openBracket => exact declares_list l c ts v
  | bare word =>
    have hword : Opening.ofWord word ≠ .definition →
        headings (⟨.bare word, l, c⟩ :: ts) = headings ts := fun h => hplain (isPlain_word h)
    dsimp only
    cases hopening : Opening.ofWord word with
    | definition => exact declares_definition ih.sequence hopening l c ts v
    | conditional form =>
      rw [hword (by simp [hopening])]
      exact declares_conditional hexpression form ts v
    | truth value =>
      rw [hword (by simp [hopening])]
      exact .plain rfl
    | stray => exact .early _
    | call =>
      rw [hword (by simp [hopening])]
      exact declares_call ih.inputs word ts v
  | _ => exact .early _

lemma sequence_succ (closer : Closer) :
    (Grammar.sequence (bound + 1) closer).Declares [] Node.headingsEach := by
  intro ts v
  rw [← headings_dropSeparators]
  rcases hts : dropSeparators ts with _ | ⟨t, rest⟩
  · rw [sequence_of_isEnd (by simp [hts, isEnd]), hts]
    exact declares_atEnd closer [] v
  by_cases hend : t.token = .endOfText
  · rw [sequence_of_isEnd (by rw [hts, isEnd_cons.mpr hend]), hts]
    exact declares_atEnd closer (t :: rest) v
  rw [sequence_cons hts hend]
  split
  · next hcloses =>
    rw [headings_cons (isPlain_of_closes hcloses)]
    exact .plain rfl
  · refine (ih.expression 0).bind (fun node => ?_) (t :: rest) v
    exact ((ih.sequence closer).after _).bind fun nodes => .give rfl

lemma inputs_succ (count : Nat) :
    (Grammar.inputs (bound + 1) count).Declares [] Node.headingsEach := by
  cases count with
  | zero => exact .give rfl
  | succ count =>
    intro ts v
    rw [Grammar.inputs_succ]
    split
    · exact .plain rfl
    · refine (ih.expression 0).bind (fun node => ?_) ts v
      exact ((ih.inputs count).after _).bind fun nodes => .give rfl

omit ih in
/-- The readers of the grammar declare the headings of what they read. -/
lemma all (bound : Nat) : DeclaringReaders bound := by
  induction bound with
  | zero =>
    exact ⟨fun _ _ _ => .exhausted, fun _ _ _ _ => .exhausted, fun _ _ => .exhausted,
      fun _ _ _ => .exhausted, fun _ _ _ => .exhausted⟩
  | succ bound ih =>
    exact ⟨fun floor => ih.operand.bind fun left => ih.operators floor left, ih.operators_succ,
      ih.operand_succ, ih.sequence_succ, ih.inputs_succ⟩

end DeclaringReaders

end Grammar

/-! ## Programs -/

lemma Program.declares_sequence (tokens : List Placed) (v : Vocabulary) :
    (sequence (bound tokens) .text tokens v).Declares Node.headingsEach (headings tokens) v :=
  (DeclaringReaders.all _).sequence .text tokens v

/-- Reading declares some of the headings, from the first one on. -/
lemma Program.exists_declared (tokens : List Placed) (v : Vocabulary) :
    ∃ ds, ds <+: headings tokens ∧ (ofTokens tokens v).2 = v.declareAll ds := by
  have hdeclares := declares_sequence tokens v
  rw [ofTokens_eq_ofResult]
  generalize sequence (bound tokens) .text tokens v = result at hdeclares
  cases hdeclares with
  | done program rest h => exact ⟨Node.headingsEach program, h ▸ List.prefix_append _ _, rfl⟩
  | failed e ds h => exact ⟨ds, h, rfl⟩
  | exhausted => exact ⟨[], List.nil_prefix, rfl⟩

/-- Without the mark of the end, a program takes all tokens. -/
lemma rest_eq_nil_of_read {bound : Nat} {program : Program} {rest : List Placed} {w : Vocabulary}
    (hts : ∀ t ∈ ts, t.token ≠ .endOfText)
    (h : sequence bound .text ts v = .done program rest w) : rest = [] := by
  obtain ⟨us, rfl, hderives⟩ := (sound bound).sequence h
  have hend : isEnd rest.head? = true := hderives.isEnd_of_text rfl
  rcases rest with _ | ⟨t, rest⟩
  · rfl
  · exact absurd (isEnd_cons.mp hend) (hts t (by simp))

/-- A program that has been read has declared all headings up to the end of the text. They are those
of its definitions. -/
lemma Program.declared_of_read {tokens : List Placed} {program : Program} {w : Vocabulary}
    (h : ofTokens tokens v = (.ok program, w)) :
    Node.headingsEach program = headings (beforeEnd tokens) ∧
      w = v.declareAll (headings (beforeEnd tokens)) := by
  have hmarks : ∀ t ∈ beforeEnd tokens, t.token ≠ .endOfText := by
    intro t ht
    simpa using List.mem_takeWhile_imp (p := fun t : Placed => t.token != .endOfText) ht
  have hdeclares := declares_sequence (beforeEnd tokens) v
  have hread := ofTokens_beforeEnd h
  rw [ofTokens_eq_ofResult] at hread
  generalize hresult : sequence (bound (beforeEnd tokens)) .text (beforeEnd tokens) v = result
    at hdeclares hread
  cases hdeclares with
  | done program' rest hheadings =>
    obtain ⟨hprogram, rfl⟩ := Prod.mk.inj hread
    obtain rfl := Except.ok.inj hprogram
    rw [rest_eq_nil_of_read hmarks hresult] at hheadings
    have hall : headings (beforeEnd tokens) = Node.headingsEach program' :=
      hheadings.trans (List.append_nil _)
    exact ⟨hall.symm, by rw [hall]⟩
  | failed e ds _ => simp [ofResult] at hread
  | exhausted => simp [ofResult] at hread

/-- **A program changes the vocabulary by the headings of its definitions and by nothing else**,
whether it can be read or not.
* What names stand for stays the same. The arities that have been recorded are those of some
  headings outside of brackets, from the first one on.
* So if the arity of a name has changed, the tokens hold a heading of that name outside of brackets,
  and the arity is the number of the parameters there.
* If the program has been read, its definitions, at any depth, have the headings that stand before
  the mark of the end. All of these have been recorded, and the last one of a name tells the arity.
* In a list nothing is declared, whether it is closed or not, and what stands in it has no say in
  which headings there are. -/
theorem vocabulary_of_read (tokens : List Placed) (v : Vocabulary) :
    ((Program.ofTokens tokens v).2.callables = v.callables ∧
      ∃ ds, ds <+: headings tokens ∧ (Program.ofTokens tokens v).2 = v.declareAll ds) ∧
    (∀ name, (Program.ofTokens tokens v).2.arity? name ≠ v.arity? name →
      ∃ name' params later, HoldsHeading tokens name' params later ∧
        Text.lower name' = Text.lower name ∧
        (Program.ofTokens tokens v).2.arity? name = some (.fixed params.length)) ∧
    (∀ program w, Program.ofTokens tokens v = (.ok program, w) →
      Node.headingsEach program = headings (beforeEnd tokens) ∧
      w = v.declareAll (headings (beforeEnd tokens)) ∧
      ∀ name params later, HoldsHeading (beforeEnd tokens) name params later →
        (∀ name' params' later', HoldsHeading later name' params' later' →
          Text.lower name' ≠ Text.lower name) →
        w.arity? name = some (.fixed params.length)) ∧
    (∀ line, (∃ node rest, Grammar.list line tokens v = .done node rest v) ∨
      ∃ e, Grammar.list line tokens v = .failed e v) ∧
    ∀ before inner o, o.token = .openBracket → Balanced inner →
      headings (before ++ o :: (inner ++ tokens)) = headings (before ++ o :: tokens) := by
  obtain ⟨ds, hfirst, hdeclared⟩ := Program.exists_declared tokens v
  refine ⟨⟨?_, ds, hfirst, hdeclared⟩, fun name hname => ?_, fun program w hread => ?_,
    fun line => list_keeps_vocabulary line tokens v,
    fun before inner o ho hinner => headings_inside ho hinner before tokens⟩
  · rw [hdeclared, Vocabulary.callables_declareAll]
  · rw [hdeclared] at hname ⊢
    obtain ⟨d, hd, hlower, harity⟩ := Vocabulary.exists_heading_of_arity?_ne hname
    obtain ⟨name', params, later, hholds, rfl⟩ := exists_holdsHeading (hfirst.subset hd)
    exact ⟨name', params, later, hholds, (Text.lower_lower name').symm.trans hlower, harity⟩
  · obtain ⟨hprogram, rfl⟩ := Program.declared_of_read hread
    refine ⟨hprogram, rfl, fun name params later hholds hlast => ?_⟩
    obtain ⟨earlier, hheadings⟩ := hholds.exists_earlier
    rw [hheadings]
    refine Vocabulary.arity?_declareAll_last (Text.lower_lower name) fun d hd => ?_
    obtain ⟨name', params', later', hholds', rfl⟩ := exists_holdsHeading hd
    rw [Text.lower_lower]
    exact hlast name' params' later' hholds'

/-- A definition in another one, next to a list with the words of a third, and then a definition
that replaces the first. The other tokens end in an error after a heading, and what has been
declared stays. -/
theorem vocabulary_of_read_replaced :
    let before : List Placed := [⟨.bare "To", 1, 1⟩, ⟨.bare "F", 1, 4⟩, ⟨.reference "x", 1, 6⟩,
      ⟨.openBracket, 1, 9⟩, ⟨.bare "to", 1, 10⟩, ⟨.bare "h", 1, 13⟩, ⟨.closeBracket, 1, 14⟩,
      ⟨.bare "to", 1, 16⟩, ⟨.bare "g", 1, 19⟩, ⟨.bare "end", 1, 21⟩, ⟨.bare "end", 1, 25⟩,
      ⟨.openParen, 1, 29⟩]
    let later : List Placed := [⟨.bare "f", 1, 33⟩, ⟨.bare "end", 1, 35⟩, ⟨.closeParen, 1, 38⟩]
    let tokens := before ++ ⟨.bare "to", 1, 30⟩ :: later
    let program : Program := [.definition "f" ["x"]
      [.list [.word "to" 1, .word "h" 1] 1, .definition "g" [] [] 1] 1, .definition "f" [] [] 1]
    let others : List Placed := [⟨.bare "to", 1, 1⟩, ⟨.bare "K", 1, 4⟩, ⟨.reference "a", 1, 6⟩,
      ⟨.reference "b", 1, 9⟩, ⟨.closeBracket, 1, 11⟩]
    let after := ((Vocabulary.standard.declare "f" (.fixed 1)).declare "g" (.fixed 0)).declare "f"
      (.fixed 0)
    Program.ofTokens tokens .standard = (.ok program, after) ∧
      Node.headingsEach program = headings (beforeEnd tokens) ∧
      HoldsHeading (beforeEnd tokens) "f" [] later ∧ after.arity? "f" = some (.fixed 0) ∧
      (Program.ofTokens others .standard).2.arity? "k" ≠ Vocabulary.standard.arity? "k" ∧
      ∃ name params later, HoldsHeading others name params later ∧
        Text.lower name = Text.lower "k" ∧
        (Program.ofTokens others .standard).2.arity? "k" = some (.fixed params.length) := by
  intro before later tokens program others after
  have hread : Program.ofTokens tokens .standard = (.ok program, after) := rfl
  have hprogram := (vocabulary_of_read tokens .standard).2.2.1 program after hread
  have hholds : HoldsHeading (beforeEnd tokens) "f" [] later :=
    HoldsHeading.intro (l := 1) (c := 30) (by decide : bracketDepth before = 0) (by decide +kernel)
      (List.forall_mem_nil _) (by decide)
  have hlast : headings later = [] := rfl
  have hchanged :
      (Program.ofTokens others .standard).2.arity? "k" ≠ Vocabulary.standard.arity? "k" := by
    decide +kernel
  refine ⟨hread, hprogram.1, hholds, hprogram.2.2 "f" [] later hholds ?_, hchanged,
    (vocabulary_of_read others .standard).2.1 "k" hchanged⟩
  intro name params more hmore
  obtain ⟨earlier, hearlier⟩ := hmore.exists_earlier
  simp [hlast] at hearlier

end Logo
