import Logo.Proofs.Reading.Consumption

/-!
# Calls in parentheses

The inputs of a call are read by two rules. Without parentheses the arity of the name says how many
there are, and a token that ends the line, the text or something around the call ends them before
their time. In parentheses the closing one ends them, the arity has no say, and separators in
between are skipped. Where the first rule leaves off in front of a token that ends it, the second
one finds the same inputs.

What carries this is that no reader looks further than to the next token, and then asks only whether
that is an operator, a parameter or a token that can start an input. A token that ends the inputs is
none of these, so which one it is does not matter.

* `Grammar.Derives.change_rest`: what stops a reader can be exchanged.
* `Grammar.Derives.enclose`: inputs up to the token that ends them, read up to a parenthesis.
* `group_of_call`: a call and the same call in parentheses.
-/

namespace Logo

open Reader Likeness

namespace Grammar

variable {goal : Goal} {ts ts' us rest rest' : List Placed} {v w : Vocabulary}
  {nodes : List Node} {bound : Nat}

/-! ## What follows -/

/-- The same tokens come first, and then both lists have a token that ends the inputs of a call, or
they are over. -/
inductive SameAhead : List Placed → List Placed → Prop
  | ended {ts ts' : List Placed} : endsInputs ts.head? = true → endsInputs ts'.head? = true →
      SameAhead ts ts'
  | cons {ts ts' : List Placed} (t : Placed) : SameAhead ts ts' → SameAhead (t :: ts) (t :: ts')

namespace SameAhead

lemma append (us : List Placed) (h : SameAhead ts ts') : SameAhead (us ++ ts) (us ++ ts') := by
  induction us with
  | nil => exact h
  | cons t us ih => exact ih.cons t

/-- The next token is the same, or it ends the inputs on both sides. -/
lemma head (h : SameAhead ts ts') :
    ts'.head? = ts.head? ∨ (endsInputs ts.head? = true ∧ endsInputs ts'.head? = true) := by
  cases h with
  | ended hts hts' => exact .inr ⟨hts, hts'⟩
  | cons t _ => exact .inl rfl

lemma endsInputs_eq (h : SameAhead ts ts') : endsInputs ts'.head? = endsInputs ts.head? := by
  rcases h.head with hhead | ⟨hts, hts'⟩
  · rw [hhead]
  · rw [hts, hts']

/-- A token that ends the inputs of a call is no operator and no parameter. -/
lemma not_operator_of_endsInputs {t : Placed} (h : endsInputs (some t) = true) :
    (∀ op, t.token ≠ .operator op) ∧ paramName? t = none := by
  cases htoken : t.token <;> simp [endsInputs, htoken] at h <;> simp [paramName?, htoken]

lemma not_operator (h : SameAhead ts ts') {floor : Nat}
    (hts : ∀ op, ts.head?.map Placed.token = some (.operator op) → op.precedence ≤ floor) :
    ∀ op, ts'.head?.map Placed.token = some (.operator op) → op.precedence ≤ floor := by
  intro op hop
  rcases h.head with hhead | ⟨-, hends⟩
  · exact hts op (hhead ▸ hop)
  · obtain ⟨t, ht, htoken⟩ := Option.map_eq_some_iff.mp hop
    rw [ht] at hends
    exact absurd htoken ((not_operator_of_endsInputs hends).1 op)

lemma not_param (h : SameAhead ts ts') (hts : ∀ t ∈ ts.head?, paramName? t = none) :
    ∀ t ∈ ts'.head?, paramName? t = none := by
  intro t ht
  rcases h.head with hhead | ⟨-, hends⟩
  · exact hts t (hhead ▸ ht)
  · rw [Option.mem_def.mp ht] at hends
    exact (not_operator_of_endsInputs hends).2

end SameAhead

/-- What stops a reader can be exchanged: the tokens after a derivation matter only up to the first
one that ends the inputs of a call. A program is the exception, because it ends only with its
text. -/
theorem Derives.change_rest (h : Derives goal v us rest nodes w) (hgoal : goal ≠ .sequence .text)
    (hrest : SameAhead rest rest') : Derives goal v us rest' nodes w := by
  -- what comes after a part of a derivation are the tokens of the other parts and then the rest
  induction h generalizing rest' with
  | expression _ _ ih ih' => exact .expression (ih nofun (hrest.append _)) (ih' nofun hrest)
  | noOperator hle => exact .noOperator (hrest.not_operator hle)
  | operator hfloor _ _ ih ih' =>
    exact .operator hfloor (ih nofun (hrest.append _)) (ih' nofun hrest)
  | number hx => exact .number hx
  | word => exact .word
  | reference => exact .reference
  | truth hword => exact .truth hword
  | minus _ ih => exact .minus (ih nofun hrest)
  | list hitems hclose => exact .list hitems hclose
  | enclosed hss hss' hclose hkeyword _ ih =>
    exact .enclosed hss hss' hclose hkeyword (ih nofun ((hrest.cons _).append _))
  | groupCall hss hkeyword harity _ ih =>
    exact .groupCall hss hkeyword harity (ih nofun hrest)
  | definition hword hkeyword hbuiltin hheads hstop _ ih =>
    exact .definition hword hkeyword hbuiltin hheads ((hrest.append _).not_param hstop)
      (ih nofun hrest)
  | oneBranch hword _ _ ih ih' =>
    exact .oneBranch hword (ih nofun (hrest.append _)) (ih' nofun hrest)
  | twoBranches hword _ _ _ ih ih' ih'' =>
    exact .twoBranches hword (ih nofun (hrest.append _)) (ih' nofun (hrest.append _))
      (ih'' nofun hrest)
  | call hword harity _ ih => exact .call hword harity (ih nofun hrest)
  | ended => exact absurd rfl hgoal
  | closed hss hclose => exact .closed hss hclose
  | item hss hopen _ _ ih ih' =>
    exact .item hss hopen (ih nofun (hrest.append _)) (ih' hgoal hrest)
  | enough => exact .enough
  | noInput hstop => exact .noInput (hrest.endsInputs_eq.trans hstop)
  | input _ _ ih ih' => exact .input (ih nofun (hrest.append _)) (ih' nofun hrest)

/-! ## Inputs in parentheses -/

/-- The inputs of a call that are followed by a token that ends them are those of the call in
parentheses. -/
lemma Derives.enclose {count : Nat} (h : Derives (.inputs count) v us rest nodes w)
    (hrest : endsInputs rest.head? = true) (line : Nat) {close : Placed}
    (hclose : close.token = .closeParen) (more : List Placed) :
    Derives (.sequence (.paren line)) v (us ++ [close]) more nodes w := by
  have hseparators : AllSeparators [] := by simp [AllSeparators]
  have hclosed : Closer.closes (.paren line) close.token = true := by
    rw [hclose]
    rfl
  generalize hgoal : Goal.inputs count = goal at h
  induction h generalizing count with
  | enough => exact .closed hseparators hclosed
  | noInput => exact .closed hseparators hclosed
  | @input count node nodes v v' w us us' rest hnode _ _ ih =>
    -- an input starts with no parenthesis, and what comes after it has a new end
    have hopen : ∀ t ∈ us.head?, Closer.closes (.paren line) t.token = false := by
      intro t ht
      have hhead := hnode.expression_head
      rw [Option.mem_def.mp ht] at hhead
      cases htoken : t.token <;> simp [endsInputs, htoken] at hhead <;> rfl
    have hnode' : Derives (.expression 0) v us (us' ++ [close] ++ more) [node] v' := by
      rw [List.append_assoc]
      have hend : endsInputs ([close] ++ more).head? = true := by simp [endsInputs, hclose]
      exact hnode.change_rest (by simp) ((SameAhead.ended hrest hend).append us')
    have hitem := Derives.item hseparators hopen hnode' (ih hrest rfl)
    rwa [List.nil_append, ← List.append_assoc] at hitem
  | _ => cases hgoal

lemma operand_openParen {line column : Nat} {ts : List Placed} :
    operand (bound + 1) (⟨.openParen, line, column⟩ :: ts) v =
      group (expression bound 0) (sequence bound) line ts v := by
  rw [operand, next_bind_cons]

/-- A call in parentheses is read to its end, with every bound that is enough. -/
lemma group_eq_of_derives {name : String} {line l c : Nat}
    (hkeyword : isKeyword name = false) (harity : (v.arity? name).isSome)
    (h : Derives (.sequence (.paren line)) v us rest nodes w)
    (hbound : Program.bound (⟨.bare name, l, c⟩ :: (us ++ rest)) ≤ bound) :
    group (expression bound 0) (sequence bound) line (⟨.bare name, l, c⟩ :: (us ++ rest)) v =
      .done (.call (Text.lower name) nodes line) rest w := by
  have hseparators : AllSeparators [] := by simp [AllSeparators]
  have hgroup : Derives .operand v (⟨.openParen, line, 0⟩ :: ⟨.bare name, l, c⟩ :: us) rest
      [.call (Text.lower name) nodes line] w := .groupCall hseparators hkeyword harity h
  have hanswer : Goal.operand.read (bound + 1)
      (⟨.openParen, line, 0⟩ :: ⟨.bare name, l, c⟩ :: (us ++ rest)) v ≠ .exhausted := fun hres =>
    (progressive_group line).answers _ v bound hbound
      (operand_openParen.symm.trans (single_eq_exhausted hres))
  exact operand_openParen.symm.trans (done_of_single (hgroup.read_eq hanswer))

/-- The inputs that a call without parentheses takes. -/
lemma exists_derives_of_call {name : String} {count line : Nat} {ts : List Placed} {node : Node}
    (harity : v.arity? name = some (.fixed count))
    (h : call (inputs bound) name line (ts ++ rest) v = .done node rest w) :
    ∃ nodes, node = .call (Text.lower name) nodes line ∧
      Derives (.inputs count) v ts rest nodes w := by
  obtain ⟨v', ts', v'', hv, hcall⟩ := exists_of_bind_eq_done h
  cases hv
  rw [harity] at hcall
  obtain ⟨nodes, mid, w', hnodes, hgive⟩ := exists_of_bind_eq_done hcall
  cases hgive
  obtain ⟨us, hus, hderives⟩ := (sound bound).inputs hnodes
  obtain rfl := List.append_cancel_right hus
  exact ⟨nodes, rfl, hderives⟩

end Grammar

open Grammar

/-- **Parentheses around a call change nothing.** Let a call of a name with an arity, without
parentheses, take some tokens in front of one that ends its inputs. Then the name, the same tokens
and a closing parenthesis are a group, whatever follows it. The group is a call with the same
inputs, also if they are fewer than the arity says, and it leaves the same vocabulary. -/
theorem group_of_call {name : String} {count line bound : Nat} {ts tail : List Placed}
    {v w : Vocabulary} {node : Node} (hkeyword : isKeyword name = false)
    (harity : v.arity? name = some (.fixed count)) (htail : endsInputs tail.head? = true)
    (h : call (inputs bound) name line (ts ++ tail) v = .done node tail w) :
    ∃ nodes, node = .call (Text.lower name) nodes line ∧
      ∀ line' l c close more bound', close.token = .closeParen →
        Program.bound (⟨.bare name, l, c⟩ :: (ts ++ close :: more)) ≤ bound' →
        group (expression bound' 0) (sequence bound') line'
            (⟨.bare name, l, c⟩ :: (ts ++ close :: more)) v =
          .done (.call (Text.lower name) nodes line') more w := by
  obtain ⟨nodes, rfl, hinputs⟩ := exists_derives_of_call harity h
  refine ⟨nodes, rfl, fun line' l c close more bound' hclose hbound => ?_⟩
  have hsequence := hinputs.enclose htail line' hclose more
  have hknown : (v.arity? name).isSome := Option.isSome_of_eq_some harity
  rw [List.append_cons] at hbound ⊢
  exact group_eq_of_derives hkeyword hknown hsequence hbound

/-- A call that asks for two inputs and is stopped by a line end after one of them, a definition. -/
theorem group_of_call_stopped :
    let ts : List Placed := [⟨.bare "to", 3, 5⟩, ⟨.bare "f", 3, 8⟩, ⟨.reference "x", 3, 10⟩,
      ⟨.newline, 3, 0⟩, ⟨.bare "end", 4, 1⟩]
    let tail : List Placed := [⟨.newline, 4, 0⟩, ⟨.closeParen, 5, 1⟩]
    let more : List Placed := [⟨.word "y", 4, 6⟩]
    let inputs : List Node := [.definition "f" ["x"] [] 3]
    let after := Vocabulary.standard.declare "f" (.fixed 1)
    isKeyword "Sum" = false ∧ Vocabulary.standard.arity? "Sum" = some (.fixed 2) ∧
      endsInputs tail.head? = true ∧
      call (Grammar.inputs 24) "Sum" 3 (ts ++ tail) .standard =
        .done (.call "sum" inputs 3) tail after ∧
      group (expression 27 0) (sequence 27) 1
          (⟨.bare "Sum", 1, 2⟩ :: (ts ++ ⟨.closeParen, 4, 4⟩ :: more)) .standard =
        .done (.call "sum" inputs 1) more after := by
  intro ts tail more inputs after
  have hkeyword : isKeyword "Sum" = false := by decide +kernel
  have harity : Vocabulary.standard.arity? "Sum" = some (.fixed 2) := by decide +kernel
  have hcall : call (Grammar.inputs 24) "Sum" 3 (ts ++ tail) .standard =
      .done (.call "sum" inputs 3) tail after := rfl
  obtain ⟨nodes, hnode, hgroup⟩ := group_of_call hkeyword harity rfl hcall
  obtain ⟨hname, rfl, -⟩ := Node.call.inj hnode
  rw [← hname] at hgroup
  exact ⟨hkeyword, harity, rfl, hcall, hgroup 1 1 2 _ more 27 rfl (by decide)⟩

end Logo
