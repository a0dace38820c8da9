import Logo.Proofs.Reading.Nesting

/-!
# What readers take

A reader that gives a value has taken tokens from the front of the list and left the others as they
were. It has taken at least one, unless it reads a sequence, which may be empty, and it never takes
the mark of the end. The first follows from derivations, which list the tokens that are taken one by
one, and the second from the nesting of these tokens.

That something is taken between two calls of the same reader is also why the recursion ends: with
`Program.bound` as its bound, and with every larger one, no reader ends without an answer. So the
bound has no say in what is read.

* `Reader.Progressive`: a family of readers that come to an end and take tokens.
* `Grammar.Derives.read_eq`: a reader that answers gives what has been derived.
* `readers_progress`: all readers of the grammar that read one tree are progressive.
-/

namespace Logo

open Reader Likeness

variable {α : Type} {ts us rest : List Placed} {v w : Vocabulary} {nodes : List Node} {bound : Nat}

lemma Reader.Takes.ne_exhausted {r : Reader α} {k : Nat} (h : r.Takes k ts.length) :
    r ts v ≠ .exhausted := by
  intro hres
  have hsettles := h ts v (Nat.le_refl _)
  rwa [hres] at hsettles

namespace Grammar

variable {goal : Goal}

/-! ## The tokens of a derivation -/

lemma Goal.Nests.ne_endOfText (h : goal.Nests us) : ∀ t ∈ us, t.token ≠ .endOfText := by
  cases goal with
  | sequence closer =>
    unfold Goal.Nests at h
    cases henclosure : closer.enclosure? with
    | none =>
      simp only [henclosure] at h
      exact h.ne_endOfText
    | some e =>
      simp only [henclosure] at h
      obtain ⟨inner, close, rfl, hinner, hclose⟩ := h
      refine List.forall_mem_append.mpr ⟨hinner.ne_endOfText, ?_⟩
      exact List.forall_mem_singleton.mpr (Enclosure.ne_endOfText_of_closedBy hclose)
  | _ => exact WellNested.ne_endOfText h

lemma ne_nil_of_head (h : endsInputs us.head? = false) : us ≠ [] := by
  rintro rfl
  cases h

/-- The token opens an operand that goes on after it. -/
inductive OpensOperand : Token → Prop
  | group : OpensOperand .openParen
  | list : OpensOperand .openBracket
  | definition {word : String} : Opening.ofWord word = .definition → OpensOperand (.bare word)
  | conditional {word : String} {form : ConditionalForm} :
      Opening.ofWord word = .conditional form → OpensOperand (.bare word)

/-- A token that opens an operand is not all of it. -/
lemma OpensOperand.ne_nil {t : Placed} (ht : OpensOperand t.token)
    (h : Derives .operand v (t :: us) rest nodes w) : us ≠ [] := by
  cases h with
  | number | word | reference | minus => cases ht
  | truth hword =>
    cases ht with
    | definition hword' => cases hword.symm.trans hword'
    | conditional hword' => cases hword.symm.trans hword'
  | call hword =>
    cases ht with
    | definition hword' => cases hword.symm.trans hword'
    | conditional hword' => cases hword.symm.trans hword'
  | oneBranch _ hcondition | twoBranches _ hcondition =>
    simp [ne_nil_of_head hcondition.expression_head]
  | _ => simp

/-! ## Bounds -/

lemma single_eq_exhausted {r : Reader Node} (h : single r ts v = .exhausted) :
    r ts v = .exhausted := by
  simp only [single, bind, andThen] at h
  cases hr : r ts v with
  | done node rest w => simp [hr, give] at h
  | failed e w => simp [hr] at h
  | exhausted => rfl

/-- The tokens are compared with themselves, line by line. -/
abbrev sameLines : Likeness := lines id id id monotone_id monotone_id

lemma sim_single {r s : Reader Node} (h : sameLines.Sim sameLines.SameNode r s) :
    sameLines.Sim sameLines.SameNodes (single r) (single s) :=
  h.bind fun _ _ hnode => sim_give (hnode.cons rfl)

/-- A larger bound keeps the answer. -/
lemma sim_read (goal : Goal) {bound' : Nat} (h : bound ≤ bound') :
    sameLines.Sim sameLines.SameNodes (goal.read bound) (goal.read bound') := by
  have hsimulates := simulates sameLines bound
  cases goal with
  | expression floor => exact sim_single (hsimulates.expression bound' h floor)
  | operators floor left => exact sim_single (hsimulates.operators bound' h floor left left rfl)
  | operand => exact sim_single (hsimulates.operand bound' h)
  | sequence closer =>
    refine hsimulates.sequence bound' h closer closer ?_ False.elim
    cases closer with
    | text => exact .text
    | paren line => exact .paren rfl
    | definition name line => exact .definition rfl
  | inputs count => exact hsimulates.inputs bound' h count

/-- What has been derived is read with every bound that leads to an answer. -/
theorem Derives.read_eq (h : Derives goal v us rest nodes w)
    (hanswer : goal.read bound (us ++ rest) v ≠ .exhausted) :
    goal.read bound (us ++ rest) v = .done nodes rest w := by
  obtain ⟨b, hb⟩ := h.exists_bound
  cases hread : goal.read bound (us ++ rest) v with
  | done nodes' rest' w' =>
    -- both answers are those of some larger bound
    obtain ⟨us', hus', h'⟩ := derivable_iff_read.mpr ⟨bound, hread⟩
    obtain ⟨b', hb'⟩ := h'.exists_bound
    have hsame := hb' (max b b') (Nat.le_max_right b b')
    rw [← hus', hb (max b b') (Nat.le_max_left b b')] at hsame
    exact hsame.symm
  | failed e w' =>
    have hsim := sim_read goal (Nat.le_max_right b bound) (alike_refl id (us ++ rest))
      (rfl : v.mapLines id = v.mapLines id)
    rw [hread, hb (max b bound) (Nat.le_max_left b bound)] at hsim
    obtain hlenient | ⟨e', w'', hfailed, -⟩ := hsim
    · exact absurd hlenient id
    · cases hfailed
  | exhausted => exact absurd hread hanswer

end Grammar

/-! ## Readers of one tree -/

/-- Readers, one for each bound, that come to an end and take tokens.
* With a bound that is enough for the tokens they answer.
* What gives a value is a part of the tokens, and not an empty one, up to those that are left. The
  mark of the end is not in it. -/
structure Reader.Progressive (r : Nat → Reader α) : Prop where
  answers : ∀ tokens v bound, Program.bound tokens ≤ bound → r bound tokens v ≠ .exhausted
  advances : ∀ tokens v bound a rest w, r bound tokens v = .done a rest w →
    ∃ taken, taken ≠ [] ∧ tokens = taken ++ rest ∧ ∀ t ∈ taken, t.token ≠ .endOfText

namespace Grammar

lemma Derivable.advances {goal : Goal} (h : Derivable goal ts v nodes rest w)
    (hgoal : ∀ us, Derives goal v us rest nodes w → us ≠ []) :
    ∃ taken, taken ≠ [] ∧ ts = taken ++ rest ∧ ∀ t ∈ taken, t.token ≠ .endOfText := by
  obtain ⟨us, rfl, hus⟩ := h
  exact ⟨us, hgoal us hus, rfl, hus.nests.ne_endOfText⟩

/-- After the token that opens an operand, more tokens are taken. -/
lemma Derivable.advances_after {t : Placed} (h : Derivable .operand (t :: ts) v nodes rest w)
    (ht : OpensOperand t.token) :
    ∃ taken, taken ≠ [] ∧ ts = taken ++ rest ∧ ∀ t ∈ taken, t.token ≠ .endOfText := by
  obtain ⟨us, hts, hus⟩ := h
  have hne := ne_nil_of_head hus.operand_head
  obtain ⟨u, us, rfl⟩ := List.exists_cons_of_ne_nil hne
  obtain ⟨rfl, rfl⟩ := List.cons.inj hts
  refine ⟨us, ht.ne_nil hus, rfl, ?_⟩
  exact (List.forall_mem_cons.mp hus.nests.ne_endOfText).2

/-- The readers that a group, a conditional and a definition are made of, on tokens for which the
bound is enough. -/
lemma takes_parts (h : Program.bound ts ≤ bound) :
    (expression bound 0).Takes 0 ts.length ∧
      ∀ closer, (sequence bound closer).Takes 0 ts.length := by
  have hprogress := progresses bound
  unfold Program.bound at h
  exact ⟨(hprogress.expression ts.length 0 (by omega)).mono (Nat.zero_le 1),
    fun closer => hprogress.sequence ts.length closer h⟩

lemma progressive_expression (floor : Nat) :
    Progressive fun bound => expression bound floor where
  answers tokens v bound h := by
    unfold Program.bound at h
    exact ((progresses bound).expression tokens.length floor (by omega)).ne_exhausted
  advances tokens v bound node rest w h :=
    ((sound bound).expression h).advances fun us hus => ne_nil_of_head hus.expression_head

lemma progressive_operand : Progressive operand where
  answers tokens v bound h := by
    unfold Program.bound at h
    exact ((progresses bound).operand tokens.length (by omega)).ne_exhausted
  advances tokens v bound node rest w h :=
    ((sound bound).operand h).advances fun us hus => ne_nil_of_head hus.operand_head

lemma progressive_group (line : Nat) :
    Progressive fun bound => group (expression bound 0) (sequence bound) line where
  answers tokens v bound h := by
    obtain ⟨hexpression, hsequence⟩ := takes_parts h
    exact (takes_group hexpression hsequence line).ne_exhausted
  advances tokens v bound node rest w h := by
    have hgroup : Derivable .operand (⟨.openParen, line, 0⟩ :: tokens) v [node] rest w :=
      derivable_group (sound bound) h
    exact hgroup.advances_after .group

lemma progressive_list (line : Nat) : Progressive fun _ => list line where
  answers tokens v bound h := (takes_list line).ne_exhausted
  advances tokens v bound node rest w h := by
    obtain ⟨inner, close, nodes, rfl, hclose, hitems, -⟩ := exists_itemizes_of_list h
    refine ⟨inner ++ [close], by simp, by simp, ?_⟩
    refine List.forall_mem_append.mpr ⟨hitems.balanced.wellNested.ne_endOfText, ?_⟩
    exact List.forall_mem_singleton.mpr (by simp [hclose])

lemma ofWord_keyword (form : ConditionalForm) :
    Opening.ofWord form.keyword = .conditional form := by
  cases form <;> decide +kernel

lemma progressive_conditional (form : ConditionalForm) (line : Nat) :
    Progressive fun bound => conditional (expression bound 0) form line where
  answers tokens v bound h := (takes_conditional (takes_parts h).1 form line).ne_exhausted
  advances tokens v bound node rest w h := by
    have hword := ofWord_keyword form
    have hconditional :
        Derivable .operand (⟨.bare form.keyword, line, 0⟩ :: tokens) v [node] rest w :=
      derivable_conditional (sound bound) hword h
    exact hconditional.advances_after (.conditional hword)

lemma progressive_definition (line : Nat) :
    Progressive fun bound => definition (sequence bound) line where
  answers tokens v bound h := (takes_definition (takes_parts h).2 line).ne_exhausted
  advances tokens v bound node rest w h := by
    have hword : Opening.ofWord "to" = .definition := by decide +kernel
    have hdefinition : Derivable .operand (⟨.bare "to", line, 0⟩ :: tokens) v [node] rest w :=
      derivable_definition (sound bound) hword h
    exact hdefinition.advances_after (.definition hword)

end Grammar

open Grammar

/-- **Reading comes to an end, and every reader of a tree takes tokens.** All tokens are allowed,
with and without the mark of the end.
* A program is read to the end of the text or to an error, and a larger bound on the recursion
  changes nothing.
* The readers of expressions, operands, groups, lists, conditionals and definitions are progressive.
  Those that start after their opening token take others besides it. -/
theorem readers_progress :
    (∀ tokens v bound, Program.bound tokens ≤ bound → sequence bound .text tokens v ≠ .exhausted ∧
      Program.ofTokens tokens v = Program.ofResult v (sequence bound .text tokens v)) ∧
    (∀ floor, Progressive fun bound => expression bound floor) ∧
    Progressive operand ∧
    (∀ line, Progressive fun bound => group (expression bound 0) (sequence bound) line) ∧
    (∀ line, Progressive fun _ => list line) ∧
    (∀ form line, Progressive fun bound => conditional (expression bound 0) form line) ∧
    ∀ line, Progressive fun bound => definition (sequence bound) line := by
  refine ⟨fun tokens v bound h => ?_, progressive_expression, progressive_operand,
    progressive_group, progressive_list, progressive_conditional, progressive_definition⟩
  have hanswer := sequence_ne_exhausted h .text v
  exact ⟨hanswer, Program.ofTokens_eq hanswer⟩

/-- A definition in a group, before the mark of the end and after it. The bound that is enough for
the tokens is enough for the group, which ends with its parenthesis. -/
theorem readers_progress_group :
    let taken : List Placed := [⟨.newline, 1, 0⟩, ⟨.bare "to", 2, 1⟩, ⟨.bare "f", 2, 4⟩,
      ⟨.openBracket, 2, 6⟩, ⟨.closeParen, 2, 7⟩, ⟨.closeBracket, 2, 8⟩, ⟨.bare "end", 2, 10⟩,
      ⟨.closeParen, 2, 13⟩]
    let rest : List Placed := [⟨.endOfText, 2, 14⟩, ⟨.closeParen, 2, 14⟩]
    let after := Vocabulary.standard.declare "f" (.fixed 0)
    let node : Node := .definition "f" [] [.list [.word ")" 2] 2] 2
    let read := group (expression 33 0) (sequence 33) 1
    Program.bound (taken ++ rest) ≤ 33 ∧
      read (taken ++ rest) .standard ≠ .exhausted ∧
      read (taken ++ rest) .standard = .done node rest after ∧
      ∃ taken', taken' ≠ [] ∧ taken ++ rest = taken' ++ rest ∧
        ∀ t ∈ taken', t.token ≠ .endOfText := by
  intro taken rest after node read
  have hbound : Program.bound (taken ++ rest) ≤ 33 := by decide
  have hread : read (taken ++ rest) .standard = .done node rest after := rfl
  obtain ⟨-, -, -, hgroup, -⟩ := readers_progress
  exact ⟨hbound, (hgroup 1).answers _ _ _ hbound, hread, (hgroup 1).advances _ _ _ _ _ _ hread⟩

end Logo
