import Logo.Proofs.Reading.Phrases

/-!
# Phrases express every program

A phrase is read as the syntax tree that it was made for. This file adds that nothing is lost by
writing in phrases: every syntax tree that can be read from some text is the tree of a phrase. It
follows the derivation of the tree. Operators and calls get the parentheses that they may have been
written without, and a minus sign in front of an operand is written as a difference from zero.

* `Grammar.Derives.expressed`: whatever is read is the tree of a phrase that fits.
* `phrases_read_back`: phrases are read back, and they express every program.
-/

namespace Logo

open Grammar

/-! ## Whatever is read is a phrase -/

lemma Itemizes.exists_data {us : List Placed} {nodes : List Node} (h : Itemizes us nodes) :
    ∃ items : List Datum, (∀ item ∈ items, item.Fits) ∧
      nodes.map (Node.mapLines noLine) = items.map Datum.node := by
  induction h with
  | nil => exact ⟨[], List.forall_mem_nil _, rfl⟩
  | separator _ _ ih => exact ih
  | @word t ts nodes hleaf hsep _ ih =>
    obtain ⟨items, hitems, heq⟩ := ih
    refine ⟨.leaf t.token :: items, List.forall_mem_cons.mpr ⟨.leaf ?_, hitems⟩, ?_⟩
    · cases htoken : t.token <;> simp [htoken, Token.isSeparator] at hleaf hsep ⊢
    · simp [Node.mapLines, Datum.node, heq, noLine]
  | list _ _ _ _ ihinner ihrest =>
    obtain ⟨items, hitems, heq⟩ := ihinner
    obtain ⟨items', hitems', heq'⟩ := ihrest
    refine ⟨.list items :: items', List.forall_mem_cons.mpr ⟨.list hitems, hitems'⟩, ?_⟩
    simp [Node.mapLines, Datum.node, heq, heq', noLine]

/-- The phrases fit after definitions of the names `defined` and stand for the trees, and `w` is the
vocabulary after them. -/
structure Phrase.Express (known : Vocabulary) (defined : List String) (ps : List Phrase)
    (nodes : List Node) (w : Vocabulary) : Prop where
  fits : FitsEach known defined ps
  nodes : nodes.map (Node.mapLines noLine) = ps.map node
  holds : w.Holds known (defined ++ definesEach ps)

namespace Phrase.Express

variable {known v w : Vocabulary} {defined : List String} {p : Phrase} {ps : List Phrase} {n : Node}
  {nodes : List Node}

lemma nil (hw : w.Holds known defined) : Express known defined [] [] w :=
  ⟨trivial, rfl, by simpa [definesEach] using hw⟩

lemma single (hfits : p.Fits known defined) (hnode : n.mapLines noLine = p.node)
    (hw : w.Holds known (defined ++ p.defines)) : Express known defined [p] [n] w :=
  ⟨⟨hfits, trivial⟩, by simp [hnode], by simpa [definesEach] using hw⟩

lemma exists_single (h : Express known defined ps [n] w) :
    ∃ p : Phrase, p.Fits known defined ∧ n.mapLines noLine = p.node ∧
      w.Holds known (defined ++ p.defines) := by
  obtain ⟨hfits, hnodes, hw⟩ := h
  obtain ⟨p, ps', rfl, hnode, hnil⟩ := List.map_eq_cons_iff.mp hnodes.symm
  obtain rfl : ps' = [] := List.map_eq_nil_iff.mp hnil
  exact ⟨p, hfits.1, hnode.symm, by simpa [definesEach] using hw⟩

lemma cons (hfits : p.Fits known defined) (hnode : n.mapLines noLine = p.node)
    (h : Express known (defined ++ p.defines) ps nodes w) :
    Express known defined (p :: ps) (n :: nodes) w :=
  ⟨⟨hfits, h.fits⟩, by simp [hnode, h.nodes], by simpa [definesEach] using h.holds⟩

end Phrase.Express

namespace Grammar

variable {known v w : Vocabulary} {nodes : List Node}

/-- What a reader gives can be expressed by phrases. A reader of operators goes on from a phrase for
the operand before them. -/
def Goal.Expressed (known v : Vocabulary) (nodes : List Node) (w : Vocabulary) : Goal → Prop
  | .operators _ left => ∀ defined p, Phrase.Express known defined [p] [left] v →
      ∃ q, Phrase.Express known defined [q] nodes w
  | _ => ∀ defined, v.Holds known defined → ∃ ps, Phrase.Express known defined ps nodes w

/-- Whatever has a derivation is expressed by phrases. -/
lemma Derives.expressed {goal : Goal} {us rest : List Placed}
    (h : Derives goal v us rest nodes w) : goal.Expressed known v nodes w := by
  induction h with
  | expression _ _ ih ih' =>
    intro defined hv
    obtain ⟨ps, hps⟩ := ih defined hv
    obtain ⟨p, hfits, hnode, hv'⟩ := hps.exists_single
    obtain ⟨q, hq⟩ := ih' defined p (.single hfits hnode hv')
    exact ⟨[q], hq⟩
  | noOperator => exact fun defined p hp => ⟨p, hp⟩
  | @operator floor line column op left right node v v' w us us' rest _ _ _ ih ih' =>
    intro defined q hq
    obtain ⟨p, hfits, hnode, hv⟩ := hq.exists_single
    obtain ⟨rs, hrs⟩ := ih _ hv
    obtain ⟨r, hfits', hnode', hv'⟩ := hrs.exists_single
    refine ih' defined (.binary op p r) (.single ⟨hfits, hfits'⟩ ?_ ?_)
    · simp [Node.mapLines, Phrase.node, hnode, hnode', noLine]
    · simpa [Phrase.defines] using hv'
  | @number text x _ _ _ _ hx =>
    intro defined hv
    refine ⟨[.number text], .single (Option.isSome_of_eq_some hx) ?_ ?_⟩
    · simp [Node.mapLines, Phrase.node, hx, noLine]
    · simpa [Phrase.defines] using hv
  | @word text =>
    intro defined hv
    exact ⟨[.word text], .single trivial rfl (by simpa [Phrase.defines] using hv)⟩
  | @reference name =>
    intro defined hv
    refine ⟨[.reference (Text.lower name)], .single (Text.lower_lower name) rfl ?_⟩
    simpa [Phrase.defines] using hv
  | @truth _ value =>
    intro defined hv
    exact ⟨[.truth value], .single trivial rfl (by simpa [Phrase.defines] using hv)⟩
  | minus _ ih =>
    -- the operand is taken away from a zero that is written down
    intro defined hv
    obtain ⟨ps, hps⟩ := ih defined hv
    obtain ⟨p, hfits, hnode, hw⟩ := hps.exists_single
    have hzero : Number.read? "0" = some 0.0 := rfl
    refine ⟨[.binary .sub (.number "0") p], .single ⟨?_, ?_⟩ ?_ ?_⟩
    · exact Option.isSome_of_eq_some hzero
    · simpa [Phrase.defines] using hfits
    · simp [Node.mapLines, Phrase.node, hnode, hzero, noLine]
    · simpa [Phrase.defines] using hw
  | list hitems =>
    intro defined hv
    obtain ⟨items, hfits, heq⟩ := hitems.exists_data
    refine ⟨[.list items], .single hfits ?_ (by simpa [Phrase.defines] using hv)⟩
    simp [Node.mapLines, Phrase.node, heq, noLine]
  | enclosed _ _ _ _ _ ih => exact ih
  | @groupCall name _ _ _ _ _ _ _ _ _ _ _ hkeyword harity _ ih =>
    intro defined hv
    obtain ⟨ps, hps⟩ := ih defined hv
    refine ⟨[.call (Text.lower name) ps], .single ⟨Text.lower_lower name, ?_, ?_, hps.fits⟩ ?_ ?_⟩
    · rwa [isKeyword_lower]
    · rw [Vocabulary.arity?_lower]
      exact (hv.arity name).mp harity
    · simp [Node.mapLines, Phrase.node, hps.nodes, noLine]
    · exact hps.holds
  | @definition _ name params _ _ _ _ _ _ _ _ _ _ _ hkeyword hbuiltin hheads _ _ ih =>
    intro defined hv
    have hfree : known.isBuiltin (Text.lower name) = false := (hv.builtin _).symm.trans hbuiltin
    obtain ⟨ps, hps⟩ := ih _ (hv.declare (Text.lower_lower name) hfree params.length)
    refine ⟨[.definition (Text.lower name) params ps],
      .single ⟨Text.lower_lower name, hkeyword, hfree, ?_, hps.fits⟩ ?_ ?_⟩
    · intro param hparam
      obtain ⟨-, -, text, -, rfl⟩ := spelledBy_of_params hheads (List.Subset.refl _) param hparam
      exact Text.lower_lower text
    · simp [Node.mapLines, Phrase.node, hps.nodes, noLine]
    · simpa [Phrase.defines] using hps.holds
  | oneBranch _ _ _ ih ih' =>
    intro defined hv
    obtain ⟨cs, hcs⟩ := ih defined hv
    obtain ⟨c, hfits, hnode, hv'⟩ := hcs.exists_single
    obtain ⟨ts, hts⟩ := ih' _ hv'
    obtain ⟨t, hfits', hnode', hw⟩ := hts.exists_single
    refine ⟨[.oneBranch c t], .single ⟨hfits, hfits'⟩ ?_ (by simpa [Phrase.defines] using hw)⟩
    simp [Node.mapLines, Phrase.node, hnode, hnode', noLine]
  | twoBranches _ _ _ _ ih ih' ih'' =>
    intro defined hv
    obtain ⟨cs, hcs⟩ := ih defined hv
    obtain ⟨c, hfits, hnode, hv'⟩ := hcs.exists_single
    obtain ⟨ts, hts⟩ := ih' _ hv'
    obtain ⟨t, hfits', hnode', hv''⟩ := hts.exists_single
    obtain ⟨es, hes⟩ := ih'' _ hv''
    obtain ⟨e, hfits'', hnode'', hw⟩ := hes.exists_single
    rw [List.append_assoc] at hfits''
    refine ⟨[.twoBranches c t e], .single ⟨hfits, hfits', hfits''⟩ ?_
      (by simpa [Phrase.defines] using hw)⟩
    simp [Node.mapLines, Phrase.node, hnode, hnode', hnode'', noLine]
  | @call word _ _ _ _ _ _ _ _ hword harity _ ih =>
    intro defined hv
    obtain ⟨ps, hps⟩ := ih defined hv
    refine ⟨[.call (Text.lower word) ps], .single ⟨Text.lower_lower word, ?_, ?_, hps.fits⟩ ?_ ?_⟩
    · rw [isKeyword_lower]
      exact isKeyword_of_call hword
    · rw [Vocabulary.arity?_lower]
      exact (hv.arity word).mp (Option.isSome_of_eq_some harity)
    · simp [Node.mapLines, Phrase.node, hps.nodes, noLine]
    · exact hps.holds
  | ended | closed | enough | noInput => exact fun defined hv => ⟨[], .nil hv⟩
  | item _ _ _ _ ih ih' | input _ _ ih ih' =>
    intro defined hv
    obtain ⟨ps, hps⟩ := ih defined hv
    obtain ⟨p, hfits, hnode, hv'⟩ := hps.exists_single
    obtain ⟨ps', hps'⟩ := ih' _ hv'
    exact ⟨p :: ps', .cons hfits hnode hps'⟩

end Grammar

/-! ## Programs -/

/-- **Phrases are read back, and they express every program.** Phrases that fit, written one after
the other with any separators between them, are read as their syntax trees up to lines, and all
syntax trees that can be read are those of phrases that fit. -/
theorem phrases_read_back (known : Vocabulary) :
    (∀ (ps : List Phrase) (after : List Token) (us rest : List Placed),
      Phrase.FitsEach known [] ps → (∀ token ∈ after, token.isSeparator = true) →
      us.map Placed.token = Phrase.tokensEach after ps → isEnd rest.head? = true →
      ∃ program w, Program.ofTokens (us ++ rest) known = (.ok program, w) ∧
        Program.mapLines noLine program = ps.map Phrase.node) ∧
    ∀ (tokens : List Placed) (program : Program) (w : Vocabulary),
      Program.ofTokens tokens known = (.ok program, w) →
      ∃ ps, Phrase.FitsEach known [] ps ∧ Program.mapLines noLine program = ps.map Phrase.node := by
  constructor
  · intro ps after us rest hfits hafter hus hend
    have hnext : NoOperator ([] ++ rest) := by
      rcases rest with _ | ⟨t, rest⟩
      · simp [NoOperator]
      · replace hend : (t.token == .endOfText) = true := hend
        exact .cons (by simp [beq_iff_eq.mp hend])
    obtain ⟨nodes, w, hderives, heq, -⟩ := Phrase.exists_sequence (Phrase.readsEach known ps) hfits
      (.refl known) hafter hus (List.forall_mem_nil _) hnext fun ss w hss => by
        rw [List.append_nil]
        exact .ended hss hend
    rw [List.nil_append, List.append_nil] at hderives
    exact ⟨nodes, w, Program.ofTokens_eq_ok_iff.mpr ⟨us, rest, rfl, hend, hderives⟩, heq⟩
  · intro tokens program w h
    obtain ⟨us, rest, -, -, hderives⟩ := Program.ofTokens_eq_ok_iff.mp h
    obtain ⟨ps, hps⟩ := hderives.expressed [] (.refl known)
    exact ⟨ps, hps.fits, hps.nodes⟩

/-- A procedure that calls itself is read back; and a minus sign before a number, which is no
phrase, stands for one. -/
theorem phrases_read_back_definition :
    let ps : List Phrase := [.definition "half" ["x"] [.call "half" [.binary .div (.reference "x")
      (.number "2"), .list [.leaf .closeParen, .list []]]], .call "half" [.truth true]]
    let us : List Placed := (Phrase.tokensEach [.newline] ps).map (⟨·, 1, 1⟩)
    let tokens : List Placed := [⟨.operator .sub, 1, 1⟩, ⟨.number "3", 1, 2⟩]
    let program : Program := [.binary .sub (.number 0.0 1) (.number 3.0 1) 1]
    Phrase.FitsEach .standard [] ps ∧
      (∃ read w, Program.ofTokens (us ++ [⟨.endOfText, 1, 1⟩]) .standard = (.ok read, w) ∧
        Program.mapLines noLine read = ps.map Phrase.node) ∧
      Program.ofTokens tokens .standard = (.ok program, .standard) ∧
      ∃ ps, Phrase.FitsEach .standard [] ps ∧
        Program.mapLines noLine program = ps.map Phrase.node := by
  intro ps us tokens program
  have hname : Text.lower "half" = "half" ∧ isKeyword "half" = false ∧
      Vocabulary.standard.isBuiltin "half" = false := by decide +kernel
  have hparam : Text.lower "x" = "x" := by decide +kernel
  have hlist : ∀ item ∈ [Datum.leaf .closeParen, .list []], item.Fits :=
    List.forall_mem_cons.mpr ⟨.leaf (by decide), List.forall_mem_singleton.mpr
      (.list (List.forall_mem_nil _))⟩
  have hfits : Phrase.FitsEach .standard [] ps :=
    ⟨⟨hname.1, hname.2.1, hname.2.2, List.forall_mem_singleton.mpr hparam,
        ⟨hname.1, hname.2.1, .inr (by decide), ⟨hparam, rfl⟩, hlist, trivial⟩, trivial⟩,
      ⟨hname.1, hname.2.1, .inr (by decide), trivial, trivial⟩, trivial⟩
  have hus : us.map Placed.token = Phrase.tokensEach [.newline] ps := by
    simp [us, Function.comp_def]
  have hread : Program.ofTokens tokens .standard = (.ok program, .standard) := rfl
  obtain ⟨hback, hevery⟩ := phrases_read_back .standard
  refine ⟨hfits, hback ps [.newline] us [⟨.endOfText, 1, 1⟩] hfits ?_ hus rfl, hread,
    hevery tokens program .standard hread⟩
  simp [Token.isSeparator]

end Logo
