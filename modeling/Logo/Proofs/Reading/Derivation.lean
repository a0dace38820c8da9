import Logo.Proofs.Reading.Lists
import Logo.Proofs.Reading.Simulation

/-!
# Derivations

The readers of the grammar call each other with a bound on the depth of the recursion, and they may
end with an error. This file says without a bound which tokens lead to which syntax trees: there is
one rule for each way in which a reader can come to a value. What holds of all programs that have
been read is then shown by induction on derivations, and a text is shown to form a program by giving
a derivation.

`Derives goal v us rest nodes w` says that the reader for `goal`, with the vocabulary `v`, takes the
tokens `us` in front of `rest`, gives `nodes` and leaves the vocabulary `w`. The tokens of `rest`
are not taken, but where a reader looks ahead they decide that nothing more is.

* `Grammar.sound`: what is read has a derivation.
* `Grammar.Derives.exists_bound`: what has a derivation is read, with every large enough bound.
* `Program.ofTokens_eq_ok_iff`: both, for whole programs.
-/

namespace Logo

open Reader Likeness

namespace Grammar

/-! ## Separators -/

/-- All tokens are line ends or comments. -/
def AllSeparators (ts : List Placed) : Prop := ∀ t ∈ ts, t.token.isSeparator = true

lemma dropSeparators_append {ss ts : List Placed} (h : AllSeparators ss) :
    dropSeparators (ss ++ ts) = dropSeparators ts :=
  List.dropWhile_append_of_pos h

/-- The separators that come next, and the rest. -/
lemma exists_separators (ts : List Placed) :
    ∃ ss, AllSeparators ss ∧ ts = ss ++ dropSeparators ts :=
  ⟨_, fun _ ht => List.mem_takeWhile_imp (p := fun t : Placed => t.token.isSeparator) ht,
    (List.takeWhile_append_dropWhile ..).symm⟩

/-! ## The rules -/

/-- What the readers that call each other can be asked for. -/
inductive Goal where
  /-- An expression with the operators that bind tighter than `floor`. -/
  | expression (floor : Nat)
  /-- The operators after an operand that bind tighter than `floor`. -/
  | operators (floor : Nat) (left : Node)
  /-- An operand. -/
  | operand
  /-- Expressions up to a closer. -/
  | sequence (closer : Closer)
  /-- Up to `count` inputs of a call. -/
  | inputs (count : Nat)

/-- What a reader takes, gives and leaves on the way to a value. A single node is given as a list of
one. -/
inductive Derives :
    Goal → Vocabulary → (us rest : List Placed) → List Node → Vocabulary → Prop
  | expression {floor : Nat} {left node : Node} {v v' w : Vocabulary} {us us' rest : List Placed} :
      Derives .operand v us (us' ++ rest) [left] v' →
      Derives (.operators floor left) v' us' rest [node] w →
      Derives (.expression floor) v (us ++ us') rest [node] w
  | noOperator {floor : Nat} {left : Node} {v : Vocabulary} {rest : List Placed} :
      (∀ op, rest.head?.map Placed.token = some (.operator op) → op.precedence ≤ floor) →
      Derives (.operators floor left) v [] rest [left] v
  | operator {floor line column : Nat} {op : Operator} {left right node : Node}
      {v v' w : Vocabulary} {us us' rest : List Placed} : floor < op.precedence →
      Derives (.expression op.precedence) v us (us' ++ rest) [right] v' →
      Derives (.operators floor (.binary op left right line)) v' us' rest [node] w →
      Derives (.operators floor left) v (⟨.operator op, line, column⟩ :: (us ++ us')) rest [node] w
  | number {text : String} {x : Float} {line column : Nat} {v : Vocabulary} {rest : List Placed} :
      Number.read? text = some x →
      Derives .operand v [⟨.number text, line, column⟩] rest [.number x line] v
  | word {text : String} {line column : Nat} {v : Vocabulary} {rest : List Placed} :
      Derives .operand v [⟨.word text, line, column⟩] rest [.word text line] v
  | reference {name : String} {line column : Nat} {v : Vocabulary} {rest : List Placed} :
      Derives .operand v [⟨.reference name, line, column⟩] rest
        [.reference (Text.lower name) line] v
  | truth {word : String} {value : Bool} {line column : Nat} {v : Vocabulary}
      {rest : List Placed} : Opening.ofWord word = .truth value →
      Derives .operand v [⟨.bare word, line, column⟩] rest [.truth value line] v
  | minus {node : Node} {line column : Nat} {v w : Vocabulary} {us rest : List Placed} :
      Derives .operand v us rest [node] w →
      Derives .operand v (⟨.operator .sub, line, column⟩ :: us) rest
        [.binary .sub (.number 0.0 line) node line] w
  | list {nodes : List Node} {line column : Nat} {v : Vocabulary} {us rest : List Placed}
      {close : Placed} : Itemizes us nodes → close.token = .closeBracket →
      Derives .operand v (⟨.openBracket, line, column⟩ :: (us ++ [close])) rest
        [.list nodes line] v
  | enclosed {node : Node} {line column : Nat} {v w : Vocabulary} {ss us ss' rest : List Placed}
      {close : Placed} : AllSeparators ss → AllSeparators ss' → close.token = .closeParen →
      (∀ name, us.head?.map Placed.token = some (.bare name) → isKeyword name = true) →
      Derives (.expression 0) v us (ss' ++ close :: rest) [node] w →
      Derives .operand v (⟨.openParen, line, column⟩ :: (ss ++ us ++ ss' ++ [close])) rest [node] w
  | groupCall {name : String} {nodes : List Node} {line column l c : Nat} {v w : Vocabulary}
      {ss us rest : List Placed} : AllSeparators ss → isKeyword name = false →
      (v.arity? name).isSome → Derives (.sequence (.paren line)) v us rest nodes w →
      Derives .operand v (⟨.openParen, line, column⟩ :: (ss ++ ⟨.bare name, l, c⟩ :: us)) rest
        [.call (Text.lower name) nodes line] w
  | definition {word name : String} {params : List String} {body : List Node}
      {line column l c : Nat} {v w : Vocabulary} {heads us rest : List Placed} :
      Opening.ofWord word = .definition → isKeyword (Text.lower name) = false →
      v.isBuiltin (Text.lower name) = false → heads.map paramName? = params.map some →
      (∀ t ∈ (us ++ rest).head?, paramName? t = none) →
      Derives (.sequence (.definition (Text.lower name) line))
        (v.declare (Text.lower name) (.fixed params.length)) us rest body w →
      Derives .operand v (⟨.bare word, line, column⟩ :: ⟨.bare name, l, c⟩ :: (heads ++ us)) rest
        [.definition (Text.lower name) params body line] w
  | oneBranch {word : String} {condition thenBranch : Node} {line column : Nat}
      {v v' w : Vocabulary} {us us' rest : List Placed} :
      Opening.ofWord word = .conditional .oneBranch →
      Derives (.expression 0) v us (us' ++ rest) [condition] v' →
      Derives (.expression 0) v' us' rest [thenBranch] w →
      Derives .operand v (⟨.bare word, line, column⟩ :: (us ++ us')) rest
        [.conditional .oneBranch condition thenBranch none line] w
  | twoBranches {word : String} {condition thenBranch elseBranch : Node} {line column : Nat}
      {v v' v'' w : Vocabulary} {us us' us'' rest : List Placed} :
      Opening.ofWord word = .conditional .twoBranches →
      Derives (.expression 0) v us (us' ++ us'' ++ rest) [condition] v' →
      Derives (.expression 0) v' us' (us'' ++ rest) [thenBranch] v'' →
      Derives (.expression 0) v'' us'' rest [elseBranch] w →
      Derives .operand v (⟨.bare word, line, column⟩ :: (us ++ us' ++ us'')) rest
        [.conditional .twoBranches condition thenBranch (some elseBranch) line] w
  | call {word : String} {count : Nat} {nodes : List Node} {line column : Nat} {v w : Vocabulary}
      {us rest : List Placed} : Opening.ofWord word = .call →
      v.arity? word = some (.fixed count) → Derives (.inputs count) v us rest nodes w →
      Derives .operand v (⟨.bare word, line, column⟩ :: us) rest
        [.call (Text.lower word) nodes line] w
  | ended {v : Vocabulary} {ss rest : List Placed} : AllSeparators ss → isEnd rest.head? = true →
      Derives (.sequence .text) v ss rest [] v
  | closed {closer : Closer} {v : Vocabulary} {ss rest : List Placed} {close : Placed} :
      AllSeparators ss → closer.closes close.token = true →
      Derives (.sequence closer) v (ss ++ [close]) rest [] v
  | item {closer : Closer} {node : Node} {nodes : List Node} {v v' w : Vocabulary}
      {ss us us' rest : List Placed} : AllSeparators ss →
      (∀ t ∈ us.head?, closer.closes t.token = false) →
      Derives (.expression 0) v us (us' ++ rest) [node] v' →
      Derives (.sequence closer) v' us' rest nodes w →
      Derives (.sequence closer) v (ss ++ us ++ us') rest (node :: nodes) w
  | enough {v : Vocabulary} {rest : List Placed} : Derives (.inputs 0) v [] rest [] v
  | noInput {count : Nat} {v : Vocabulary} {rest : List Placed} : endsInputs rest.head? = true →
      Derives (.inputs (count + 1)) v [] rest [] v
  | input {count : Nat} {node : Node} {nodes : List Node} {v v' w : Vocabulary}
      {us us' rest : List Placed} : Derives (.expression 0) v us (us' ++ rest) [node] v' →
      Derives (.inputs count) v' us' rest nodes w →
      Derives (.inputs (count + 1)) v (us ++ us') rest (node :: nodes) w

/-! ## What is read has a derivation -/

/-- The reader gives its node as a list. -/
def single (r : Reader Node) : Reader (List Node) := r >>= fun node => give [node]

/-- The reader for a goal. -/
def Goal.read (bound : Nat) : Goal → Reader (List Node)
  | expression floor => single (Grammar.expression bound floor)
  | operators floor left => single (Grammar.operators bound floor left)
  | operand => single (Grammar.operand bound)
  | sequence closer => Grammar.sequence bound closer
  | inputs count => Grammar.inputs bound count

variable {ts rest : List Placed} {v w : Vocabulary} {nodes : List Node} {bound : Nat}

lemma single_eq_done_iff {r : Reader Node} :
    single r ts v = .done nodes rest w ↔ ∃ node, nodes = [node] ∧ r ts v = .done node rest w := by
  constructor
  · intro h
    obtain ⟨node, ts', v', hr, hgive⟩ := exists_of_bind_eq_done h
    cases hgive
    exact ⟨node, rfl, hr⟩
  · rintro ⟨node, rfl, hr⟩
    exact bind_of_done hr

/-- The tokens up to `rest` have a derivation. -/
def Derivable (goal : Goal) (ts : List Placed) (v : Vocabulary) (nodes : List Node)
    (rest : List Placed) (w : Vocabulary) : Prop :=
  ∃ us, ts = us ++ rest ∧ Derives goal v us rest nodes w

/-- The values of the five readers with a bound have derivations. -/
structure Sound (bound : Nat) : Prop where
  expression : ∀ {floor ts v node rest w}, expression bound floor ts v = .done node rest w →
    Derivable (.expression floor) ts v [node] rest w
  operators : ∀ {floor left ts v node rest w}, operators bound floor left ts v = .done node rest w →
    Derivable (.operators floor left) ts v [node] rest w
  operand : ∀ {ts v node rest w}, operand bound ts v = .done node rest w →
    Derivable .operand ts v [node] rest w
  sequence : ∀ {closer ts v nodes rest w}, sequence bound closer ts v = .done nodes rest w →
    Derivable (.sequence closer) ts v nodes rest w
  inputs : ∀ {count ts v nodes rest w}, inputs bound count ts v = .done nodes rest w →
    Derivable (.inputs count) ts v nodes rest w

lemma derivable_operators_succ (ih : Sound bound) {floor : Nat} {left node : Node}
    (h : operators (bound + 1) floor left ts v = .done node rest w) :
    Derivable (.operators floor left) ts v [node] rest w := by
  by_cases hop : ∃ op line column ts', ts = ⟨.operator op, line, column⟩ :: ts'
  · obtain ⟨op, line, column, ts', rfl⟩ := hop
    rw [operators_operator] at h
    split at h
    · next hfloor =>
      obtain ⟨right, mid, v', hright, hmore⟩ := exists_of_bind_eq_done h
      obtain ⟨us, rfl, hus⟩ := ih.expression hright
      obtain ⟨us', rfl, hus'⟩ := ih.operators hmore
      exact ⟨⟨.operator op, line, column⟩ :: (us ++ us'), by simp, .operator hfloor hus hus'⟩
    · next hfloor =>
      cases h
      refine ⟨[], rfl, .noOperator fun op' hop' => ?_⟩
      obtain rfl : op = op' := by simpa using hop'
      exact Nat.le_of_not_lt hfloor
  · have hother : ∀ op, ts.head?.map Placed.token ≠ some (.operator op) := by
      intro op hhead
      obtain ⟨⟨token, line, column⟩, ht, rfl⟩ := Option.map_eq_some_iff.mp hhead
      exact hop ⟨op, line, column, ts.tail, (List.cons_head?_tail ht).symm⟩
    rw [operators_other hother] at h
    cases h
    exact ⟨[], rfl, .noOperator fun op hhead => absurd hhead (hother op)⟩

lemma derivable_sequence_succ (ih : Sound bound) {closer : Closer}
    (h : sequence (bound + 1) closer ts v = .done nodes rest w) :
    Derivable (.sequence closer) ts v nodes rest w := by
  obtain ⟨ss, hss, hts⟩ := exists_separators ts
  by_cases hend : isEnd (dropSeparators ts).head? = true
  · rw [sequence_of_isEnd hend] at h
    cases closer with
    | text =>
      cases h
      exact ⟨ss, hts, .ended hss hend⟩
    | paren line => cases h
    | definition name line => cases h
  · rcases hdrop : dropSeparators ts with _ | ⟨t, ts'⟩
    · simp [hdrop, isEnd] at hend
    · have hne : t.token ≠ .endOfText := by simpa [hdrop, isEnd] using hend
      rw [hdrop] at hts
      rw [sequence_cons hdrop hne] at h
      split at h
      · next hclose =>
        cases h
        exact ⟨ss ++ [t], by simp [hts], .closed hss hclose⟩
      · next hclose =>
        obtain ⟨node, mid, v', hnode, hmore⟩ := exists_of_bind_eq_done h
        obtain ⟨others, mid', w', hothers, hgive⟩ := exists_of_bind_eq_done hmore
        cases hgive
        obtain ⟨us, hus, hderives⟩ := ih.expression hnode
        obtain ⟨us', rfl, hderives'⟩ := ih.sequence hothers
        refine ⟨ss ++ us ++ us', by simp [hts, hus], .item hss (fun u hu => ?_) hderives hderives'⟩
        rcases us with _ | ⟨u', us⟩
        · cases hu
        · obtain rfl : u' = u := by simpa using hu
          obtain ⟨rfl, -⟩ := List.cons.inj hus
          simpa using hclose

/-- Groups. -/
lemma derivable_group (ih : Sound bound) {line column : Nat} {node : Node}
    (h : group (expression bound 0) (sequence bound) line ts v = .done node rest w) :
    Derivable .operand (⟨.openParen, line, column⟩ :: ts) v [node] rest w := by
  obtain ⟨ss, hss, hts⟩ := exists_separators ts
  -- one expression up to the closing parenthesis
  have henclosed (hkeyword : ∀ name, (dropSeparators ts).head?.map Placed.token =
        some (.bare name) → isKeyword name = true)
      (h : group.enclosed (expression bound 0) line (dropSeparators ts) v = .done node rest w) :
      Derivable .operand (⟨.openParen, line, column⟩ :: ts) v [node] rest w := by
    rw [enclosed_eq] at h
    obtain ⟨node', mid, v', hnode, hclosing⟩ := exists_of_bind_eq_done h
    obtain ⟨us, hus, hderives⟩ := ih.expression hnode
    obtain ⟨ss', hss', hmid⟩ := exists_separators mid
    unfold closing at hclosing
    generalize dropSeparators mid = more at hclosing hmid
    rcases more with _ | ⟨close, more⟩
    · cases hclosing
    split at hclosing
    · next hclose =>
      cases hclosing
      subst hmid
      refine ⟨⟨.openParen, line, column⟩ :: (ss ++ us ++ ss' ++ [close]), ?_,
        .enclosed hss hss' (by simpa using hclose) (fun name hname => ?_) hderives⟩
      · rw [hts, hus]
        simp
      · refine hkeyword name ?_
        rcases us with _ | ⟨u, us⟩
        · simp at hname
        · simpa [hus] using hname
    · cases hclosing
  rw [← group_dropSeparators] at h
  rcases hdrop : dropSeparators ts with _ | ⟨⟨token, l, c⟩, ts'⟩
  · rw [group_other dropSeparators_idem (by simp [hdrop])] at h
    exact henclosed (by simp [hdrop]) h
  · by_cases hbare : ∃ name, token = .bare name
    · obtain ⟨name, rfl⟩ := hbare
      rw [hdrop, group_bare] at h
      split at h
      · next hkeyword =>
        exact henclosed (by simpa [hdrop] using hkeyword) (hdrop ▸ h)
      split at h
      · cases h
      · next hkeyword harity =>
        obtain ⟨inputs, mid, v', hinputs, hgive⟩ := exists_of_bind_eq_done h
        cases hgive
        obtain ⟨us, rfl, hderives⟩ := ih.sequence hinputs
        refine ⟨⟨.openParen, line, column⟩ :: (ss ++ ⟨.bare name, l, c⟩ :: us), ?_,
          .groupCall hss (by simpa using hkeyword)
            (by simpa [Option.isSome_iff_ne_none] using harity) hderives⟩
        rw [hts, hdrop]
        simp
    · have hother : ∀ name, (dropSeparators ts).head?.map Placed.token ≠ some (.bare name) := by
        intro name hname
        exact hbare ⟨name, by simpa [hdrop] using hname⟩
      rw [group_other dropSeparators_idem hother] at h
      exact henclosed (fun name hname => absurd hname (hother name)) h

/-- The parameters that come next. -/
lemma exists_heads_of_params {names : List String} (h : params ts v = .done names rest w) :
    ∃ heads, ts = heads ++ rest ∧ heads.map paramName? = names.map some ∧
      (∀ t ∈ rest.head?, paramName? t = none) ∧ w = v := by
  induction ts generalizing names with
  | nil =>
    cases h
    exact ⟨[], rfl, rfl, by simp, rfl⟩
  | cons t ts ih =>
    cases ht : paramName? t with
    | none =>
      rw [params_of_head (by simpa using ht)] at h
      cases h
      exact ⟨[], rfl, rfl, by simpa using ht, rfl⟩
    | some name =>
      rw [params_cons ht] at h
      obtain ⟨others, mid, v', hothers, hgive⟩ := exists_of_bind_eq_done h
      cases hgive
      obtain ⟨heads, rfl, hheads, hrest, rfl⟩ := ih hothers
      exact ⟨t :: heads, rfl, by simp [ht, hheads], hrest, rfl⟩

/-- The name of a definition. -/
lemma exists_of_definedName {line : Nat} {name : String}
    (h : definedName line ts v = .done name rest w) :
    ∃ word l c, ts = ⟨.bare word, l, c⟩ :: rest ∧ name = Text.lower word ∧
      isKeyword name = false ∧ v.isBuiltin name = false ∧ w = v := by
  rcases ts with _ | ⟨⟨token, l, c⟩, ts⟩
  · cases h
  · cases token with
    | bare word =>
      rw [definedName_bare] at h
      split at h
      · cases h
      · next hfree =>
        cases h
        simp only [Bool.or_eq_true, not_or, Bool.not_eq_true] at hfree
        exact ⟨word, l, c, rfl, rfl, hfree.1, hfree.2, rfl⟩
    | _ => cases h

lemma derivable_definition (ih : Sound bound) {word : String} {line column : Nat} {node : Node}
    (hword : Opening.ofWord word = .definition)
    (h : definition (sequence bound) line ts v = .done node rest w) :
    Derivable .operand (⟨.bare word, line, column⟩ :: ts) v [node] rest w := by
  obtain ⟨name, ts₁, v₁, hname, h₁⟩ := exists_of_bind_eq_done h
  obtain ⟨names, ts₂, v₂, hnames, h₂⟩ := exists_of_bind_eq_done h₁
  obtain ⟨_, ts₃, v₃, hdeclare, h₃⟩ := exists_of_bind_eq_done h₂
  obtain ⟨body, mid, w', hbody, hgive⟩ := exists_of_bind_eq_done h₃
  cases hgive
  cases hdeclare
  obtain ⟨word', l, c, rfl, rfl, hkeyword, hbuiltin, rfl⟩ := exists_of_definedName hname
  obtain ⟨heads, rfl, hheads, hstop, rfl⟩ := exists_heads_of_params hnames
  obtain ⟨us, rfl, hderives⟩ := ih.sequence hbody
  exact ⟨⟨.bare word, line, column⟩ :: ⟨.bare word', l, c⟩ :: (heads ++ us), by simp,
    .definition hword hkeyword hbuiltin hheads hstop hderives⟩

lemma derivable_branch (ih : Sound bound) {line : Nat} {node : Node}
    (h : branch (expression bound 0) line ts v = .done node rest w) :
    Derivable (.expression 0) ts v [node] rest w := by
  rw [branch_eq] at h
  split at h
  · cases h
  · exact ih.expression h

lemma derivable_conditional (ih : Sound bound) {word : String} {form : ConditionalForm}
    {line column : Nat} {node : Node} (hword : Opening.ofWord word = .conditional form)
    (h : conditional (expression bound 0) form line ts v = .done node rest w) :
    Derivable .operand (⟨.bare word, line, column⟩ :: ts) v [node] rest w := by
  obtain ⟨condition, ts₁, v₁, hcondition, h₁⟩ := exists_of_bind_eq_done h
  obtain ⟨thenBranch, ts₂, v₂, hthen, h₂⟩ := exists_of_bind_eq_done h₁
  obtain ⟨us, rfl, hus⟩ := derivable_branch ih hcondition
  obtain ⟨us', rfl, hus'⟩ := derivable_branch ih hthen
  cases form with
  | oneBranch =>
    cases h₂
    exact ⟨⟨.bare word, line, column⟩ :: (us ++ us'), by simp, .oneBranch hword hus hus'⟩
  | twoBranches =>
    obtain ⟨elseBranch, ts₃, w', helse, hgive⟩ := exists_of_bind_eq_done h₂
    cases hgive
    obtain ⟨us'', rfl, hus''⟩ := derivable_branch ih helse
    rw [← List.append_assoc] at hus
    exact ⟨⟨.bare word, line, column⟩ :: (us ++ us' ++ us''), by simp,
      .twoBranches hword hus hus' hus''⟩

lemma derivable_call (ih : Sound bound) {word : String} {line column : Nat} {node : Node}
    (hword : Opening.ofWord word = .call)
    (h : call (inputs bound) word line ts v = .done node rest w) :
    Derivable .operand (⟨.bare word, line, column⟩ :: ts) v [node] rest w := by
  obtain ⟨v', ts', v'', hv, hcall⟩ := exists_of_bind_eq_done h
  cases hv
  rcases harity : v.arity? word with _ | (count | _)
  · rw [harity] at hcall
    cases hcall
  · rw [harity] at hcall
    obtain ⟨nodes, mid, w', hnodes, hgive⟩ := exists_of_bind_eq_done hcall
    cases hgive
    obtain ⟨us, rfl, hus⟩ := ih.inputs hnodes
    exact ⟨⟨.bare word, line, column⟩ :: us, by simp, .call hword harity hus⟩
  · rw [harity] at hcall
    cases hcall

lemma next_bind_cons {α : Type} {f : Option Placed → Reader α} {t : Placed} :
    (next >>= f) (t :: ts) v = f (some t) ts v := rfl

lemma derivable_operand_succ (ih : Sound bound) {node : Node}
    (h : operand (bound + 1) ts v = .done node rest w) :
    Derivable .operand ts v [node] rest w := by
  rcases ts with _ | ⟨⟨token, line, column⟩, ts⟩
  · rw [operand_of_isEnd rfl] at h
    cases h
  rw [operand, next_bind_cons] at h
  cases token with
  | number text =>
    cases hx : Number.read? text with
    | some x =>
      simp only [hx] at h
      cases h
      exact ⟨[_], rfl, .number hx⟩
    | none =>
      simp only [hx] at h
      cases h
  | word text =>
    cases h
    exact ⟨[_], rfl, .word⟩
  | reference name =>
    cases h
    exact ⟨[_], rfl, .reference⟩
  | operator op =>
    cases op with
    | sub =>
      obtain ⟨node', mid, w', hnode, hgive⟩ := exists_of_bind_eq_done h
      cases hgive
      obtain ⟨us, rfl, hus⟩ := ih.operand hnode
      exact ⟨⟨.operator .sub, line, column⟩ :: us, rfl, .minus hus⟩
    | _ => cases h
  | openParen => exact derivable_group ih h
  | openBracket =>
    obtain ⟨us, close, nodes, rfl, hclose, hitems, rfl, rfl⟩ := exists_itemizes_of_list h
    exact ⟨⟨.openBracket, line, column⟩ :: (us ++ [close]), by simp, .list hitems hclose⟩
  | bare word =>
    cases hword : Opening.ofWord word with
    | definition =>
      simp only [hword] at h
      exact derivable_definition ih hword h
    | conditional form =>
      simp only [hword] at h
      exact derivable_conditional ih hword h
    | truth value =>
      simp only [hword] at h
      cases h
      exact ⟨[_], rfl, .truth hword⟩
    | stray =>
      simp only [hword] at h
      cases h
    | call =>
      simp only [hword] at h
      exact derivable_call ih hword h
  | _ => cases h

lemma derivable_inputs_succ (ih : Sound bound) {count : Nat}
    (h : inputs (bound + 1) count ts v = .done nodes rest w) :
    Derivable (.inputs count) ts v nodes rest w := by
  cases count with
  | zero =>
    cases h
    exact ⟨[], rfl, .enough⟩
  | succ count =>
    rw [inputs_succ] at h
    split at h
    · next hends =>
      cases h
      exact ⟨[], rfl, .noInput hends⟩
    · obtain ⟨node, mid, v', hnode, hmore⟩ := exists_of_bind_eq_done h
      obtain ⟨others, mid', w', hothers, hgive⟩ := exists_of_bind_eq_done hmore
      cases hgive
      obtain ⟨us, rfl, hus⟩ := ih.expression hnode
      obtain ⟨us', rfl, hus'⟩ := ih.inputs hothers
      exact ⟨us ++ us', by simp, .input hus hus'⟩

lemma sound (bound : Nat) : Sound bound := by
  induction bound with
  | zero => constructor <;> exact fun h => nomatch h
  | succ bound ih =>
    refine ⟨fun h => ?_, derivable_operators_succ ih, derivable_operand_succ ih,
      derivable_sequence_succ ih, derivable_inputs_succ ih⟩
    rw [expression] at h
    obtain ⟨left, mid, v', hleft, hmore⟩ := exists_of_bind_eq_done h
    obtain ⟨us, rfl, hus⟩ := ih.operand hleft
    obtain ⟨us', rfl, hus'⟩ := ih.operators hmore
    exact ⟨us ++ us', by simp, .expression hus hus'⟩

/-! ## What has a derivation is read -/

/-- The statement holds of all large enough bounds. -/
def Eventually (P : Nat → Prop) : Prop := ∃ b, ∀ n ≥ b, P n

lemma Eventually.and {P Q : Nat → Prop} (hP : Eventually P) (hQ : Eventually Q) :
    Eventually fun n => P n ∧ Q n := by
  obtain ⟨b, hb⟩ := hP
  obtain ⟨b', hb'⟩ := hQ
  exact ⟨max b b', fun n hn => ⟨hb n (by omega), hb' n (by omega)⟩⟩

/-- One more level of the recursion. -/
lemma Eventually.succ {P Q : Nat → Prop} (hP : Eventually P) (h : ∀ n, P n → Q (n + 1)) :
    Eventually Q := by
  obtain ⟨b, hb⟩ := hP
  refine ⟨b + 1, fun n hn => ?_⟩
  obtain ⟨n, rfl⟩ : ∃ m, n = m + 1 := ⟨n - 1, by omega⟩
  exact h n (hb n (by omega))

/-- A reader that answers on the first level. -/
lemma Eventually.of_succ {Q : Nat → Prop} (h : ∀ n, Q (n + 1)) : Eventually Q :=
  Eventually.succ (P := fun _ => True) ⟨0, fun _ _ => trivial⟩ fun n _ => h n

variable {us us' : List Placed} {node : Node} {line column : Nat}

/-- An operand starts with a token that ends nothing. -/
lemma Derives.operand_head (h : Derives .operand v us rest nodes w) :
    endsInputs us.head? = false := by
  cases h <;> rfl

lemma Derives.expression_head {floor : Nat} (h : Derives (.expression floor) v us rest nodes w) :
    endsInputs us.head? = false := by
  cases h with
  | @expression _ _ _ _ _ _ us us' _ hleft _ =>
    have hhead := hleft.operand_head
    cases us with
    | nil => cases hhead
    | cons t us => exact hhead

/-- A token that ends nothing is no separator, and it does not end the text. -/
lemma exists_cons_of_head (h : endsInputs us.head? = false) (more : List Placed) :
    ∃ t us', us = t :: us' ∧ dropSeparators (us ++ more) = t :: (us' ++ more) ∧
      t.token ≠ .endOfText := by
  cases us with
  | nil => cases h
  | cons t us =>
    refine ⟨t, us, rfl, ?_, ?_⟩
    · cases htoken : t.token <;> simp [endsInputs, htoken] at h <;>
        simp [dropSeparators, htoken, Token.isSeparator]
    · intro htoken
      simp [endsInputs, htoken] at h

lemma endsInputs_append (h : endsInputs us.head? = false) (more : List Placed) :
    endsInputs (us ++ more).head? = false := by
  obtain ⟨t, us, rfl, -⟩ := exists_cons_of_head h more
  exact h

/-- A token that ends a sequence is no separator and not the mark of the end. -/
lemma isSeparator_of_closes {closer : Closer} {token : Token} (h : closer.closes token = true) :
    token.isSeparator = false ∧ token ≠ .endOfText := by
  cases closer <;> cases token <;> simp [Closer.closes] at h <;> simp [Token.isSeparator]

lemma single_of_done {r : Reader Node} (h : r ts v = .done node rest w) :
    single r ts v = .done [node] rest w := single_eq_done_iff.mpr ⟨node, rfl, h⟩

lemma done_of_single {r : Reader Node} (h : single r ts v = .done [node] rest w) :
    r ts v = .done node rest w := by
  obtain ⟨node', hnode, h⟩ := single_eq_done_iff.mp h
  obtain rfl : node = node' := List.singleton_inj.mp hnode
  exact h

/-- What a bare word introduces. -/
lemma operand_word {word : String} :
    Grammar.operand (bound + 1) (⟨.bare word, line, column⟩ :: ts) v =
      (match Opening.ofWord word with
        | .definition => definition (sequence bound) line
        | .conditional form => conditional (expression bound 0) form line
        | .truth value => give (.truth value line)
        | .stray => fail (.unexpectedToken word line)
        | .call => call (inputs bound) word line) ts v := by
  rw [Grammar.operand, next_bind_cons]
  rfl

/-- An operator that does not bind tighter than the floor ends the expression. -/
lemma operators_of_le {floor : Nat} {left : Node}
    (h : ∀ op, ts.head?.map Placed.token = some (.operator op) → op.precedence ≤ floor) :
    operators (bound + 1) floor left ts v = .done left ts v := by
  by_cases hop : ∃ op, ts.head?.map Placed.token = some (.operator op)
  · obtain ⟨op, hop⟩ := hop
    obtain ⟨⟨token, l, c⟩, hhead, rfl⟩ := Option.map_eq_some_iff.mp hop
    rw [← List.cons_head?_tail hhead, operators_operator, if_neg (Nat.not_lt.mpr (h op hop))]
  · exact operators_other (not_exists.mp hop)

lemma group_of_keyword {x : Reader Node} {xs : Closer → Reader (List Node)}
    (hsep : dropSeparators ts = ts)
    (h : ∀ name, ts.head?.map Placed.token = some (.bare name) → isKeyword name = true) :
    group x xs line ts v = group.enclosed x line ts v := by
  by_cases hbare : ∃ name, ts.head?.map Placed.token = some (.bare name)
  · obtain ⟨name, hname⟩ := hbare
    obtain ⟨⟨token, l, c⟩, hhead, rfl⟩ := Option.map_eq_some_iff.mp hname
    rw [← List.cons_head?_tail hhead, group_bare, if_pos (h name hname)]
  · exact group_other hsep (not_exists.mp hbare)

lemma params_append {heads : List Placed} {names : List String}
    (hheads : heads.map paramName? = names.map some)
    (hstop : ∀ t ∈ ts.head?, paramName? t = none) :
    params (heads ++ ts) v = .done names ts v := by
  induction heads generalizing names with
  | nil =>
    obtain rfl : names = [] := by simpa using hheads.symm
    exact params_of_head hstop
  | cons t heads ih =>
    obtain ⟨name, names, rfl, hname, hnames⟩ := List.map_eq_cons_iff.mp hheads.symm
    rw [List.cons_append, params_cons hname.symm, bind_of_done (ih hnames.symm)]
    rfl

lemma branch_of_derives {floor : Nat} {x : Reader Node}
    (h : Derives (.expression floor) v us rest nodes w) :
    branch x line (us ++ rest) v = x (us ++ rest) v := by
  obtain ⟨t, us, rfl, -, hne⟩ := exists_cons_of_head h.expression_head rest
  rw [branch_eq, List.cons_append, not_isEnd_cons hne]
  rfl

/-- One expression between parentheses. -/
lemma operand_enclosed {ss ss' : List Placed} {close : Placed} (hss : AllSeparators ss)
    (hss' : AllSeparators ss') (hclose : close.token = .closeParen)
    (hkeyword : ∀ name, us.head?.map Placed.token = some (.bare name) → isKeyword name = true)
    (hhead : endsInputs us.head? = false)
    (h : expression bound 0 (us ++ (ss' ++ close :: rest)) v =
      .done node (ss' ++ close :: rest) w) :
    operand (bound + 1) (⟨.openParen, line, column⟩ :: (ss ++ us ++ ss' ++ [close]) ++ rest) v =
      .done node rest w := by
  obtain ⟨t, us, rfl, hdrop, -⟩ := exists_cons_of_head hhead (ss' ++ close :: rest)
  have hseparators : dropSeparators (ss ++ (t :: us) ++ ss' ++ [close] ++ rest) =
      t :: us ++ (ss' ++ close :: rest) := by
    rw [List.append_assoc, List.append_assoc, List.append_assoc, dropSeparators_append hss,
      List.singleton_append, hdrop]
    rfl
  have hend : closing line node (ss' ++ close :: rest) w = .done node rest w := by
    have hclosed : dropSeparators (ss' ++ close :: rest) = close :: rest := by
      rw [dropSeparators_append hss']
      simp [dropSeparators, hclose, Token.isSeparator]
    rw [closing, hclosed]
    exact if_pos (by simp [hclose])
  rw [operand, List.cons_append, next_bind_cons]
  show group _ _ _ _ _ = _
  rw [← group_dropSeparators, hseparators,
    group_of_keyword (hseparators ▸ dropSeparators_idem) (by simpa using hkeyword), enclosed_eq,
    bind_of_done h, hend]

/-- A call in parentheses. -/
lemma operand_groupCall {ss : List Placed} {name : String} {l c : Nat} (hss : AllSeparators ss)
    (hkeyword : isKeyword name = false) (harity : (v.arity? name).isSome)
    (h : sequence bound (.paren line) (us ++ rest) v = .done nodes rest w) :
    operand (bound + 1) (⟨.openParen, line, column⟩ :: (ss ++ ⟨.bare name, l, c⟩ :: us) ++ rest) v =
      .done (.call (Text.lower name) nodes line) rest w := by
  have hseparators : dropSeparators (ss ++ ⟨.bare name, l, c⟩ :: us ++ rest) =
      ⟨.bare name, l, c⟩ :: (us ++ rest) := by
    rw [List.append_assoc, dropSeparators_append hss]
    rfl
  have hknown : (v.arity? name).isNone = false := by
    rw [← Option.not_isSome, harity]
    rfl
  rw [operand, List.cons_append, next_bind_cons]
  show group _ _ _ _ _ = _
  rw [← group_dropSeparators, hseparators, group_bare, hkeyword, hknown]
  exact bind_of_done h

lemma definition_eq {name : String} {names : List String} {body : List Node} {l c : Nat}
    {heads : List Placed} (hkeyword : isKeyword (Text.lower name) = false)
    (hbuiltin : v.isBuiltin (Text.lower name) = false)
    (hheads : heads.map paramName? = names.map some)
    (hstop : ∀ t ∈ (us ++ rest).head?, paramName? t = none)
    (h : sequence bound (.definition (Text.lower name) line) (us ++ rest)
      (v.declare (Text.lower name) (.fixed names.length)) = .done body rest w) :
    definition (sequence bound) line (⟨.bare name, l, c⟩ :: (heads ++ us ++ rest)) v =
      .done (.definition (Text.lower name) names body line) rest w := by
  have hname : definedName line (⟨.bare name, l, c⟩ :: (heads ++ us ++ rest)) v =
      .done (Text.lower name) (heads ++ us ++ rest) v := by
    rw [definedName_bare, hkeyword, hbuiltin]
    rfl
  have hparams : params (heads ++ us ++ rest) v = .done names (us ++ rest) v := by
    rw [List.append_assoc]
    exact params_append hheads hstop
  refine (bind_of_done hname).trans ((bind_of_done hparams).trans ?_)
  exact bind_of_done h

/-- A sequence that does not end yet. -/
lemma sequence_item {closer : Closer} {ss : List Placed} {v' : Vocabulary}
    (hss : AllSeparators ss) (hopen : ∀ t ∈ us.head?, closer.closes t.token = false)
    (hhead : endsInputs us.head? = false)
    (hnode : expression bound 0 (us ++ (us' ++ rest)) v = .done node (us' ++ rest) v')
    (hnodes : sequence bound closer (us' ++ rest) v' = .done nodes rest w) :
    sequence (bound + 1) closer (ss ++ us ++ us' ++ rest) v = .done (node :: nodes) rest w := by
  obtain ⟨t, us, rfl, hdrop, hne⟩ := exists_cons_of_head hhead (us' ++ rest)
  have hseparators : dropSeparators (ss ++ (t :: us) ++ us' ++ rest) =
      t :: (us ++ (us' ++ rest)) := by
    rw [List.append_assoc, List.append_assoc, dropSeparators_append hss, hdrop]
  rw [sequence_cons hseparators hne, hopen t rfl, ← List.cons_append, if_neg Bool.false_ne_true,
    bind_of_done hnode]
  exact bind_of_done hnodes

/-- What has a derivation is read, with every bound that is large enough. -/
lemma Derives.exists_bound {goal : Goal} (h : Derives goal v us rest nodes w) :
    Eventually fun n => goal.read n (us ++ rest) v = .done nodes rest w := by
  induction h with
  | expression _ _ ihleft ihmore =>
    refine (ihleft.and ihmore).succ ?_
    rintro n ⟨hleft, hmore⟩
    refine single_of_done ?_
    rw [Grammar.expression, List.append_assoc, bind_of_done (done_of_single hleft)]
    exact done_of_single hmore
  | noOperator hle => exact .of_succ fun n => single_of_done (operators_of_le hle)
  | operator hfloor _ _ ihright ihmore =>
    refine (ihright.and ihmore).succ ?_
    rintro n ⟨hright, hmore⟩
    refine single_of_done ?_
    rw [List.cons_append, operators_operator, if_pos hfloor, List.append_assoc,
      bind_of_done (done_of_single hright)]
    exact done_of_single hmore
  | number hx =>
    refine .of_succ fun n => single_of_done ?_
    rw [Grammar.operand, List.singleton_append, next_bind_cons]
    simp only [hx]
    rfl
  | word | reference =>
    refine .of_succ fun n => single_of_done ?_
    rw [Grammar.operand]
    rfl
  | truth hword =>
    refine .of_succ fun n => single_of_done ?_
    rw [List.singleton_append, operand_word, hword]
    rfl
  | minus _ ih =>
    refine ih.succ fun n hn => single_of_done ?_
    rw [Grammar.operand, List.cons_append, next_bind_cons]
    exact bind_of_done (done_of_single hn)
  | list hitems hclose =>
    refine .of_succ fun n => single_of_done ?_
    rw [List.cons_append, List.append_assoc, List.singleton_append]
    exact hitems.operand_eq rfl hclose n _ _
  | enclosed hss hss' hclose hkeyword hnode ih =>
    exact ih.succ fun n hn => single_of_done
      (operand_enclosed hss hss' hclose hkeyword hnode.expression_head (done_of_single hn))
  | groupCall hss hkeyword harity _ ih =>
    exact ih.succ fun n hn => single_of_done (operand_groupCall hss hkeyword harity hn)
  | definition hword hkeyword hbuiltin hheads hstop _ ih =>
    refine ih.succ fun n hn => single_of_done ?_
    rw [List.cons_append, List.cons_append, operand_word, hword]
    exact definition_eq hkeyword hbuiltin hheads hstop hn
  | oneBranch hword hcondition hthen ihcondition ihthen =>
    refine (ihcondition.and ihthen).succ ?_
    rintro n ⟨hn, hn'⟩
    refine single_of_done ?_
    rw [List.cons_append, operand_word, hword, List.append_assoc]
    refine (bind_of_done ((branch_of_derives hcondition).trans (done_of_single hn))).trans ?_
    exact bind_of_done ((branch_of_derives hthen).trans (done_of_single hn'))
  | twoBranches hword hcondition hthen helse ihcondition ihthen ihelse =>
    refine ((ihcondition.and ihthen).and ihelse).succ ?_
    rintro n ⟨⟨hn, hn'⟩, hn''⟩
    refine single_of_done ?_
    rw [List.append_assoc] at hcondition hn
    rw [List.cons_append, operand_word, hword, List.append_assoc, List.append_assoc]
    refine (bind_of_done ((branch_of_derives hcondition).trans (done_of_single hn))).trans ?_
    refine (bind_of_done ((branch_of_derives hthen).trans (done_of_single hn'))).trans ?_
    exact bind_of_done ((branch_of_derives helse).trans (done_of_single hn''))
  | call hword harity _ ih =>
    refine ih.succ fun n hn => single_of_done ?_
    rw [List.cons_append, operand_word, hword]
    simp only [Grammar.call, bind, andThen, vocabulary, harity]
    exact bind_of_done hn
  | @ended v ss rest hss hend =>
    have hdrop : dropSeparators (ss ++ rest) = rest :=
      (dropSeparators_append hss).trans (dropSeparators_of_isEnd hend)
    refine .of_succ fun n => (sequence_of_isEnd (hdrop.symm ▸ hend)).trans ?_
    rw [hdrop]
    rfl
  | @closed closer v ss rest close hss hclose =>
    obtain ⟨hsep, hne⟩ := isSeparator_of_closes hclose
    have hdrop : dropSeparators (ss ++ [close] ++ rest) = close :: rest := by
      rw [List.append_assoc, dropSeparators_append hss]
      simp [dropSeparators, hsep]
    exact .of_succ fun n => (sequence_cons hdrop hne).trans (if_pos hclose)
  | item hss hopen hnode _ ihnode ihnodes =>
    refine (ihnode.and ihnodes).succ ?_
    rintro n ⟨hn, hn'⟩
    exact sequence_item hss hopen hnode.expression_head (done_of_single hn) hn'
  | enough => exact .of_succ fun n => rfl
  | noInput hends => exact .of_succ fun n => inputs_succ.trans (if_pos hends)
  | input hnode _ ihnode ihnodes =>
    refine (ihnode.and ihnodes).succ ?_
    rintro n ⟨hn, hn'⟩
    refine inputs_succ.trans ?_
    rw [List.append_assoc, endsInputs_append hnode.expression_head, if_neg Bool.false_ne_true,
      bind_of_done (done_of_single hn)]
    exact bind_of_done hn'

/-- Reading and derivations are the same thing. -/
theorem derivable_iff_read {goal : Goal} : Derivable goal ts v nodes rest w ↔
    ∃ n, goal.read n ts v = .done nodes rest w := by
  constructor
  · rintro ⟨us, rfl, hus⟩
    obtain ⟨b, hb⟩ := hus.exists_bound
    exact ⟨b, hb b (Nat.le_refl b)⟩
  · rintro ⟨n, hn⟩
    cases goal with
    | expression floor =>
      obtain ⟨node, rfl, h⟩ := single_eq_done_iff.mp hn
      exact (sound n).expression h
    | operators floor left =>
      obtain ⟨node, rfl, h⟩ := single_eq_done_iff.mp hn
      exact (sound n).operators h
    | operand =>
      obtain ⟨node, rfl, h⟩ := single_eq_done_iff.mp hn
      exact (sound n).operand h
    | sequence closer => exact (sound n).sequence hn
    | inputs count => exact (sound n).inputs hn

/-- A program ends where its text ends. -/
lemma Derives.isEnd_of_text {goal : Goal} (h : Derives goal v us rest nodes w)
    (hgoal : goal = .sequence .text) : isEnd rest.head? = true := by
  induction h with
  | ended _ hend => exact hend
  | @closed closer _ _ _ close _ hclose =>
    cases hgoal
    cases htoken : close.token <;> simp [Closer.closes] at hclose
  | item _ _ _ _ _ ih => exact ih hgoal
  | _ => cases hgoal

end Grammar

/-! ## Programs -/

open Grammar

/-- **Tokens form a program if and only if they have a derivation** up to the end of the text. -/
theorem Program.ofTokens_eq_ok_iff {ts : List Placed} {v w : Vocabulary} {program : Program} :
    Program.ofTokens ts v = (.ok program, w) ↔ ∃ us rest, ts = us ++ rest ∧
      isEnd rest.head? = true ∧ Derives (.sequence .text) v us rest program w := by
  constructor
  · intro h
    rw [Program.ofTokens_eq_ofResult] at h
    cases hread : Grammar.sequence (Program.bound ts) .text ts v with
    | done program' rest w' =>
      rw [hread] at h
      obtain ⟨hprogram, rfl⟩ := Prod.mk.inj h
      obtain rfl := Except.ok.inj hprogram
      obtain ⟨us, rfl, hus⟩ := (sound _).sequence hread
      exact ⟨us, rest, rfl, hus.isEnd_of_text rfl, hus⟩
    | failed e w' => simp [hread, Program.ofResult] at h
    | exhausted => simp [hread, Program.ofResult] at h
  · rintro ⟨us, rest, rfl, -, hus⟩
    obtain ⟨n, hn⟩ := derivable_iff_read.mp ⟨us, rfl, hus⟩
    replace hn : Grammar.sequence n .text (us ++ rest) v = .done program rest w := hn
    have hanswer : Grammar.sequence n .text (us ++ rest) v ≠ .exhausted := by simp [hn]
    rw [Program.ofTokens_eq hanswer, hn]
    rfl

end Logo
