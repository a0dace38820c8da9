import Logo.Program.Grammar
import Logo.Proofs.Lines
import Mathlib.Data.List.DropRight
import Mathlib.Order.MinMax

/-!
# Tokens that read alike

Two lists of tokens read alike if they differ only in what the grammar does not look at: the lines
of the tokens, the columns, and how the end of the text is marked. This file runs the readers of the
grammar side by side on two such lists. A `Likeness` says which differences are allowed; the readers
on the left may also have a smaller bound than those on the right. If the reader on the left ends
with a value or an error, the one on the right ends with the same one, up to the allowed
differences.

A likeness may be *lenient*: then the right-hand list goes on with a line end where the left-hand
one ends, and only values are compared. What follows on the right has no say in them, because a line
end stops a reader in all places where the end of the text stops it without an error.

`Likeness.Sim` says that two readers give the same results on alike tokens. This file shows it for
the readers that are made of others, if it holds for those.
-/

namespace Logo

open Reader

/-! ## Allowed differences -/

/-- The number of the line on which a list of tokens goes on, or zero if it is empty. -/
def lineOf (tokens : List Placed) : Nat := tokens.head?.elim 0 Placed.line

/-- The tokens after the separators that come next. -/
def dropSeparators (tokens : List Placed) : List Placed :=
  tokens.dropWhile fun t => t.token.isSeparator

/-- What may be different in two lists of tokens and in what is read from them. -/
structure Likeness where
  /-- What is compared of a line on the left. -/
  left : Nat → Nat
  /-- What is compared of a line on the right. -/
  right : Nat → Nat
  /-- The vocabularies know the same names. -/
  Knows : Vocabulary → Vocabulary → Prop
  /-- The tokens on the left are at their end, and those on the right are where this is. -/
  Ends : List Placed → List Placed → Prop
  /-- Only values are compared, and the right-hand list may go on after the end of the other. -/
  lenient : Prop
  left_mono : Monotone left
  right_mono : Monotone right
  arity_eq : ∀ {v w}, Knows v w → ∀ name, v.arity? name = w.arity? name
  isBuiltin_eq : ∀ {v w}, Knows v w → ∀ name, v.isBuiltin name = w.isBuiltin name
  knows_declare : ∀ {v w}, Knows v w → ∀ name arity,
    Knows (v.declare name arity) (w.declare name arity)
  isEnd_left : ∀ {ts us}, Ends ts us → Grammar.isEnd ts.head? = true
  isEnd_right : ∀ {ts us}, Ends ts us →
    (Grammar.isEnd us.head? = true ∧ left (lineOf ts) = right (lineOf us)) ∨
      (lenient ∧ ∃ t us', us = t :: us' ∧ t.token = .newline)

namespace Likeness

variable (k : Likeness) {α β : Type}

/-- The tokens are the same up to the end, on lines that count as equal. -/
inductive Alike : List Placed → List Placed → Prop
  | ended {ts us : List Placed} : k.Ends ts us → Alike ts us
  | cons {t u : Placed} {ts us : List Placed} : t.token ≠ .endOfText → t.token = u.token →
      k.left t.line = k.right u.line → Alike ts us → Alike (t :: ts) (u :: us)

/-- The syntax trees differ in lines only. -/
def SameNode (a b : Node) : Prop := a.mapLines k.left = b.mapLines k.right

/-- The programs differ in lines only. -/
def SameNodes (as bs : Program) : Prop := Program.mapLines k.left as = Program.mapLines k.right bs

/-- The results are the same, up to allowed differences, unless the one on the left is no answer. -/
def Like (Same : α → α → Prop) : Result α → Result α → Prop
  | .done a ts v, result => ∃ b us w, result = .done b us w ∧ Same a b ∧ k.Alike ts us ∧ k.Knows v w
  | .failed e v, result => k.lenient ∨
      ∃ e' w, result = .failed e' w ∧ e.mapLine k.left = e'.mapLine k.right ∧ k.Knows v w
  | .exhausted, _ => True

/-- The readers give the same results on tokens that are alike. -/
def Sim (Same : α → α → Prop) (r s : Reader α) : Prop :=
  ∀ ⦃ts us v w⦄, k.Alike ts us → k.Knows v w → k.Like Same (r ts v) (s us w)

variable {k} {Same : α → α → Prop} {Same' : β → β → Prop} {ts us : List Placed}
  {v w : Vocabulary} {a b : α} {e e' : ParseError} {line line' : Nat}

lemma like_done (h : Same a b) (ht : k.Alike ts us) (hv : k.Knows v w) :
    k.Like Same (.done a ts v) (.done b us w) :=
  ⟨b, us, w, rfl, h, ht, hv⟩

lemma like_failed (h : e.mapLine k.left = e'.mapLine k.right) (hv : k.Knows v w) :
    k.Like Same (.failed e v) (.failed e' w) :=
  .inr ⟨e', w, rfl, h, hv⟩

lemma sim_give (h : Same a b) : k.Sim Same (give a) (give b) :=
  fun _ _ _ _ ht hv => like_done h ht hv

lemma sim_fail (h : e.mapLine k.left = e'.mapLine k.right) : k.Sim Same (fail e) (fail e') :=
  fun _ _ _ _ _ hv => like_failed h hv

lemma SameNode.cons {node node' : Node} {nodes nodes' : Program} (h : k.SameNode node node')
    (hs : k.SameNodes nodes nodes') : k.SameNodes (node :: nodes) (node' :: nodes') := by
  simp only [SameNodes, Program.mapLines] at hs ⊢
  rw [List.map_cons, List.map_cons, hs, h]

lemma SameNodes.call {nodes nodes' : Program} (hs : k.SameNodes nodes nodes') (name : String)
    (h : k.left line = k.right line') :
    k.SameNode (.call name nodes line) (.call name nodes' line') := by
  simp only [SameNodes, Program.mapLines] at hs
  simp [SameNode, Node.mapLines, hs, h]

/-- Readers one after the other. -/
lemma Like.bind {r s : Reader α} {next next' : α → Reader β} (h : k.Like Same (r ts v) (s us w))
    (hnext : ∀ a b, Same a b → k.Sim Same' (next a) (next' b)) :
    k.Like Same' ((r >>= next) ts v) ((s >>= next') us w) := by
  show k.Like Same' (andThen r next ts v) (andThen s next' us w)
  unfold andThen
  cases hres : r ts v with
  | done a rest after =>
    rw [hres] at h
    obtain ⟨b, rest', after', hres', hsame, hrest, hafter⟩ := h
    simpa only [hres'] using hnext a b hsame hrest hafter
  | failed e after =>
    rw [hres] at h
    rcases h with hlenient | ⟨e', after', hres', he, hafter⟩
    · exact .inl hlenient
    · simpa only [hres'] using like_failed he hafter
  | exhausted => trivial

lemma Sim.bind {r s : Reader α} {next next' : α → Reader β} (h : k.Sim Same r s)
    (hnext : ∀ a b, Same a b → k.Sim Same' (next a) (next' b)) :
    k.Sim Same' (r >>= next) (s >>= next') :=
  fun _ _ _ _ ht hv => (h ht hv).bind hnext

/-! ## The heads of alike lists -/

lemma isEnd_cons {t : Placed} : Grammar.isEnd (t :: ts).head? = true ↔ t.token = .endOfText := by
  simp [Grammar.isEnd]

lemma not_isEnd_cons {t : Placed} (h : t.token ≠ .endOfText) :
    Grammar.isEnd (t :: ts).head? = false := by
  simpa [Grammar.isEnd] using h

lemma head_ne_bare_of_isEnd (h : Grammar.isEnd ts.head? = true) (name : String) :
    ts.head?.map Placed.token ≠ some (.bare name) := by
  cases ts with
  | nil => simp
  | cons t ts => simp [isEnd_cons.mp h]

lemma dropSeparators_idem : dropSeparators (dropSeparators ts) = dropSeparators ts :=
  List.dropWhile_idempotent _ _

lemma skipSeparators_dropSeparators :
    skipSeparators (dropSeparators ts) v = skipSeparators ts v :=
  congrArg (Result.done () · v) dropSeparators_idem

lemma dropSeparators_of_isEnd (h : Grammar.isEnd ts.head? = true) : dropSeparators ts = ts := by
  cases ts with
  | nil => rfl
  | cons t ts => simp [dropSeparators, isEnd_cons.mp h, Token.isSeparator]

/-- The end on the left is an end on the right, too, if more than values are compared. -/
lemma lenient_or_isEnd (h : k.Ends ts us) : k.lenient ∨
    (Grammar.isEnd us.head? = true ∧ k.left (lineOf ts) = k.right (lineOf us)) := by
  rcases k.isEnd_right h with hend | ⟨hlenient, -⟩
  · exact .inr hend
  · exact .inl hlenient

lemma token_left (h : k.Ends ts us) {t : Placed} (ht : t ∈ ts.head?) : t.token = .endOfText := by
  have hend := k.isEnd_left h
  rw [Option.mem_def.mp ht] at hend
  simpa [Grammar.isEnd] using hend

/-- Where the left-hand list ends, nothing on the right starts an operator or an input. -/
lemma token_right (h : k.Ends ts us) {t : Placed} (ht : t ∈ us.head?) :
    t.token = .endOfText ∨ t.token = .newline := by
  rcases k.isEnd_right h with ⟨hend, -⟩ | ⟨-, t', us', rfl, ht'⟩
  · rw [Option.mem_def.mp ht] at hend
    exact .inl (by simpa [Grammar.isEnd] using hend)
  · obtain rfl : t' = t := by simpa using ht
    exact .inr ht'

/-- A token that ends neither a text nor a line comes next on both sides, or on none. -/
lemma Alike.head_token (h : k.Alike ts us) {token : Token} (hend : token ≠ .endOfText)
    (hline : token ≠ .newline) :
    ts.head?.map Placed.token = some token ↔ us.head?.map Placed.token = some token := by
  cases h with
  | ended h =>
    constructor
    · intro hhead
      obtain ⟨t, ht, rfl⟩ := Option.map_eq_some_iff.mp hhead
      exact absurd (token_left h ht) hend
    · intro hhead
      obtain ⟨t, ht, rfl⟩ := Option.map_eq_some_iff.mp hhead
      rcases token_right h ht with h | h
      · exact absurd h hend
      · exact absurd h hline
  | cons hne htoken hline hrest => simp [htoken]

/-- Separators stand in the same places, except after the end of the left-hand list. -/
lemma Alike.dropSeparators (h : k.Alike ts us) :
    k.Alike (Logo.dropSeparators ts) (Logo.dropSeparators us) ∨
      (k.lenient ∧ ∃ us', k.Ends (Logo.dropSeparators ts) us' ∧
        Logo.dropSeparators us = Logo.dropSeparators us') := by
  induction h with
  | @ended ts us h =>
    rw [dropSeparators_of_isEnd (k.isEnd_left h)]
    rcases lenient_or_isEnd h with hlenient | ⟨hend, -⟩
    · exact .inr ⟨hlenient, us, h, rfl⟩
    · rw [dropSeparators_of_isEnd hend]
      exact .inl (.ended h)
  | @cons t u ts us hne htoken hline hrest ih =>
    simp only [Logo.dropSeparators, List.dropWhile_cons, ← htoken] at ih ⊢
    split
    · exact ih
    · exact .inl (.cons hne htoken hline hrest)

/-! ## Readers that are made of others -/

/-- The closers differ in lines only. -/
inductive SameCloser (k : Likeness) : Grammar.Closer → Grammar.Closer → Prop
  | text : SameCloser k .text .text
  | paren {l m : Nat} : k.left l = k.right m → SameCloser k (.paren l) (.paren m)
  | definition {name : String} {l m : Nat} : k.left l = k.right m →
      SameCloser k (.definition name l) (.definition name m)

lemma SameCloser.closes_eq {c d : Grammar.Closer} (h : k.SameCloser c d) (token : Token) :
    c.closes token = d.closes token := by
  cases h <;> cases token <;> rfl

lemma sim_atEnd {c d : Grammar.Closer} (h : k.SameCloser c d) :
    k.Sim k.SameNodes c.atEnd d.atEnd := by
  cases h with
  | text => exact sim_give rfl
  | paren h => exact sim_fail (congrArg ParseError.unclosedParen h)
  | definition h => exact sim_fail (congrArg (ParseError.missingEnd _) h)

lemma sim_declare (name : String) (arity : Arity) :
    k.Sim (fun _ _ => True) (declare name arity) (declare name arity) :=
  fun _ _ _ _ ht hv => like_done trivial ht (k.knows_declare hv name arity)

lemma sim_vocabulary : k.Sim k.Knows vocabulary vocabulary :=
  fun _ _ _ _ ht hv => like_done hv ht hv

/-- Where no parameter comes next, none is read. -/
lemma params_of_head (h : ∀ t ∈ ts.head?, Grammar.paramName? t = none) :
    Grammar.params ts v = .done [] ts v := by
  cases ts with
  | nil => rfl
  | cons t ts => simp [Grammar.params, h t rfl]

lemma params_cons {t : Placed} {name : String} (h : Grammar.paramName? t = some name) :
    Grammar.params (t :: ts) v = (Grammar.params >>= fun names => give (name :: names)) ts v := by
  show _ = Result.done _ _ _
  simp [Grammar.params, h]

lemma sim_params : k.Sim Eq Grammar.params Grammar.params := by
  intro ts us v w ht hv
  induction ht with
  | @ended ts us hend =>
    have hnone : ∀ t : Placed, t.token = .endOfText ∨ t.token = .newline →
        Grammar.paramName? t = none := by
      rintro t (ht | ht) <;> simp [Grammar.paramName?, ht]
    rw [params_of_head fun t ht => hnone t (.inl (token_left hend ht)),
      params_of_head fun t ht => hnone t (token_right hend ht)]
    exact like_done rfl (.ended hend) hv
  | @cons t u ts us hne htoken hline hrest ih =>
    have hsame : Grammar.paramName? u = Grammar.paramName? t := by
      simp only [Grammar.paramName?, htoken]
    cases hname : Grammar.paramName? t with
    | none =>
      rw [params_of_head (by simpa using hname), params_of_head (by simpa [hsame] using hname)]
      exact like_done rfl (.cons hne htoken hline hrest) hv
    | some name =>
      rw [params_cons hname, params_cons (hsame.trans hname)]
      refine ih.bind fun names names' hnames => ?_
      rw [hnames]
      exact sim_give rfl

lemma definedName_of_isEnd (h : Grammar.isEnd ts.head? = true) :
    Grammar.definedName line ts v = .failed (.invalidDefinition .missingName line) v := by
  rcases ts with _ | ⟨⟨token, l, c⟩, ts⟩
  · rfl
  · obtain rfl : token = .endOfText := isEnd_cons.mp h
    rfl

lemma definedName_bare (word : String) (l c : Nat) :
    Grammar.definedName line (⟨.bare word, l, c⟩ :: ts) v =
      (if Grammar.isKeyword (Text.lower word) || v.isBuiltin (Text.lower word) then
        fail (.invalidDefinition (.taken (Text.lower word)) line)
      else give (Text.lower word)) ts v := by
  simp only [Grammar.definedName, bind, andThen, next, vocabulary, List.head?_cons, List.tail_cons,
    Option.map_some]
  rfl

lemma sim_definedName (h : k.left line = k.right line') :
    k.Sim Eq (Grammar.definedName line) (Grammar.definedName line') := by
  have hfail : ∀ problem, ParseError.mapLine k.left (.invalidDefinition problem line) =
      ParseError.mapLine k.right (.invalidDefinition problem line') := fun problem =>
    congrArg (ParseError.invalidDefinition problem) h
  intro ts us v w ht hv
  cases ht with
  | ended hend =>
    rw [definedName_of_isEnd (k.isEnd_left hend)]
    rcases lenient_or_isEnd hend with hlenient | ⟨hright, -⟩
    · exact .inl hlenient
    · rw [definedName_of_isEnd hright]
      exact like_failed (hfail _) hv
  | @cons t u ts us hne htoken hline hrest =>
    obtain ⟨token, l, c⟩ := t
    obtain ⟨token', l', c'⟩ := u
    obtain rfl : token = token' := htoken
    cases token with
    | bare word =>
      rw [definedName_bare, definedName_bare, k.isBuiltin_eq hv]
      split
      · exact like_failed (hfail _) hv
      · exact like_done rfl hrest hv
    | newline => exact like_failed (hfail .missingName) hv
    | endOfText => exact absurd rfl hne
    | _ => exact like_failed (hfail (.invalidName _)) hv

lemma branch_eq (x : Reader Node) : Grammar.branch x line ts v =
    (if Grammar.isEnd ts.head? then fail (.unexpectedEnd (max (lineOf ts) line)) else x) ts v := rfl

lemma sim_branch {x y : Reader Node} (hx : k.Sim k.SameNode x y) (h : k.left line = k.right line') :
    k.Sim k.SameNode (Grammar.branch x line) (Grammar.branch y line') := by
  intro ts us v w ht hv
  rw [branch_eq, branch_eq]
  cases ht with
  | ended hend =>
    rw [if_pos (k.isEnd_left hend)]
    rcases lenient_or_isEnd hend with hlenient | ⟨hright, hline⟩
    · exact .inl hlenient
    · rw [if_pos hright]
      refine like_failed (congrArg ParseError.unexpectedEnd ?_) hv
      rw [k.left_mono.map_max, k.right_mono.map_max, hline, h]
  | @cons t u ts us hne htoken hline hrest =>
    rw [not_isEnd_cons hne, not_isEnd_cons (htoken ▸ hne)]
    exact hx (.cons hne htoken hline hrest) hv

lemma sim_conditional {x y : Reader Node} (hx : k.Sim k.SameNode x y) (form : ConditionalForm)
    (h : k.left line = k.right line') :
    k.Sim k.SameNode (Grammar.conditional x form line) (Grammar.conditional y form line') := by
  refine (sim_branch hx h).bind fun a a' ha => (sim_branch hx h).bind fun b b' hb => ?_
  cases form with
  | oneBranch =>
    refine sim_give ?_
    simp only [SameNode] at ha hb
    simp [SameNode, Node.mapLines, ha, hb, h]
  | twoBranches =>
    refine (sim_branch hx h).bind fun c c' hc => sim_give ?_
    simp only [SameNode] at ha hb hc
    simp [SameNode, Node.mapLines, ha, hb, hc, h]

lemma sim_definition {xs ys : Grammar.Closer → Reader (List Node)}
    (hxs : ∀ name, k.Sim k.SameNodes (xs (.definition name line)) (ys (.definition name line')))
    (h : k.left line = k.right line') :
    k.Sim k.SameNode (Grammar.definition xs line) (Grammar.definition ys line') := by
  refine (sim_definedName h).bind fun name name' hname => ?_
  refine sim_params.bind fun names names' hnames => ?_
  subst hname hnames
  refine (sim_declare _ _).bind fun _ _ _ => (hxs name).bind fun body body' hbody => sim_give ?_
  simp only [SameNodes, Program.mapLines] at hbody
  simp [SameNode, Node.mapLines, hbody, h]

lemma sim_call {xs ys : Nat → Reader (List Node)}
    (hxs : ∀ count, k.Sim k.SameNodes (xs count) (ys count)) (name : String)
    (h : k.left line = k.right line') :
    k.Sim k.SameNode (Grammar.call xs name line) (Grammar.call ys name line') := by
  refine sim_vocabulary.bind fun v w hv => ?_
  rw [k.arity_eq hv]
  split
  · exact (hxs _).bind fun nodes nodes' hnodes => sim_give (hnodes.call _ h)
  · exact sim_fail (congrArg (ParseError.unexpectedToken _) h)
  · exact sim_fail (congrArg (ParseError.unknownCommand _) h)

/-! ## Groups and lists -/

/-- The end of a group with one expression. -/
def closing (line : Nat) (node : Node) : Reader Node := fun ts v =>
  if (dropSeparators ts).head?.map Placed.token = some .closeParen then
    .done node (dropSeparators ts).tail v
  else .failed (.unclosedParen line) v

lemma enclosed_eq (x : Reader Node) (line : Nat) :
    Grammar.group.enclosed x line = x >>= closing line := by
  refine congrArg (x >>= ·) (funext fun node => funext fun ts => funext fun v => ?_)
  have hskip : ∀ next : Unit → Reader Node,
      (skipSeparators >>= next) ts v = next () (dropSeparators ts) v := fun _ => rfl
  show (skipSeparators >>= _) ts v = _
  rw [hskip, closing]
  rcases dropSeparators ts with _ | ⟨⟨token, l, c⟩, rest⟩
  · rfl
  · cases token <;> rfl

lemma sim_closing {a b : Node} (hab : k.SameNode a b) (h : k.left line = k.right line') :
    k.Sim k.SameNode (closing line a) (closing line' b) := by
  have hopen : ∀ {ts : List Placed}, Grammar.isEnd ts.head? = true →
      ts.head?.map Placed.token ≠ some .closeParen := by
    intro ts hend
    rcases ts with _ | ⟨t, ts⟩
    · simp
    · simp [isEnd_cons.mp hend]
  have hfail : ParseError.mapLine k.left (.unclosedParen line) =
      ParseError.mapLine k.right (.unclosedParen line') := congrArg ParseError.unclosedParen h
  intro ts us v w ht hv
  unfold closing
  rcases ht.dropSeparators with halike | ⟨hlenient, _, hends, -⟩
  · generalize dropSeparators ts = ts, dropSeparators us = us at halike
    cases halike with
    | ended hend =>
      rw [if_neg (hopen (k.isEnd_left hend))]
      rcases lenient_or_isEnd hend with hlenient | ⟨hright, -⟩
      · exact .inl hlenient
      · rw [if_neg (hopen hright)]
        exact like_failed hfail hv
    | @cons t u ts us hne htoken hline hrest =>
      by_cases hclose : t.token = .closeParen
      · rw [if_pos (by simp [hclose]), if_pos (by simp [← htoken, hclose])]
        exact like_done hab hrest hv
      · rw [if_neg (by simpa using hclose), if_neg (by simpa [← htoken] using hclose)]
        exact like_failed hfail hv
  · rw [if_neg (hopen (k.isEnd_left hends))]
    exact .inl hlenient

/-- Separators at the start of a group do not matter. -/
lemma group_dropSeparators (x : Reader Node) (xs : Grammar.Closer → Reader (List Node)) :
    Grammar.group x xs line (dropSeparators ts) v = Grammar.group x xs line ts v := by
  simp only [Grammar.group, bind, andThen, skipSeparators_dropSeparators]

lemma group_bare {x : Reader Node} {xs : Grammar.Closer → Reader (List Node)} (name : String)
    (l c : Nat) : Grammar.group x xs line (⟨.bare name, l, c⟩ :: ts) v =
      if Grammar.isKeyword name then Grammar.group.enclosed x line (⟨.bare name, l, c⟩ :: ts) v
      else if (v.arity? name).isNone then .failed (.unknownCommand name line) v
      else
        (xs (.paren line) >>= fun inputs => give (.call (Text.lower name) inputs line)) ts v := by
  have hskip :
      skipSeparators (⟨.bare name, l, c⟩ :: ts) v = .done () (⟨.bare name, l, c⟩ :: ts) v :=
    rfl
  simp only [Grammar.group, bind, andThen, hskip, peek, List.head?_cons, Option.map_some]
  split
  · rfl
  · simp only [andThen, next, vocabulary, List.tail_cons]
    split
    · rfl
    · rfl

lemma group_other {x : Reader Node} {xs : Grammar.Closer → Reader (List Node)}
    (hsep : dropSeparators ts = ts) (h : ∀ name, ts.head?.map Placed.token ≠ some (.bare name)) :
    Grammar.group x xs line ts v = Grammar.group.enclosed x line ts v := by
  have hskip : skipSeparators ts v = .done () ts v := congrArg (Result.done () · v) hsep
  rcases ts with _ | ⟨⟨token, l, c⟩, ts⟩
  · rfl
  · simp only [Grammar.group, bind, andThen, hskip, peek, List.head?_cons, Option.map_some]
    cases token with
    | bare name => exact absurd rfl (h name)
    | _ => rfl

/-- The reader gives no value at the end of the tokens. -/
def Starts (r : Reader α) : Prop :=
  ∀ ts v a rest w, Grammar.isEnd ts.head? = true → r ts v ≠ .done a rest w

lemma like_of_ne_done {result other : Result α} (hlenient : k.lenient)
    (h : ∀ a ts v, result ≠ .done a ts v) : k.Like Same result other := by
  cases result with
  | done a ts v => exact absurd rfl (h a ts v)
  | failed e v => exact .inl hlenient
  | exhausted => trivial

/-- A value of two readers comes from a value of the first. -/
lemma exists_of_bind_eq_done {r : Reader α} {next : α → Reader β} {b : β} {rest : List Placed}
    (h : (r >>= next) ts v = .done b rest w) :
    ∃ a ts' v', r ts v = .done a ts' v' ∧ next a ts' v' = .done b rest w := by
  simp only [bind, andThen] at h
  cases hr : r ts v with
  | done a ts' v' => exact ⟨a, ts', v', rfl, by simpa only [hr] using h⟩
  | failed e v' => simp [hr] at h
  | exhausted => simp [hr] at h

lemma bind_of_done {r : Reader α} {next : α → Reader β} {a : α} (h : r ts v = .done a us w) :
    (r >>= next) ts v = next a us w := by
  simp only [bind, andThen, h]

lemma Starts.bind {r : Reader α} {next : α → Reader β} (h : Starts r) : Starts (r >>= next) := by
  intro ts v b rest w hend hres
  obtain ⟨a, ts', v', hr, -⟩ := exists_of_bind_eq_done hres
  exact h ts v a ts' v' hend hr

lemma sim_group {x y : Reader Node} {xs ys : Grammar.Closer → Reader (List Node)}
    (hx : k.Sim k.SameNode x y) (hstarts : Starts x)
    (hxs : k.Sim k.SameNodes (xs (.paren line)) (ys (.paren line')))
    (h : k.left line = k.right line') :
    k.Sim k.SameNode (Grammar.group x xs line) (Grammar.group y ys line') := by
  have henclosed : k.Sim k.SameNode (Grammar.group.enclosed x line)
      (Grammar.group.enclosed y line') := by
    rw [enclosed_eq, enclosed_eq]
    exact hx.bind fun a b hab => sim_closing hab h
  intro ts us v w ht hv
  rw [← group_dropSeparators, ← group_dropSeparators y]
  rcases ht.dropSeparators with halike | ⟨hlenient, _, hends, -⟩
  · have hidem : dropSeparators (dropSeparators ts) = dropSeparators ts := dropSeparators_idem
    have hidem' : dropSeparators (dropSeparators us) = dropSeparators us := dropSeparators_idem
    generalize dropSeparators ts = ts, dropSeparators us = us at halike hidem hidem'
    by_cases hbare : ∃ name, ts.head?.map Placed.token = some (.bare name)
    · -- the same bare word comes next on both sides
      obtain ⟨name, hname⟩ := hbare
      have hname' := (halike.head_token (by simp) (by simp)).mp hname
      rcases ts with _ | ⟨⟨token, l, c⟩, ts⟩
      · simp at hname
      rcases us with _ | ⟨⟨token', l', c'⟩, us⟩
      · simp at hname'
      obtain rfl : token = .bare name := by simpa using hname
      obtain rfl : token' = .bare name := by simpa using hname'
      rw [group_bare, group_bare, k.arity_eq hv]
      split
      · exact henclosed halike hv
      split
      · exact like_failed (congrArg (ParseError.unknownCommand name) h) hv
      · cases halike with
        | ended hend => exact absurd (token_left hend rfl) (by simp)
        | cons _ _ _ hrest =>
          exact (hxs hrest hv).bind fun nodes nodes' hnodes => sim_give (hnodes.call _ h)
    · have hbare' : ¬∃ name, us.head?.map Placed.token = some (.bare name) := by
        simpa [← halike.head_token] using hbare
      rw [group_other hidem (not_exists.mp hbare), group_other hidem' (not_exists.mp hbare')]
      exact henclosed halike hv
  · -- the list on the left is at its end, where a group has no value to compare
    have hend := k.isEnd_left hends
    refine like_of_ne_done hlenient fun a rest v' => ?_
    rw [group_other dropSeparators_idem fun name => ?_, enclosed_eq]
    · exact hstarts.bind _ _ _ _ _ hend
    · exact head_ne_bare_of_isEnd hend name

/-- The rest of a list, of which some items and outer lists have been read, as a reader. -/
def listFrom (line : Nat) (items : List Node) (outer : List (Nat × List Node)) : Reader Node :=
  fun ts v =>
    match Grammar.listItems line items outer ts with
    | .ok (node, rest) => .done node rest v
    | .error e => .failed e v

/-- What has been read of a list and of those around it differs in lines only. -/
def SameOuter (k : Likeness) : List (Nat × List Node) → List (Nat × List Node) → Prop :=
  List.Forall₂ fun x y => k.left x.1 = k.right y.1 ∧ k.SameNodes x.2 y.2

lemma listFrom_of_isEnd {items : List Node} {outer : List (Nat × List Node)}
    (h : Grammar.isEnd ts.head? = true) :
    listFrom line items outer ts v = .failed (.unclosedBracket line) v := by
  rcases ts with _ | ⟨⟨token, l, c⟩, ts⟩
  · rfl
  · obtain rfl : token = .endOfText := isEnd_cons.mp h
    rfl

lemma sim_listFrom {items items' : List Node} {outer outer' : List (Nat × List Node)}
    (h : k.left line = k.right line') (hitems : k.SameNodes items items')
    (houter : k.SameOuter outer outer') :
    k.Sim k.SameNode (listFrom line items outer) (listFrom line' items' outer') := by
  intro ts us v w ht hv
  -- one token at a time, with what has been read of the lists in the hypothesis
  induction ht generalizing line line' items items' outer outer' with
  | @ended ts us hend =>
    rw [listFrom_of_isEnd (k.isEnd_left hend)]
    rcases lenient_or_isEnd hend with hlenient | ⟨hright, -⟩
    · exact .inl hlenient
    · rw [listFrom_of_isEnd hright]
      exact like_failed (congrArg ParseError.unclosedBracket h) hv
  | @cons t u ts us hne htoken hline hrest ih =>
    obtain ⟨token, l, c⟩ := t
    obtain ⟨token', l', c'⟩ := u
    obtain rfl : token = token' := htoken
    have hlist : k.SameNode (.list items.reverse line) (.list items'.reverse line') := by
      simp only [SameNodes, Program.mapLines] at hitems
      simp [SameNode, Node.mapLines, h, hitems]
    cases token with
    | endOfText => exact absurd rfl hne
    | newline => exact ih h hitems houter
    | comment => exact ih h hitems houter
    | openBracket => exact ih hline rfl (.cons ⟨h, hitems⟩ houter)
    | closeBracket =>
      cases houter with
      | nil => exact like_done hlist hrest hv
      | cons hxy houter =>
        exact ih hxy.1 (hlist.cons hxy.2) houter
    | _ =>
      refine ih h (SameNode.cons ?_ hitems) houter
      exact congrArg (Node.word _) hline

end Likeness

end Logo
