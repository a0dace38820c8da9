import Logo.Proofs.Lexing.LineEnds
import Logo.Proofs.Reading.Phrases
import Mathlib.Data.List.Flatten

/-!
# Precedence

An expression that is written without parentheses is a *chain*: an operand, and then operators, each
with an operand after it. There are many ways to put the parentheses. The reader of expressions
picks one of them in a single pass, by a floor that rises and falls. This file says which one,
without a floor: in front of an operator stands what binds at least as tightly as it does, and
behind it stands what binds tighter. Only one way of grouping is like that.

Of the loop over the operators one thing is kept: the next operator does not bind tighter than the
one at the top of what has been grouped so far, because the right operand of that one would have
taken it.

* `Grouping.Ordered.unique`: there is at most one such way.
* `exists_operators_eq`: the loop over the operators finds it.
* `expression_groups`: the statement for expressions with any floor.
-/

namespace Logo

open Grammar

/-! ## Chains -/

/-- An operand that is one token behind any number of minus signs. -/
inductive Operand where
  /-- A number. -/
  | number (text : String) (line column : Nat) (readable : (Number.read? text).isSome = true)
  /-- A quoted word. -/
  | word (text : String) (line column : Nat)
  /-- The value of a variable. -/
  | reference (name : String) (line column : Nat)
  /-- A minus sign and an operand. -/
  | minus (line column : Nat) (operand : Operand)

namespace Operand

/-- How the operand is written. -/
def tokens : Operand → List Placed
  | number text line column _ => [⟨.number text, line, column⟩]
  | word text line column => [⟨.word text, line, column⟩]
  | reference name line column => [⟨.reference name, line, column⟩]
  | minus line column operand => ⟨.operator .sub, line, column⟩ :: operand.tokens

/-- The syntax tree of the operand. A minus sign takes it away from zero. -/
def node : Operand → Node
  | number text line _ readable => .number ((Number.read? text).get readable) line
  | word text line _ => .word text line
  | reference name line _ => .reference (Text.lower name) line
  | minus line _ operand => .binary .sub (.number 0.0 line) operand.node line

end Operand

/-- An operator and the operand after it. -/
structure Link where
  /-- The operator. -/
  op : Operator
  /-- The line of the operator. -/
  line : Nat
  /-- The column of the operator. -/
  column : Nat
  /-- The operand. -/
  operand : Operand

/-- How the operator and its operand are written. -/
def Link.tokens (link : Link) : List Placed :=
  ⟨.operator link.op, link.line, link.column⟩ :: link.operand.tokens

/-- The operator binds tighter than the floor. -/
def Link.exceeds (floor : Nat) (link : Link) : Bool := decide (floor < link.op.precedence)

/-! ## Ways of grouping -/

/-- A way to put parentheses into a chain. -/
inductive Grouping where
  /-- An operand alone. -/
  | operand (a : Operand)
  /-- Two parts with an operator between them. -/
  | infixed (op : Operator) (line column : Nat) (left right : Grouping)

namespace Grouping

/-- The operand that comes first. -/
def first : Grouping → Operand
  | operand a => a
  | infixed _ _ _ left _ => left.first

/-- The operators from left to right, each with the operand after it. -/
def links : Grouping → List Link
  | operand _ => []
  | infixed op line column left right =>
    left.links ++ ⟨op, line, column, right.first⟩ :: right.links

/-- The syntax tree. -/
def node : Grouping → Node
  | operand a => a.node
  | infixed op line _ left right => .binary op left.node right.node line

/-- The operator at the top. -/
def top? : Grouping → Option Operator
  | operand _ => none
  | infixed op _ _ _ _ => some op

/-- The operator of every left part binds at least as tightly as the one that it belongs to, and the
operator of every right part binds tighter. -/
def Ordered : Grouping → Prop
  | operand _ => True
  | infixed op _ _ left right => left.Ordered ∧ right.Ordered ∧
      (∀ o ∈ left.top?, op.precedence ≤ o.precedence) ∧
      ∀ o ∈ right.top?, op.precedence < o.precedence

variable {s t : Grouping}

lemma exists_mem_links {o : Operator} (h : o ∈ t.top?) : ∃ link ∈ t.links, link.op = o := by
  cases t with
  | operand a => cases h
  | infixed op line column left right =>
    obtain rfl : op = o := by simpa [top?] using h
    exact ⟨⟨op, line, column, right.first⟩, by simp [links], rfl⟩

/-- Two orderly parts with an operator between them, if all operators of the right part bind
tighter. -/
lemma ordered_infixed {op : Operator} {line column : Nat} (hs : s.Ordered) (ht : t.Ordered)
    (htop : ∀ o ∈ s.top?, op.precedence ≤ o.precedence)
    (hlinks : ∀ link ∈ t.links, link.exceeds op.precedence = true) :
    (infixed op line column s t).Ordered := by
  refine ⟨hs, ht, htop, fun o ho => ?_⟩
  obtain ⟨link, hlink, rfl⟩ := exists_mem_links ho
  exact of_decide_eq_true (hlinks link hlink)

/-- No operator binds less tightly than the one at the top. -/
lemma Ordered.le_of_mem_links {p : Nat} (h : t.Ordered) (htop : ∀ o ∈ t.top?, p ≤ o.precedence) :
    ∀ link ∈ t.links, p ≤ link.op.precedence := by
  induction t with
  | operand a => exact List.forall_mem_nil _
  | infixed op line column left right ihleft ihright =>
    obtain ⟨hleft, hright, hle, hlt⟩ := h
    have hp : p ≤ op.precedence := htop op rfl
    refine List.forall_mem_append.mpr ⟨?_, List.forall_mem_cons.mpr ⟨hp, ?_⟩⟩
    · exact ihleft hleft fun o ho => hp.trans (hle o ho)
    · exact ihright hright fun o ho => hp.trans (hlt o ho).le

/-- The operators at the top of two orderly ways to group one chain stand at the same place: of two
different places, the right one would bind tighter and not tighter than the left one. -/
lemma Ordered.not_links_append {op op' : Operator} {line column line' column' : Nat}
    {left right left' right' : Grouping} {between : List Link}
    (h : (infixed op line column left right).Ordered)
    (h' : (infixed op' line' column' left' right').Ordered)
    (hleft : ∃ a, left'.links = left.links ++ ⟨op, line, column, a⟩ :: between)
    (hright : ∃ a, right.links = between ++ ⟨op', line', column', a⟩ :: right'.links) : False := by
  obtain ⟨a, hleft⟩ := hleft
  obtain ⟨a', hright⟩ := hright
  have hle : op'.precedence ≤ op.precedence :=
    h'.1.le_of_mem_links h'.2.2.1 ⟨op, line, column, a⟩ (by simp [hleft])
  have hlt : op.precedence < op'.precedence :=
    h.2.1.le_of_mem_links (p := op.precedence + 1) h.2.2.2 ⟨op', line', column', a'⟩
      (by simp [hright])
  exact absurd hle (Nat.not_le.mpr hlt)

/-- Two orderly ways to group one chain part it at the same operator. -/
lemma Ordered.links_inj {op op' : Operator} {line column line' column' : Nat}
    {left right left' right' : Grouping} (h : (infixed op line column left right).Ordered)
    (h' : (infixed op' line' column' left' right').Ordered)
    (hlinks : (infixed op line column left right).links =
      (infixed op' line' column' left' right').links) :
    left.links = left'.links ∧
      Link.mk op line column right.first = ⟨op', line', column', right'.first⟩ ∧
      right.links = right'.links := by
  rcases List.append_eq_append_iff.mp hlinks with ⟨between, hl, hr⟩ | ⟨between, hl, hr⟩
  · cases between with
    | nil =>
      obtain ⟨hlink, hrest⟩ := List.cons.inj hr
      exact ⟨(hl.trans (List.append_nil _)).symm, hlink, hrest⟩
    | cons link between =>
      obtain ⟨rfl, hrest⟩ := List.cons.inj hr
      exact (h.not_links_append h' ⟨_, hl⟩ ⟨_, hrest⟩).elim
  · cases between with
    | nil =>
      obtain ⟨hlink, hrest⟩ := List.cons.inj hr
      exact ⟨hl.trans (List.append_nil _), hlink.symm, hrest.symm⟩
    | cons link between =>
      obtain ⟨rfl, hrest⟩ := List.cons.inj hr
      exact (h'.not_links_append h ⟨_, hl⟩ ⟨_, hrest⟩).elim

/-- **There is at most one orderly way to group a chain.** -/
theorem Ordered.unique (hs : s.Ordered) (ht : t.Ordered) (hfirst : s.first = t.first)
    (hlinks : s.links = t.links) : s = t := by
  induction s generalizing t with
  | operand a =>
    cases t with
    | operand b => exact congrArg operand hfirst
    | infixed op line column left right => simp [links] at hlinks
  | infixed op line column left right ihleft ihright =>
    cases t with
    | operand b => simp [links] at hlinks
    | infixed op' line' column' left' right' =>
      obtain ⟨hleft, hlink, hright⟩ := hs.links_inj ht hlinks
      obtain ⟨rfl, rfl, rfl, hfirst'⟩ := Link.mk.inj hlink
      rw [ihleft hs.1 ht.1 hfirst hleft, ihright hs.2.1 ht.2.1 hfirst' hright]

end Grouping

/-! ## Reading a chain -/

/-- How operators with their operands are written. -/
def linkTokens (links : List Link) : List Placed := links.flatMap Link.tokens

/-- How a chain is written. -/
def chainTokens (a : Operand) (links : List Link) : List Placed := a.tokens ++ linkTokens links

lemma linkTokens_cons (link : Link) (links : List Link) :
    linkTokens (link :: links) =
      ⟨.operator link.op, link.line, link.column⟩ :: (link.operand.tokens ++ linkTokens links) :=
  rfl

variable {v : Vocabulary} {rest : List Placed} {bound : Nat}

lemma Operand.length_tokens_pos (a : Operand) : 0 < a.tokens.length := by
  cases a <;> simp [Operand.tokens]

/-- An operand is read as its tree, whatever comes after it. -/
lemma Operand.operand_eq (a : Operand) (h : a.tokens.length ≤ bound) :
    Grammar.operand bound (a.tokens ++ rest) v = .done a.node rest v := by
  obtain ⟨bound, rfl⟩ : ∃ b, bound = b + 1 := ⟨bound - 1, by have := a.length_tokens_pos; omega⟩
  induction a generalizing bound with
  | number text line column readable =>
    obtain ⟨x, hx⟩ := Option.isSome_iff_exists.mp readable
    rw [tokens, List.singleton_append, Grammar.operand, next_bind_cons]
    simp only [hx, node, Option.get_some]
    rfl
  | word text line column => rfl
  | reference name line column => rfl
  | minus line column operand ih =>
    have hlength : operand.tokens.length ≤ bound := by simpa [tokens] using h
    obtain ⟨bound, rfl⟩ : ∃ b, bound = b + 1 :=
      ⟨bound - 1, by have := operand.length_tokens_pos; omega⟩
    rw [tokens, List.cons_append, Grammar.operand, next_bind_cons]
    exact Likeness.bind_of_done (ih bound hlength)

/-- After the first operand the loop over the operators begins. -/
lemma Operand.expression_eq (a : Operand) (h : a.tokens.length ≤ bound) (floor : Nat) :
    expression (bound + 1) floor (a.tokens ++ rest) v = operators bound floor a.node rest v := by
  rw [expression]
  exact Likeness.bind_of_done (a.operand_eq h)

/-- One turn of the loop: the right operand of the first operator is read, with the precedence of
the operator as its floor, and the loop goes on after it. -/
lemma operators_link (link : Link) {links : List Link} {left right : Node} {floor : Nat}
    {after : List Placed} (h : link.operand.tokens.length ≤ bound)
    (hfloor : floor < link.op.precedence)
    (hright : operators bound link.op.precedence link.operand.node (linkTokens links ++ rest) v =
      .done right after v) :
    operators (bound + 2) floor left (linkTokens (link :: links) ++ rest) v =
      operators (bound + 1) floor (.binary link.op left right link.line) after v := by
  rw [← link.operand.expression_eq h] at hright
  rw [linkTokens_cons, List.cons_append, List.append_assoc, operators_operator, if_pos hfloor]
  exact Likeness.bind_of_done hright

lemma length_linkTokens_dropWhile_le (p : Link → Bool) (links : List Link) :
    (linkTokens (links.dropWhile p)).length ≤ (linkTokens links).length :=
  ((List.dropWhile_sublist p).flatMap Link.tokens).length_le

/-- Where the operators above a floor end, the next one does not bind tighter than the floor. -/
lemma precedence_le_of_mem_head?_dropWhile {floor : Nat} {links : List Link} {link : Link}
    (h : link ∈ (links.dropWhile (Link.exceeds floor)).head?) : link.op.precedence ≤ floor := by
  have hnot := List.head?_dropWhile_not (Link.exceeds floor) links
  rw [Option.mem_def.mp h] at hnot
  simpa [Link.exceeds] using hnot

/-- Taking operators down to a floor is taking them down to a higher one first. -/
lemma takeWhile_exceeds {low high : Nat} (h : low ≤ high) (links : List Link) :
    links.takeWhile (Link.exceeds low) = links.takeWhile (Link.exceeds high) ++
        (links.dropWhile (Link.exceeds high)).takeWhile (Link.exceeds low) ∧
      links.dropWhile (Link.exceeds low) =
        (links.dropWhile (Link.exceeds high)).dropWhile (Link.exceeds low) := by
  induction links with
  | nil => exact ⟨rfl, rfl⟩
  | cons link links ih =>
    by_cases hhigh : link.exceeds high
    · have hlow : link.exceeds low := by
        simp only [Link.exceeds, decide_eq_true_eq] at hhigh ⊢
        omega
      simp [hhigh, hlow, ih]
    · simp [hhigh]

/-- The operators after something that is grouped already. Those that bind tighter than the floor
are taken, with their operands, and everything together is in order again. -/
lemma exists_operators_eq (links : List Link) (t : Grouping) (floor : Nat) (ht : t.Ordered)
    (htop : ∀ link ∈ links.head?, ∀ o ∈ t.top?, link.op.precedence ≤ o.precedence)
    (hrest : NoOperator rest) :
    ∃ s : Grouping, s.Ordered ∧ s.first = t.first ∧
      s.links = t.links ++ links.takeWhile (Link.exceeds floor) ∧
      ∀ bound v, 2 * (linkTokens links).length < bound →
        operators bound floor t.node (linkTokens links ++ rest) v =
          .done s.node (linkTokens (links.dropWhile (Link.exceeds floor)) ++ rest) v := by
  induction hlength : links.length using Nat.strongRecOn generalizing links t floor with
  | ind length ih =>
  rcases links with _ | ⟨⟨op, line, column, a⟩, links⟩
  · refine ⟨t, ht, rfl, (List.append_nil _).symm, fun bound v hbound => ?_⟩
    obtain ⟨bound, rfl⟩ := Nat.exists_eq_add_of_lt hbound
    exact operators_of_le fun op hop => absurd hop (hrest op)
  by_cases hfloor : floor < op.precedence
  · have hexceeds : Link.exceeds floor ⟨op, line, column, a⟩ = true := decide_eq_true hfloor
    -- the right operand takes the operators that bind tighter than this one
    obtain ⟨right, hright, hfirst, hlinks, heq⟩ := ih links.length (by simp [← hlength]) links
      (.operand a) op.precedence trivial (fun _ _ o ho => nomatch ho) rfl
    have hlinks : right.links = links.takeWhile (Link.exceeds op.precedence) := hlinks
    have hjoined : (Grouping.infixed op line column t right).Ordered := by
      refine Grouping.ordered_infixed ht hright (htop _ rfl) fun link hlink => ?_
      rw [hlinks] at hlink
      exact List.mem_takeWhile_imp hlink
    -- so those that are left do not, and the loop goes on from the two parts together
    have hnext : ∀ link ∈ (links.dropWhile (Link.exceeds op.precedence)).head?,
        ∀ o ∈ (Grouping.infixed op line column t right).top?,
          link.op.precedence ≤ o.precedence := by
      intro link hlink o ho
      obtain rfl : op = o := Option.some.inj ho
      exact precedence_le_of_mem_head?_dropWhile hlink
    have hshort : (links.dropWhile (Link.exceeds op.precedence)).length < length := by
      have hle := (List.dropWhile_suffix (Link.exceeds op.precedence) (l := links)).length_le
      simp only [List.length_cons] at hlength
      omega
    obtain ⟨s, hs, hsfirst, hslinks, hseq⟩ := ih _ hshort _ _ floor hjoined hnext rfl
    obtain ⟨htake, hdrop⟩ := takeWhile_exceeds hfloor.le links
    refine ⟨s, hs, hsfirst, ?_, fun bound v hbound => ?_⟩
    · rw [hslinks, List.takeWhile_cons_of_pos hexceeds, htake, Grouping.links, hlinks, hfirst]
      simp [Grouping.first]
    · have hpos := a.length_tokens_pos
      have hle := length_linkTokens_dropWhile_le (Link.exceeds op.precedence) links
      simp only [linkTokens_cons, List.length_cons, List.length_append] at hbound
      obtain ⟨bound, rfl⟩ : ∃ b, bound = b + 2 := ⟨bound - 2, by omega⟩
      have hoperand : a.tokens.length ≤ bound := by omega
      rw [List.dropWhile_cons_of_pos hexceeds, hdrop,
        operators_link ⟨op, line, column, a⟩ hoperand hfloor (heq bound v (by omega))]
      exact hseq (bound + 1) v (by omega)
  · have hexceeds : ¬ Link.exceeds floor ⟨op, line, column, a⟩ = true := by
      simpa [Link.exceeds] using hfloor
    refine ⟨t, ht, rfl, by simp [List.takeWhile_cons_of_neg hexceeds], fun bound v hbound => ?_⟩
    obtain ⟨bound, rfl⟩ := Nat.exists_eq_add_of_lt hbound
    rw [List.dropWhile_cons_of_neg hexceeds, linkTokens_cons, List.cons_append]
    refine operators_of_le fun op' hop' => ?_
    obtain rfl : op = op' := by simpa using hop'
    exact Nat.not_lt.mp hfloor

/-- Every operator binds tighter than zero. -/
lemma exceeds_zero (link : Link) : link.exceeds 0 = true := by
  obtain ⟨op, line, column, a⟩ := link
  cases op <;> rfl

/-- The number tokens of a text spell numbers. -/
lemma readable_of_tokenize {source : String} {tokens : List Placed}
    (h : tokenize source = .ok tokens) :
    ∀ t ∈ tokens, ∀ text, t.token = .number text → (Number.read? text).isSome = true := by
  obtain ⟨body, mark, rfl, hmark, hbody⟩ := tokenize_lexical h
  intro t ht text htext
  rcases List.mem_append.mp ht with ht | ht
  · have hlexical := hbody t ht
    rw [htext] at hlexical
    have hread := isSome_read?_number hlexical
    rwa [String.ofList_toList] at hread
  · rw [List.mem_singleton.mp ht, hmark] at htext
    cases htext

/-- **Expressions are grouped by precedence.** Let no operator follow a chain of operands and
operators.
* With any floor, the reader of expressions takes the operators up to the first one that does not
  bind tighter than the floor, with their operands, and leaves what comes after them. It gives the
  tree of the one way to group them in which the operator of every left part binds at least as
  tightly as the one that it belongs to, and the operator of every right part binds tighter.
* With the floor zero it takes the whole chain.
* The number tokens of a text are operands.

Twice as many levels of the recursion as the chain has tokens are enough. -/
theorem expression_groups (a : Operand) (links : List Link) {rest : List Placed}
    (hrest : NoOperator rest) :
    (∀ floor, ∃ t : Grouping,
      (t.first = a ∧ t.links = links.takeWhile (Link.exceeds floor) ∧ t.Ordered) ∧
      (∀ s : Grouping, s.first = a → s.links = links.takeWhile (Link.exceeds floor) → s.Ordered →
        s = t) ∧
      ∀ bound v, 2 * (chainTokens a links).length ≤ bound →
        expression bound floor (chainTokens a links ++ rest) v =
          .done t.node (linkTokens (links.dropWhile (Link.exceeds floor)) ++ rest) v) ∧
    (∃ t : Grouping, (t.first = a ∧ t.links = links ∧ t.Ordered) ∧
      (∀ s : Grouping, s.first = a → s.links = links → s.Ordered → s = t) ∧
      ∀ bound v, 2 * (chainTokens a links).length ≤ bound →
        expression bound 0 (chainTokens a links ++ rest) v = .done t.node rest v) ∧
    ∀ source tokens, tokenize source = .ok tokens → ∀ t ∈ tokens, ∀ text, t.token = .number text →
      (Number.read? text).isSome = true := by
  have hfloors : ∀ floor, ∃ t : Grouping,
      (t.first = a ∧ t.links = links.takeWhile (Link.exceeds floor) ∧ t.Ordered) ∧
      (∀ s : Grouping, s.first = a → s.links = links.takeWhile (Link.exceeds floor) → s.Ordered →
        s = t) ∧
      ∀ bound v, 2 * (chainTokens a links).length ≤ bound →
        expression bound floor (chainTokens a links ++ rest) v =
          .done t.node (linkTokens (links.dropWhile (Link.exceeds floor)) ++ rest) v := by
    intro floor
    obtain ⟨t, ht, hfirst, hlinks, heq⟩ := exists_operators_eq links (.operand a) floor
      trivial (fun _ _ o ho => nomatch ho) hrest
    refine ⟨t, ⟨hfirst, hlinks, ht⟩, fun s hsfirst hslinks hs => ?_, fun bound v hbound => ?_⟩
    · exact hs.unique ht (hsfirst.trans hfirst.symm) (hslinks.trans hlinks.symm)
    · have hpos := a.length_tokens_pos
      rw [chainTokens, List.length_append] at hbound
      obtain ⟨bound, rfl⟩ : ∃ b, bound = b + 1 := ⟨bound - 1, by omega⟩
      rw [chainTokens, List.append_assoc, a.expression_eq (by omega)]
      exact heq bound v (by omega)
  refine ⟨hfloors, ?_, fun source tokens h => readable_of_tokenize h⟩
  have hall : ∀ link ∈ links, link.exceeds 0 = true := fun link _ => exceeds_zero link
  obtain ⟨t, ht, hunique, heq⟩ := hfloors 0
  rw [List.takeWhile_eq_self_iff.mpr hall] at ht hunique
  rw [List.dropWhile_eq_nil_iff.mpr hall] at heq
  exact ⟨t, ht, hunique, heq⟩

/-- In `1 - 2 * - :x < "w` before a closing parenthesis, the minus signs are an operator and a sign.
The product comes first, then the difference, then the comparison; with the floor of a sum only the
first operand is taken. -/
theorem expression_groups_mixed :
    let a : Operand := .number "1" 1 2 (by rfl)
    let links : List Link := [⟨.sub, 1, 4, .number "2" 1 6 (by rfl)⟩,
      ⟨.mul, 1, 8, .minus 1 10 (.reference "x" 1 12)⟩, ⟨.less, 1, 15, .word "w" 1 17⟩]
    let rest : List Placed := [⟨.closeParen, 1, 19⟩]
    let product : Node := .binary .mul (.number 2.0 1)
      (.binary .sub (.number 0.0 1) (.reference "x" 1) 1) 1
    NoOperator rest ∧
      expression 20 0 (chainTokens a links ++ rest) .standard =
        .done (.binary .less (.binary .sub (.number 1.0 1) product 1) (.word "w" 1) 1) rest
          .standard ∧
      expression 20 10 (chainTokens a links ++ rest) .standard =
        .done (.number 1.0 1) (linkTokens links ++ rest) .standard := by
  intro a links rest product
  have hrest : NoOperator rest := .cons (by simp)
  let inner : Grouping := .infixed .mul 1 8 (.operand (.number "2" 1 6 (by rfl)))
    (.operand (.minus 1 10 (.reference "x" 1 12)))
  let whole : Grouping := .infixed .less 1 15 (.infixed .sub 1 4 (.operand a) inner)
    (.operand (.word "w" 1 17))
  have hwhole : whole.Ordered := by
    simp [whole, inner, Grouping.Ordered, Grouping.top?, Operator.precedence]
  obtain ⟨hfloors, ⟨t, -, hunique, heq⟩, -⟩ := expression_groups a links hrest
  obtain ⟨t', -, hunique', heq'⟩ := hfloors 10
  obtain rfl : whole = t := hunique whole rfl rfl hwhole
  obtain rfl : Grouping.operand a = t' := hunique' (.operand a) rfl rfl trivial
  exact ⟨hrest, heq 20 .standard (by decide), heq' 20 .standard (by decide)⟩

end Logo
