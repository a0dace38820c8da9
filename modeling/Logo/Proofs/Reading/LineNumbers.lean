import Logo.Proofs.Lexing.Places
import Logo.Proofs.Reading.Contract
import Logo.Proofs.Reading.Derivation
import Mathlib.Logic.Relation

/-!
# The lines of trees and errors

A tree and an error of the reader carry the line of some token, but not always of the token that
was read last: of the keyword, of an opening bracket, of an operator, or the larger one of two. This
file shows that they all stand in the text, and that nothing inside a call, a list, a definition or
a conditional stands on an earlier line than the whole.

What carries the proof are two bounds. The tokens that are left never go back behind a lowest line,
and they end with the mark of the end, on the highest line at most. A reader that starts after its
opening token has the line of that token as its lowest line, so that whatever it reads or complains
about stands there or below. The mark of the end is never taken, so the tokens never run out.

* `InOrder`: the tokens that are left.
* `Node.OnLines`: the lines of a tree.
* `Grammar.ReadersOnLines`: the five readers that call each other.
* `reported_lines_exist`: the lines of all trees and errors of a text.
-/

namespace Logo

open Reader Likeness

variable {α β : Type} {high low low' line : Nat} {ts rest : List Placed} {t : Placed}
  {v w : Vocabulary}

/-! ## Tokens in order -/

/-- Tokens on lines from `low` to `high` that do not go back, up to a mark of the end. -/
inductive InOrder (high : Nat) : Nat → List Placed → Prop
  | mark {low : Nat} {t : Placed} : t.token = .endOfText → low ≤ t.line → t.line ≤ high →
      InOrder high low [t]
  | token {low : Nat} {t : Placed} {ts : List Placed} : low ≤ t.line → InOrder high t.line ts →
      InOrder high low (t :: ts)

namespace InOrder

lemma le (h : InOrder high low ts) : low ≤ high := by
  induction h with
  | mark _ hlow hhigh => exact hlow.trans hhigh
  | token hlow _ ih => exact hlow.trans ih

lemma mono (h : InOrder high low ts) (hle : low' ≤ low) : InOrder high low' ts := by
  cases h with
  | mark htoken hlow hhigh => exact .mark htoken (hle.trans hlow) hhigh
  | token hlow hrest => exact .token (hle.trans hlow) hrest

lemma head_le (h : InOrder high low (t :: ts)) : low ≤ t.line ∧ t.line ≤ high := by
  cases h with
  | mark _ hlow hhigh => exact ⟨hlow, hhigh⟩
  | token hlow hrest => exact ⟨hlow, hrest.le⟩

/-- The tokens after one that is not the mark of the end. -/
lemma tail (h : InOrder high low (t :: ts)) (ht : t.token ≠ .endOfText) :
    InOrder high t.line ts := by
  cases h with
  | mark htoken _ _ => exact absurd htoken ht
  | token _ hrest => exact hrest

/-- The same, from the same lowest line on. -/
lemma skip (h : InOrder high low (t :: ts)) (ht : t.token ≠ .endOfText) : InOrder high low ts :=
  (h.tail ht).mono h.head_le.1

lemma dropWhile {p : Placed → Bool} (hp : ∀ t, p t = true → t.token ≠ .endOfText)
    (h : InOrder high low ts) : InOrder high low (ts.dropWhile p) := by
  induction ts generalizing low with
  | nil => exact h
  | cons t ts ih =>
    rw [List.dropWhile_cons]
    split
    case isTrue ht => exact ih (h.skip (hp t ht))
    case isFalse => exact h

lemma dropSeparators (h : InOrder high low ts) : InOrder high low (dropSeparators ts) := by
  refine h.dropWhile fun t ht hend => ?_
  rw [hend] at ht
  exact absurd ht (by decide)

/-- Tokens with lines in order and the mark of the end after them. -/
lemma of_pairwise (hpairs : ts.Pairwise fun t t' => t.line ≤ t'.line)
    (hlines : ∀ t ∈ ts, low ≤ t.line ∧ t.line ≤ high) (hle : low ≤ high) {column : Nat} :
    InOrder high low (ts ++ [⟨.endOfText, high, column⟩]) := by
  induction ts generalizing low with
  | nil => exact .mark rfl hle (Nat.le_refl high)
  | cons t ts ih =>
    obtain ⟨hfirst, hpairs⟩ := List.pairwise_cons.mp hpairs
    obtain ⟨ht, hlines⟩ := List.forall_mem_cons.mp hlines
    refine .token ht.1 (ih hpairs (fun t' ht' => ?_) ht.2)
    exact ⟨hfirst t' ht', (hlines t' ht').2⟩

end InOrder

/-- The tokens of a text are in order. -/
lemma inOrder_of_tokenize {source : String} (h : tokenize source = .ok ts) :
    InOrder (lineAfter source.toList) 1 ts := by
  obtain ⟨lexemes, hcuts, rfl⟩ := cuts_of_tokenize h
  have hjoined := hcuts.joined_append
  rw [List.append_nil] at hjoined
  obtain ⟨hpairs, hlines⟩ := Lexeme.inOrder_placed .start lexemes
  rw [hjoined, Position.start_after] at hlines
  rw [Position.start_after]
  exact .of_pairwise hpairs hlines (Nat.le_add_right 1 _)

/-! ## Trees on lines -/

/-- The nodes right below a node, the items of a list among them. -/
def Node.children : Node → List Node
  | .list items _ => items
  | node => node.parts

/-- The node is a list, a call, a definition or a conditional, and starts with a bracket or a word
that comes before all that belongs to it. -/
def Node.leads : Node → Bool
  | .list _ _ | .call _ _ _ | .definition _ _ _ _ | .conditional _ _ _ _ _ => true
  | _ => false

/-- The tree stands on lines from `low` to `high`. What is below a node that leads stands on its
line or after it. -/
inductive Node.OnLines (high : Nat) : Nat → Node → Prop
  | mk {low : Nat} {node : Node} : low ≤ node.line → node.line ≤ high →
      (∀ child ∈ node.children, OnLines high (if node.leads then node.line else low) child) →
      OnLines high low node

namespace Node.OnLines

variable {node : Node}

lemma mono (h : node.OnLines high low) (hle : low' ≤ low) : node.OnLines high low' := by
  induction h generalizing low' with
  | mk hlow hhigh _ ih =>
    refine .mk (hle.trans hlow) hhigh fun child hchild => ih child hchild ?_
    split
    · exact Nat.le_refl _
    · exact hle

/-- A node without others below it. -/
lemma leaf (hchildren : node.children = []) (hlow : low ≤ node.line) (hhigh : node.line ≤ high) :
    node.OnLines high low :=
  .mk hlow hhigh (by simp [hchildren])

/-- A node that leads, on its own line. -/
lemma leading (hline : node.line = line) (hleads : node.leads = true) (hhigh : line ≤ high)
    (hchildren : ∀ child ∈ node.children, child.OnLines high line) : node.OnLines high line := by
  subst hline
  exact .mk (Nat.le_refl _) hhigh (by simpa [hleads] using hchildren)

lemma binary {op : Operator} {left right : Node} (hleft : left.OnLines high low)
    (hright : right.OnLines high low) (hlow : low ≤ line) (hhigh : line ≤ high) :
    (Node.binary op left right line).OnLines high low :=
  .mk hlow hhigh (by simpa [children, parts, leads] using ⟨hleft, hright⟩)

end Node.OnLines

/-! ## Readers on lines -/

/-- A value is as `Post` says, and an error stands on lines from `low` to `high`. -/
inductive Reader.Result.OnLines (high low : Nat) (Post : α → Prop) : Result α → Prop
  | done {a : α} {rest : List Placed} {w : Vocabulary} : Post a → InOrder high low rest →
      OnLines high low Post (.done a rest w)
  | failed {e : ParseError} {w : Vocabulary} : low ≤ e.line → e.line ≤ high →
      OnLines high low Post (.failed e w)
  | exhausted : OnLines high low Post .exhausted

/-- On tokens in order the reader stays on their lines. -/
def Reader.OnLines (high low : Nat) (Post : α → Prop) (r : Reader α) : Prop :=
  ∀ ts v, InOrder high low ts → (r ts v).OnLines high low Post

/-- A reader of one tree. -/
abbrev Reader.NodeOnLines (high low : Nat) (r : Reader Node) : Prop :=
  r.OnLines high low (Node.OnLines high low)

/-- A reader of trees. -/
abbrev Reader.NodesOnLines (high low : Nat) (r : Reader (List Node)) : Prop :=
  r.OnLines high low fun nodes => ∀ node ∈ nodes, node.OnLines high low

lemma Reader.Result.OnLines.mono {P Q : α → Prop} {result : Result α}
    (h : result.OnLines high low P) (hle : low' ≤ low) (hpost : ∀ a, P a → Q a) :
    result.OnLines high low' Q := by
  cases h with
  | done ha hrest => exact .done (hpost _ ha) (hrest.mono hle)
  | failed hlow hhigh => exact .failed (hle.trans hlow) hhigh
  | exhausted => exact .exhausted

namespace Reader.OnLines

variable {P : α → Prop} {Q : β → Prop}

/-- Tokens have the lowest line below the highest one. -/
lemma of_le {r : Reader α} (h : low ≤ high → r.OnLines high low P) : r.OnLines high low P :=
  fun ts v hts => h hts.le ts v hts

lemma give {a : α} (h : P a) : (Reader.give a).OnLines high low P := fun _ _ hts => .done h hts

lemma fail {e : ParseError} (hlow : low ≤ e.line) (hhigh : e.line ≤ high) :
    (Reader.fail e : Reader α).OnLines high low P := fun _ _ _ => .failed hlow hhigh

/-- An error on the lowest line. -/
lemma fail_lowest {e : ParseError} (h : e.line = low) :
    (Reader.fail e : Reader α).OnLines high low P :=
  fun _ _ hts => .failed h.ge (h.le.trans hts.le)

lemma bind {r : Reader α} {next : α → Reader β} (h : r.OnLines high low P)
    (hnext : ∀ a, P a → (next a).OnLines high low Q) : (r >>= next).OnLines high low Q := by
  intro ts v hts
  have hr := h ts v hts
  show (andThen r next ts v).OnLines high low Q
  unfold andThen
  generalize r ts v = result at hr
  cases hr with
  | done ha hrest => exact hnext _ ha _ _ hrest
  | failed hlow hhigh => exact .failed hlow hhigh
  | exhausted => exact .exhausted

lemma vocabulary : Reader.vocabulary.OnLines high low anyRead := fun _ _ hts => .done trivial hts

/-- A node and the nodes after it. -/
lemma cons {first : Reader Node} {others : Reader (List Node)} (hfirst : first.NodeOnLines high low)
    (hothers : others.NodesOnLines high low) :
    (first >>= fun node => others >>= fun nodes =>
      Reader.give (node :: nodes)).NodesOnLines high low :=
  hfirst.bind fun _ hnode => hothers.bind fun _ hnodes =>
    .give (List.forall_mem_cons.mpr ⟨hnode, hnodes⟩)

end Reader.OnLines

namespace Grammar

/-! ## Readers that are made of others -/

/-- The line of an opening parenthesis or of a definition is among the lines. -/
def Closer.OnLines (high low : Nat) : Closer → Prop
  | .text => True
  | .paren line | .definition _ line => low ≤ line ∧ line ≤ high

lemma onLines_atEnd {closer : Closer} (h : closer.OnLines high low) :
    closer.atEnd.NodesOnLines high low := by
  cases closer with
  | text => exact .give (List.forall_mem_nil _)
  | paren line => exact .fail h.1 h.2
  | definition name line => exact .fail h.1 h.2

/-- What has been read of a list and of the lists around it, the items last one first. Each list
starts on the line of the one around it or after it. -/
inductive OpenLists (high low : Nat) : Nat → List Node → List (Nat × List Node) → Prop
  | outermost {line : Nat} {items : List Node} : low ≤ line →
      (∀ item ∈ items, item.OnLines high line) → OpenLists high low line items []
  | inside {line outerLine : Nat} {items outerItems : List Node}
      {outer : List (Nat × List Node)} : outerLine ≤ line →
      (∀ item ∈ items, item.OnLines high line) → OpenLists high low outerLine outerItems outer →
      OpenLists high low line items ((outerLine, outerItems) :: outer)

namespace OpenLists

variable {items : List Node} {outer : List (Nat × List Node)}

lemma le (h : OpenLists high low line items outer) : low ≤ line := by
  induction h with
  | outermost hlow _ => exact hlow
  | inside hlow _ _ ih => exact ih.trans hlow

lemma onLines_items (h : OpenLists high low line items outer) :
    ∀ item ∈ items, item.OnLines high line := by
  cases h with
  | outermost _ hitems => exact hitems
  | inside _ hitems _ => exact hitems

/-- The list that has been read, once it is closed. -/
lemma list (h : OpenLists high low line items outer) (hhigh : line ≤ high) :
    (Node.list items.reverse line).OnLines high line :=
  .leading rfl rfl hhigh fun item hitem => h.onLines_items item (List.mem_reverse.mp hitem)

/-- A further item of the innermost list. -/
lemma item (h : OpenLists high low line items outer) {node : Node}
    (hnode : node.OnLines high line) : OpenLists high low line (node :: items) outer := by
  have hitems := List.forall_mem_cons.mpr ⟨hnode, h.onLines_items⟩
  cases h with
  | outermost hlow _ => exact .outermost hlow hitems
  | inside hlow _ houter => exact .inside hlow hitems houter

end OpenLists

lemma onLines_listFrom {items : List Node} {outer : List (Nat × List Node)}
    (h : OpenLists high low line items outer) (v : Vocabulary) (hts : InOrder high line ts) :
    (listFrom line items outer ts v).OnLines high low (Node.OnLines high low) := by
  induction ts generalizing line items outer with
  | nil => cases hts
  | cons t ts ih =>
    obtain ⟨token, l, c⟩ := t
    have hhigh := hts.le
    have hline := hts.head_le
    cases token with
    | endOfText => exact .failed h.le hhigh
    | newline | comment => exact ih h (hts.skip nofun)
    | openBracket => exact ih (.inside hline.1 (List.forall_mem_nil _) h) (hts.tail nofun)
    | closeBracket =>
      have hrest : InOrder high line ts := hts.skip nofun
      have hlist := h.list hhigh
      cases h with
      | outermost hlow _ => exact .done (hlist.mono hlow) (hrest.mono hlow)
      | inside hlow _ houter => exact ih (houter.item (hlist.mono hlow)) (hrest.mono hlow)
    | _ => exact ih (h.item (.leaf rfl hline.1 hline.2)) (hts.skip nofun)

lemma onLines_list (line : Nat) : (list line).NodeOnLines high line := fun _ v hts =>
  onLines_listFrom (.outermost (Nat.le_refl line) (List.forall_mem_nil _)) v hts

/-- What is wrong with the name of a definition is reported on the line of the definition. -/
lemma onLines_definedName (line : Nat) : (definedName line).OnLines high line anyRead := by
  intro ts v hts
  have hline := Nat.le_refl line
  have hhigh := hts.le
  rcases ts with _ | ⟨⟨token, l, c⟩, ts⟩
  · cases hts
  cases token with
  | bare word =>
    rw [definedName_bare]
    split
    · exact .failed hline hhigh
    · exact .done trivial (hts.skip nofun)
  | _ => exact .failed hline hhigh

lemma onLines_params : params.OnLines high low anyRead := by
  refine fun ts v hts => .done trivial (hts.dropWhile fun t ht hend => ?_)
  simp [paramName?, hend] at ht

lemma onLines_definition {xs : Closer → Reader (List Node)}
    (hxs : ∀ closer, closer.OnLines high line → (xs closer).NodesOnLines high line) :
    (definition xs line).NodeOnLines high line := by
  refine .of_le fun hhigh => ?_
  refine (onLines_definedName line).bind fun name _ => onLines_params.bind fun names _ => ?_
  have hdeclare : (declare name (.fixed names.length)).OnLines high line anyRead :=
    fun _ _ hts => .done trivial hts
  refine hdeclare.bind fun _ _ => ?_
  refine (hxs (.definition name line) ⟨Nat.le_refl line, hhigh⟩).bind fun body hbody => ?_
  exact .give (.leading rfl rfl hhigh hbody)

/-- If a branch is missing, the end of the text and the keyword are compared. -/
lemma onLines_branch {x : Reader Node} (hx : x.NodeOnLines high line) :
    (branch x line).NodeOnLines high line := by
  intro ts v hts
  rw [branch_eq]
  split
  · have hend : lineOf ts ≤ high := by
      rcases ts with _ | ⟨t, ts⟩
      · exact Nat.zero_le high
      · exact hts.head_le.2
    exact .failed (Nat.le_max_right _ _) (Nat.max_le.mpr ⟨hend, hts.le⟩)
  · exact hx ts v hts

lemma onLines_conditional {x : Reader Node} (hx : x.NodeOnLines high line)
    (form : ConditionalForm) : (conditional x form line).NodeOnLines high line := by
  refine .of_le fun hhigh => ?_
  refine (onLines_branch hx).bind fun condition hcondition =>
    (onLines_branch hx).bind fun thenBranch hthen => ?_
  cases form with
  | oneBranch =>
    refine .give (.leading rfl rfl hhigh ?_)
    simpa [Node.children, Node.parts] using ⟨hcondition, hthen⟩
  | twoBranches =>
    refine (onLines_branch hx).bind fun elseBranch helse => .give (.leading rfl rfl hhigh ?_)
    simpa [Node.children, Node.parts] using ⟨hcondition, hthen, helse⟩

lemma onLines_call {xs : Nat → Reader (List Node)}
    (hxs : ∀ count, (xs count).NodesOnLines high line) (name : String) :
    (call xs name line).NodeOnLines high line := by
  refine .of_le fun hhigh => Reader.OnLines.vocabulary.bind fun w _ => ?_
  split
  · exact (hxs _).bind fun nodes hnodes => .give (.leading rfl rfl hhigh hnodes)
  · exact .fail_lowest rfl
  · exact .fail_lowest rfl

lemma onLines_closing {node : Node} (hnode : node.OnLines high line) :
    (closing line node).NodeOnLines high line := by
  intro ts v hts
  have hhigh := hts.le
  replace hts := hts.dropSeparators
  unfold closing
  generalize dropSeparators ts = ts at hts
  rcases ts with _ | ⟨t, ts⟩
  · cases hts
  split
  case isTrue hclose =>
    have ht : t.token = .closeParen := by simpa using hclose
    exact .done hnode (hts.skip (by simp [ht]))
  case isFalse => exact .failed (Nat.le_refl line) hhigh

lemma onLines_group {x : Reader Node} {xs : Closer → Reader (List Node)}
    (hx : x.NodeOnLines high line)
    (hxs : ∀ closer, closer.OnLines high line → (xs closer).NodesOnLines high line) :
    (group x xs line).NodeOnLines high line := by
  have henclosed : (group.enclosed x line).NodeOnLines high line := by
    rw [enclosed_eq]
    exact hx.bind fun node hnode => onLines_closing hnode
  intro ts v hts
  have hhigh := hts.le
  replace hts := hts.dropSeparators
  rw [← group_dropSeparators]
  have hidem : dropSeparators (dropSeparators ts) = dropSeparators ts := dropSeparators_idem
  generalize dropSeparators ts = ts at hidem hts
  rcases ts with _ | ⟨⟨token, l, c⟩, ts⟩
  · cases hts
  cases token with
  | bare name =>
    rw [group_bare]
    split
    · exact henclosed _ v hts
    split
    · exact .failed (Nat.le_refl line) hhigh
    · have hparen := hxs (.paren line) ⟨Nat.le_refl line, hhigh⟩
      refine (hparen.bind fun inputs hinputs => ?_) ts v (hts.skip nofun)
      exact .give (.leading rfl rfl hhigh hinputs)
  | _ =>
    rw [group_other hidem (by simp)]
    exact henclosed _ v hts

/-! ## The mutual recursion -/

/-- The five readers with a bound stay on the lines of the tokens, whatever the lowest line is. -/
structure ReadersOnLines (high bound : Nat) : Prop where
  expression : ∀ low floor, (expression bound floor).NodeOnLines high low
  operators : ∀ low floor left, left.OnLines high low →
    (operators bound floor left).NodeOnLines high low
  operand : ∀ low, (operand bound).NodeOnLines high low
  sequence : ∀ low closer, closer.OnLines high low → (sequence bound closer).NodesOnLines high low
  inputs : ∀ low count, (inputs bound count).NodesOnLines high low

namespace ReadersOnLines

variable {bound : Nat} (ih : ReadersOnLines high bound)
include ih

lemma operators_succ (low floor : Nat) (left : Node) (hleft : left.OnLines high low) :
    (Grammar.operators (bound + 1) floor left).NodeOnLines high low := by
  intro ts v hts
  rcases ts with _ | ⟨⟨token, l, c⟩, ts⟩
  · cases hts
  cases token with
  | operator op =>
    rw [operators_operator]
    split
    · obtain ⟨hlow, hhigh⟩ := hts.head_le
      refine ((ih.expression low _).bind fun right hright => ?_) ts v (hts.skip nofun)
      exact ih.operators low floor _ (.binary hleft hright hlow hhigh)
    · exact .done hleft hts
  | _ =>
    rw [operators_other (by simp)]
    exact .done hleft hts

/-- After its first token, the line of that token is the lowest one. -/
lemma operand_succ (low : Nat) : (Grammar.operand (bound + 1)).NodeOnLines high low := by
  intro ts v hts
  rcases ts with _ | ⟨⟨token, l, c⟩, ts⟩
  · cases hts
  obtain ⟨hlow, hhigh⟩ := hts.head_le
  suffices hoperand : (Grammar.operand (bound + 1) (⟨token, l, c⟩ :: ts) v).OnLines high l
      (Node.OnLines high l) from hoperand.mono hlow fun node hnode => hnode.mono hlow
  have hfailed : ∀ e : ParseError, e.line = l →
      (Result.failed e v : Result Node).OnLines high l (Node.OnLines high l) := by
    rintro e rfl
    exact .failed (Nat.le_refl _) hhigh
  have hleaf : ∀ node : Node, node.children = [] → node.line = l → token ≠ .endOfText →
      (Result.done node ts v).OnLines high l (Node.OnLines high l) := by
    rintro node hchildren rfl htoken
    exact .done (.leaf hchildren (Nat.le_refl _) hhigh) (hts.tail htoken)
  have hexpression := ih.expression l 0
  rw [Grammar.operand, next_bind_cons]
  cases token with
  | number text =>
    dsimp only
    cases Number.read? text with
    | some x => exact hleaf _ rfl rfl (by simp)
    | none => exact hfailed _ rfl
  | word | reference => exact hleaf _ rfl rfl (by simp)
  | operator op =>
    cases op with
    | sub =>
      refine ((ih.operand l).bind fun node hnode => .give ?_) ts v (hts.tail (by simp))
      have hzero : (Node.number 0.0 l).OnLines high l := .leaf rfl (Nat.le_refl l) hhigh
      exact .binary hzero hnode (Nat.le_refl l) hhigh
    | _ => exact hfailed _ rfl
  | openParen => exact onLines_group hexpression (ih.sequence l) ts v (hts.tail (by simp))
  | openBracket => exact onLines_list l ts v (hts.tail (by simp))
  | bare word =>
    have hrest : InOrder high l ts := hts.tail (by simp)
    dsimp only
    cases Opening.ofWord word with
    | definition => exact onLines_definition (ih.sequence l) ts v hrest
    | conditional form => exact onLines_conditional hexpression form ts v hrest
    | truth value => exact hleaf _ rfl rfl (by simp)
    | stray => exact hfailed _ rfl
    | call => exact onLines_call (ih.inputs l) word ts v hrest
  | _ => exact hfailed _ rfl

lemma sequence_succ (low : Nat) (closer : Closer) (hcloser : closer.OnLines high low) :
    (Grammar.sequence (bound + 1) closer).NodesOnLines high low := by
  intro ts v hts
  have hdropped := hts.dropSeparators
  rcases htokens : dropSeparators ts with _ | ⟨t, rest⟩
  · rw [htokens] at hdropped
    cases hdropped
  by_cases hend : t.token = .endOfText
  · rw [sequence_of_isEnd (by rw [htokens, isEnd_cons.mpr hend])]
    exact onLines_atEnd hcloser _ v hdropped
  rw [sequence_cons htokens hend]
  rw [htokens] at hdropped
  split
  · exact .done (List.forall_mem_nil _) (hdropped.skip hend)
  · exact Reader.OnLines.cons (ih.expression low 0) (ih.sequence low closer hcloser) (t :: rest) v
      hdropped

lemma inputs_succ (low count : Nat) :
    (Grammar.inputs (bound + 1) count).NodesOnLines high low := by
  cases count with
  | zero => exact .give (List.forall_mem_nil _)
  | succ count =>
    intro ts v hts
    rw [Grammar.inputs_succ]
    split
    · exact .done (List.forall_mem_nil _) hts
    · exact Reader.OnLines.cons (ih.expression low 0) (ih.inputs low count) ts v hts

omit ih in
lemma all (high bound : Nat) : ReadersOnLines high bound := by
  induction bound with
  | zero =>
    exact ⟨fun _ _ _ _ _ => .exhausted, fun _ _ _ _ _ _ _ => .exhausted, fun _ _ _ _ => .exhausted,
      fun _ _ _ _ _ _ => .exhausted, fun _ _ _ _ _ => .exhausted⟩
  | succ bound ih =>
    refine ⟨fun low floor => ?_, ih.operators_succ, ih.operand_succ, ih.sequence_succ,
      ih.inputs_succ⟩
    exact (ih.operand low).bind fun left hleft => ih.operators low floor left hleft

end ReadersOnLines

end Grammar

/-! ## Texts -/

/-- The second node stands right below the first one. -/
def Node.IsAbove (node child : Node) : Prop := child ∈ node.children

lemma Node.OnLines.of_inside {node inner : Node} (h : node.OnLines high low)
    (hinner : Relation.ReflTransGen Node.IsAbove node inner) : inner.OnLines high low := by
  induction hinner with
  | refl => exact h
  | tail _ hchild ih =>
    obtain ⟨hlow, -, hchildren⟩ := ih
    have hchild := hchildren _ hchild
    split at hchild
    · exact hchild.mono hlow
    · exact hchild

/-- Nothing inside a node that leads stands on an earlier line. -/
lemma Node.OnLines.line_le {node inner : Node} (h : node.OnLines high low)
    (hleads : node.leads = true) (hinner : Relation.TransGen Node.IsAbove node inner) :
    node.line ≤ inner.line := by
  obtain ⟨child, hchild, hinside⟩ := Relation.TransGen.head'_iff.mp hinner
  obtain ⟨-, -, hchildren⟩ := h
  have honLines := hchildren child hchild
  rw [if_pos hleads] at honLines
  obtain ⟨hline, -, -⟩ := honLines.of_inside hinside
  exact hline

/-- What is read of tokens in order, and what is wrong with them, stands on their lines. -/
lemma Program.onLines_ofTokens (h : InOrder high low ts) (v : Vocabulary) :
    (∀ e w, Program.ofTokens ts v = (.error e, w) → low ≤ e.line ∧ e.line ≤ high) ∧
      ∀ program w, Program.ofTokens ts v = (.ok program, w) →
        ∀ node ∈ program, node.OnLines high low := by
  have honLines := (Grammar.ReadersOnLines.all high (Program.bound ts)).sequence low .text trivial
    ts v h
  have hanswer := sequence_ne_exhausted (Nat.le_refl (Program.bound ts)) .text v
  rw [Program.ofTokens_eq_ofResult]
  generalize Grammar.sequence (Program.bound ts) .text ts v = result at honLines hanswer
  cases honLines with
  | done hnodes _ =>
    refine ⟨nofun, ?_⟩
    rintro program w ⟨⟩
    exact hnodes
  | failed hlow hhigh =>
    refine ⟨?_, nofun⟩
    rintro e w ⟨⟩
    exact ⟨hlow, hhigh⟩
  | exhausted => exact absurd rfl hanswer

/-- A text that cannot be cut has its error on one of its lines. -/
lemma line_le_of_tokenize {source : String} {e : LexError} (h : tokenize source = .error e) :
    1 ≤ e.line ∧ e.line ≤ lineAfter source.toList := by
  obtain ⟨lexemes, rest, hcuts, -, hplace⟩ := stuck_of_tokenize h
  rw [Position.start_after] at hplace
  obtain ⟨hline, -⟩ := Position.mk.inj hplace
  rw [hline, ← hcuts.joined_append, lineAfter, lineAfter, List.count_append]
  omega

/-- **Every line that is reported is a line of the text.** The lines of a text are counted from one,
and there is one more than it has line ends.
* The error of a text that cannot be cut into tokens stands on one of them, and so does the error of
  a text that is no program.
* All nodes of a program stand on one of them, at any depth, and nothing inside a list, a call, a
  definition or a conditional stands on an earlier line than the whole. -/
theorem reported_lines_exist (source : String) (v : Vocabulary) :
    (∀ e, tokenize source = .error e →
      1 ≤ e.line ∧ e.line ≤ 1 + source.toList.count '\n') ∧
    (∀ e w, Program.ofText source v = (.error e, w) →
      1 ≤ e.line ∧ e.line ≤ 1 + source.toList.count '\n') ∧
    ∀ program w, Program.ofText source v = (.ok program, w) →
      ∀ root ∈ program, ∀ node, Relation.ReflTransGen Node.IsAbove root node →
        (1 ≤ node.line ∧ node.line ≤ 1 + source.toList.count '\n') ∧
        (node.leads = true → ∀ inner, Relation.TransGen Node.IsAbove node inner →
          node.line ≤ inner.line) := by
  refine ⟨fun e => line_le_of_tokenize, ?_⟩
  unfold Program.ofText
  cases htokens : tokenize source with
  | error e =>
    refine ⟨?_, nofun⟩
    rintro e' w ⟨⟩
    exact line_le_of_tokenize htokens
  | ok tokens =>
    obtain ⟨herror, hprogram⟩ := Program.onLines_ofTokens (inOrder_of_tokenize htokens) v
    refine ⟨herror, fun program w h root hroot node hnode => ?_⟩
    have honLines := (hprogram program w h root hroot).of_inside hnode
    refine ⟨?_, fun hleads inner hinner => honLines.line_le hleads hinner⟩
    obtain ⟨hlow, hhigh, -⟩ := honLines
    exact ⟨hlow, hhigh⟩

/-- A call over three lines, in which a comparison stands after the start of its left operand, and
a conditional that the text ends in the middle of, after the last line end. -/
theorem reported_lines_exist_nested :
    let inner : Node := .list [.word "b" 3] 3
    let list : Node := .list [.word "a" 2, inner] 2
    let comparison : Node := .binary .equal list (.reference "x" 3) 3
    let node : Node := .call "print" [comparison] 1
    (Program.ofText "(print\n[a\n[b]] = :x)" .standard = (.ok [node], .standard) ∧
      (1 ≤ inner.line ∧ inner.line ≤ 1 + "(print\n[a\n[b]] = :x)".toList.count '\n') ∧
      node.line ≤ inner.line) ∧
    Program.ofText "\nifelse :x [a\n]" .standard = (.error (.unexpectedEnd 3), .standard) ∧
      1 ≤ 3 ∧ 3 ≤ 1 + "\nifelse :x [a\n]".toList.count '\n' := by
  intro inner list comparison node
  have htokens : tokenize "(print\n[a\n[b]] = :x)" = .ok [⟨.openParen, 1, 1⟩,
      ⟨.bare "print", 1, 2⟩, ⟨.newline, 1, 0⟩, ⟨.openBracket, 2, 1⟩, ⟨.bare "a", 2, 2⟩,
      ⟨.newline, 2, 0⟩, ⟨.openBracket, 3, 1⟩, ⟨.bare "b", 3, 2⟩, ⟨.closeBracket, 3, 3⟩,
      ⟨.closeBracket, 3, 4⟩, ⟨.operator .equal, 3, 6⟩, ⟨.reference "x", 3, 8⟩, ⟨.closeParen, 3, 10⟩,
      ⟨.endOfText, 3, 11⟩] := by decide +kernel
  have htokens' : tokenize "\nifelse :x [a\n]" = .ok [⟨.newline, 1, 0⟩, ⟨.bare "ifelse", 2, 1⟩,
      ⟨.reference "x", 2, 8⟩, ⟨.openBracket, 2, 11⟩, ⟨.bare "a", 2, 12⟩, ⟨.newline, 2, 0⟩,
      ⟨.closeBracket, 3, 1⟩, ⟨.endOfText, 3, 2⟩] := by decide +kernel
  have hread : Program.ofText "(print\n[a\n[b]] = :x)" .standard = (.ok [node], .standard) := by
    rw [Program.ofText, htokens]
    rfl
  have hread' : Program.ofText "\nifelse :x [a\n]" .standard =
      (.error (.unexpectedEnd 3), .standard) := by
    rw [Program.ofText, htokens']
    rfl
  obtain ⟨-, -, hnodes⟩ := reported_lines_exist "(print\n[a\n[b]] = :x)" .standard
  obtain ⟨-, herror, -⟩ := reported_lines_exist "\nifelse :x [a\n]" .standard
  have hcomparison : node.IsAbove comparison := .head _
  have hlist : comparison.IsAbove list := .head _
  have hinner : list.IsAbove inner := .tail _ (.head _)
  have hinside : Relation.TransGen Node.IsAbove node inner :=
    .tail (.tail (.single hcomparison) hlist) hinner
  have hlines := (hnodes _ _ hread node (by simp) inner hinside.to_reflTransGen).1
  have hleads := (hnodes _ _ hread node (by simp) node .refl).2 rfl inner hinside
  exact ⟨⟨hread, hlines, hleads⟩, hread', herror _ _ hread'⟩

end Logo
