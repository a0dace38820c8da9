import Logo.Program.Grammar
import Mathlib.Tactic.Common

/-!
# Lists

What stands between the brackets of a list is data: every token is an item, except for brackets,
which make an item of the list between them, and for line ends and comments, which are left out.
The reader of lists keeps the lists around the present one on a stack. This file says what it finds
without a stack, by the nesting of the brackets.

* `Balanced`: the brackets come in pairs.
* `Itemizes`: the items that stand between two brackets.
* `Itemizes.listItems_append` and `exists_itemizes_of_listItems`: the reader of lists finds them.
-/

namespace Logo

/-! ## Tokens between brackets -/

/-- The brackets of the tokens come in pairs, and the tokens do not hold the mark of the end. -/
inductive Balanced : List Placed → Prop
  | nil : Balanced []
  | leaf {t : Placed} {ts : List Placed} :
      t.token ∉ [.openBracket, .closeBracket, .endOfText] → Balanced ts → Balanced (t :: ts)
  | group {o c : Placed} {inner ts : List Placed} : o.token = .openBracket →
      c.token = .closeBracket → Balanced inner → Balanced ts → Balanced (o :: (inner ++ c :: ts))

/-- What stands between the brackets of a list, and the items of the list. -/
inductive Itemizes : List Placed → List Node → Prop
  | nil : Itemizes [] []
  | separator {t : Placed} {ts : List Placed} {nodes : List Node} : t.token.isSeparator = true →
      Itemizes ts nodes → Itemizes (t :: ts) nodes
  | word {t : Placed} {ts : List Placed} {nodes : List Node} :
      t.token ∉ [.openBracket, .closeBracket, .endOfText] → t.token.isSeparator = false →
      Itemizes ts nodes → Itemizes (t :: ts) (.word t.token.spelling t.line :: nodes)
  | list {o c : Placed} {inner ts : List Placed} {items nodes : List Node} :
      o.token = .openBracket → c.token = .closeBracket → Itemizes inner items →
      Itemizes ts nodes → Itemizes (o :: (inner ++ c :: ts)) (.list items o.line :: nodes)

/-- Tokens without brackets are balanced. -/
lemma balanced_of_flat {ts : List Placed}
    (h : ∀ t ∈ ts, t.token ∉ [.openBracket, .closeBracket, .endOfText]) : Balanced ts := by
  induction ts with
  | nil => exact .nil
  | cons t ts ih =>
    obtain ⟨hfirst, hrest⟩ := List.forall_mem_cons.mp h
    exact .leaf hfirst (ih hrest)

lemma Balanced.exists_itemizes {ts : List Placed} (h : Balanced ts) :
    ∃ nodes, Itemizes ts nodes := by
  induction h with
  | nil => exact ⟨[], .nil⟩
  | @leaf t ts hleaf _ ih =>
    obtain ⟨nodes, hnodes⟩ := ih
    cases hsep : t.token.isSeparator with
    | true => exact ⟨nodes, .separator hsep hnodes⟩
    | false => exact ⟨_, .word hleaf hsep hnodes⟩
  | group ho hc _ _ ihinner ihrest =>
    obtain ⟨items, hitems⟩ := ihinner
    obtain ⟨nodes, hnodes⟩ := ihrest
    exact ⟨_, .list ho hc hitems hnodes⟩

lemma Balanced.ne_endOfText {ts : List Placed} (h : Balanced ts) :
    ∀ t ∈ ts, t.token ≠ .endOfText := by
  induction h with
  | nil => simp
  | leaf hleaf _ ih =>
    simp only [List.mem_cons, List.not_mem_nil, or_false, not_or] at hleaf
    exact List.forall_mem_cons.mpr ⟨hleaf.2.2, ih⟩
  | group ho hc _ _ ihinner ihrest =>
    refine List.forall_mem_cons.mpr ⟨by simp [ho], List.forall_mem_append.mpr ⟨ihinner, ?_⟩⟩
    exact List.forall_mem_cons.mpr ⟨by simp [hc], ihrest⟩

lemma Itemizes.balanced {ts : List Placed} {nodes : List Node} (h : Itemizes ts nodes) :
    Balanced ts := by
  induction h with
  | nil => exact .nil
  | @separator t ts nodes hsep _ ih =>
    refine .leaf ?_ ih
    cases htoken : t.token <;> simp [htoken, Token.isSeparator] at hsep ⊢
  | word hleaf _ _ ih => exact .leaf hleaf ih
  | list ho hc _ _ ihinner ihrest => exact .group ho hc ihinner ihrest

/-- The reader of lists finds the items. -/
lemma Itemizes.listItems_append {ts : List Placed} {nodes : List Node} (h : Itemizes ts nodes)
    (line : Nat) (items : List Node) (outer : List (Nat × List Node)) (rest : List Placed) :
    Grammar.listItems line items outer (ts ++ rest) =
      Grammar.listItems line (nodes.reverse ++ items) outer rest := by
  induction h generalizing line items outer rest with
  | nil => rfl
  | @separator t ts nodes hsep _ ih =>
    rw [← ih]
    cases htoken : t.token <;> simp [htoken, Token.isSeparator] at hsep <;>
      simp [Grammar.listItems, htoken]
  | @word t ts nodes hleaf hsep _ ih =>
    rw [List.reverse_cons, List.append_assoc, List.singleton_append, ← ih]
    cases htoken : t.token <;> simp [htoken, Token.isSeparator] at hleaf hsep <;>
      simp [Grammar.listItems, htoken]
  | @list o c inner ts items' nodes ho hc _ _ ihinner ihrest =>
    -- the outer list waits on the stack while the inner one is read, and then goes on
    have hopen : Grammar.listItems line items outer (o :: (inner ++ c :: ts) ++ rest) =
        Grammar.listItems o.line [] ((line, items) :: outer) (inner ++ (c :: ts ++ rest)) := by
      simp [Grammar.listItems, ho]
    rw [hopen, ihinner, List.append_nil, List.cons_append, Grammar.listItems, hc]
    simp only [List.reverse_reverse]
    rw [ihrest, List.reverse_cons, List.append_assoc, List.singleton_append]

/-- A list between brackets is read as the list of its items. -/
lemma Itemizes.operand_eq {ts : List Placed} {nodes : List Node} (h : Itemizes ts nodes)
    {o c : Placed} (ho : o.token = .openBracket) (hc : c.token = .closeBracket) (bound : Nat)
    (rest : List Placed) (v : Vocabulary) :
    Grammar.operand (bound + 1) (o :: (ts ++ c :: rest)) v = .done (.list nodes o.line) rest v := by
  have hitems : Grammar.listItems o.line [] [] (ts ++ c :: rest) =
      .ok (.list nodes o.line, rest) := by
    rw [h.listItems_append, Grammar.listItems, hc, List.append_nil, List.reverse_reverse]
  obtain ⟨token, line, column⟩ := o
  obtain rfl : token = .openBracket := ho
  show Grammar.list line (ts ++ c :: rest) v = _
  rw [Grammar.list, hitems]

/-- What the reader of lists has found up to the bracket that closes the present list. -/
lemma exists_itemizes_of_listItems {ts rest : List Placed} {node : Node} {line : Nat}
    {items : List Node} {outer : List (Nat × List Node)}
    (h : Grammar.listItems line items outer ts = .ok (node, rest)) :
    ∃ inner close nodes more, ts = inner ++ close :: more ∧ close.token = .closeBracket ∧
      Itemizes inner nodes ∧
      Grammar.listItems line (nodes.reverse ++ items) outer (close :: more) = .ok (node, rest) := by
  induction hlength : ts.length using Nat.strongRecOn generalizing ts line items outer with
  | ind length ih =>
  rcases ts with _ | ⟨t, ts⟩
  · simp [Grammar.listItems] at h
  have hshort : ts.length < length := by simp [← hlength]
  cases htoken : t.token with
  | closeBracket => exact ⟨[], t, [], ts, rfl, htoken, .nil, h⟩
  | openBracket =>
    -- the inner list is found first, and then what comes after it
    simp only [Grammar.listItems, htoken] at h
    obtain ⟨inner, close, nodes, more, rfl, hclose, hinner, hrest⟩ := ih _ hshort h rfl
    simp only [Grammar.listItems, hclose, List.append_nil, List.reverse_reverse] at hrest
    have hshorter : more.length < length := by
      simp only [List.length_append, List.length_cons] at hshort
      omega
    obtain ⟨inner', close', nodes', more', rfl, hclose', hinner', hrest'⟩ := ih _ hshorter hrest rfl
    refine ⟨t :: (inner ++ close :: inner'), close', .list nodes t.line :: nodes', more', ?_,
      hclose', .list htoken hclose hinner hinner', ?_⟩
    · simp
    · simpa using hrest'
  | newline | comment =>
    simp only [Grammar.listItems, htoken] at h
    obtain ⟨inner, close, nodes, more, rfl, hclose, hinner, hrest⟩ := ih _ hshort h rfl
    have hseparator : t.token.isSeparator = true := by simp [htoken, Token.isSeparator]
    exact ⟨t :: inner, close, nodes, more, rfl, hclose, .separator hseparator hinner, hrest⟩
  | endOfText => simp [Grammar.listItems, htoken] at h
  | _ =>
    simp only [Grammar.listItems, htoken] at h
    obtain ⟨inner, close, nodes, more, rfl, hclose, hinner, hrest⟩ := ih _ hshort h rfl
    refine ⟨t :: inner, close, .word t.token.spelling t.line :: nodes, more, rfl, hclose,
      .word (by simp [htoken]) (by simp [htoken, Token.isSeparator]) hinner, ?_⟩
    simpa [htoken] using hrest

/-- A list between brackets that has been read, and its items. -/
lemma exists_itemizes_of_list {ts rest : List Placed} {node : Node} {line : Nat}
    {v w : Vocabulary} (h : Grammar.list line ts v = .done node rest w) :
    ∃ inner close nodes, ts = inner ++ close :: rest ∧ close.token = .closeBracket ∧
      Itemizes inner nodes ∧ node = .list nodes line ∧ w = v := by
  unfold Grammar.list at h
  cases hitems : Grammar.listItems line [] [] ts with
  | error e => simp [hitems] at h
  | ok found =>
    obtain ⟨node', rest'⟩ := found
    simp only [hitems, Reader.Result.done.injEq] at h
    obtain ⟨rfl, rfl, rfl⟩ := h
    obtain ⟨inner, close, nodes, more, rfl, hclose, hinner, hend⟩ :=
      exists_itemizes_of_listItems hitems
    simp only [Grammar.listItems, hclose, List.append_nil, List.reverse_reverse, Except.ok.injEq,
      Prod.mk.injEq] at hend
    obtain ⟨rfl, rfl⟩ := hend
    exact ⟨inner, close, nodes, rfl, hclose, hinner, rfl, rfl⟩

end Logo
