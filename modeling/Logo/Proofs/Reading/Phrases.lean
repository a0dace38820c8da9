import Logo.Proofs.Lines
import Logo.Proofs.Reading.WellFormed
import Logo.Proofs.Text.Keywords

/-!
# Phrases

How far an expression goes depends on the precedence of operators and on how many inputs a name
asks for. With parentheses around every operator, call, conditional and definition it does not. Such
an expression is a *phrase*. A phrase can be written down without knowing the vocabulary, and it is
read as the syntax tree that it was made for.

* `Phrase.tokens` and `Phrase.node`: how a phrase is written, and the tree that it stands for.
* `Phrase.Fits`: the names of a phrase can be understood where it stands.
* `Phrase.reads`: a phrase that fits is read as its tree.
* `Phrase.exists_sequence`: phrases one after the other.
-/

namespace Logo

open Grammar

/-! ## Phrases and their tokens -/

/-- An item of a list. -/
inductive Datum where
  /-- A token that stands for itself. -/
  | leaf (token : Token)
  /-- A list in brackets. -/
  | list (items : List Datum)

/-- An expression in which nothing is left to precedence and to numbers of inputs. -/
inductive Phrase where
  /-- A number, as it is written. -/
  | number (text : String)
  /-- A quoted word. -/
  | word (text : String)
  /-- `true` or `false`. -/
  | truth (value : Bool)
  /-- The value of a variable. -/
  | reference (name : String)
  /-- A list in brackets. -/
  | list (items : List Datum)
  /-- `( left op right )` -/
  | binary (op : Operator) (left right : Phrase)
  /-- `( name input ... )` -/
  | call (name : String) (inputs : List Phrase)
  /-- `( to name :param ...`, the instructions of the body on lines of their own, and `end )` -/
  | definition (name : String) (params : List String) (body : List Phrase)
  /-- `( if condition branch )` -/
  | oneBranch (condition thenBranch : Phrase)
  /-- `( ifelse condition branch branch )` -/
  | twoBranches (condition thenBranch elseBranch : Phrase)

mutual

/-- How an item of a list is written. -/
def Datum.tokens : Datum → List Token
  | .leaf token => [token]
  | .list items => .openBracket :: (Datum.tokensEach items ++ [.closeBracket])

/-- How the items of a list are written. -/
def Datum.tokensEach : List Datum → List Token
  | [] => []
  | item :: items => Datum.tokens item ++ Datum.tokensEach items

end

mutual

/-- The syntax tree of an item of a list. -/
def Datum.node : Datum → Node
  | .leaf token => .word token.spelling 0
  | .list items => .list (Datum.nodeEach items) 0

/-- The syntax trees of the items of a list. -/
def Datum.nodeEach : List Datum → List Node
  | [] => []
  | item :: items => Datum.node item :: Datum.nodeEach items

end

/-- The tokens of the item are neither brackets nor separators nor the mark of the end. -/
inductive Datum.Fits : Datum → Prop
  | leaf {token : Token} : token ∉ [.openBracket, .closeBracket, .newline, .comment, .endOfText] →
      Fits (.leaf token)
  | list {items : List Datum} : (∀ item ∈ items, Fits item) → Fits (.list items)

namespace Phrase

mutual

/-- How a phrase is written. -/
def tokens : Phrase → List Token
  | .number text => [.number text]
  | .word text => [.word text]
  | .truth value => [.bare (if value then "true" else "false")]
  | .reference name => [.reference name]
  | .list items => .openBracket :: (Datum.tokensEach items ++ [.closeBracket])
  | .binary op left right =>
    .openParen :: (tokens left ++ .operator op :: tokens right ++ [.closeParen])
  | .call name inputs => .openParen :: .bare name :: (tokensEach [] inputs ++ [.closeParen])
  | .definition name params body =>
    .openParen :: (.bare "to" :: .bare name :: (params.map .reference ++
      .newline :: (tokensEach [.newline] body ++ [.bare "end"])) ++ [.closeParen])
  | .oneBranch condition thenBranch =>
    .openParen :: (.bare "if" :: (tokens condition ++ tokens thenBranch) ++ [.closeParen])
  | .twoBranches condition thenBranch elseBranch =>
    .openParen :: (.bare "ifelse" :: (tokens condition ++ tokens thenBranch ++ tokens elseBranch) ++
      [.closeParen])

/-- How phrases are written, with some tokens after each. -/
def tokensEach (after : List Token) : List Phrase → List Token
  | [] => []
  | p :: ps => tokens p ++ after ++ tokensEach after ps

end

mutual

/-- The syntax tree that a phrase stands for, without lines. -/
def node : Phrase → Node
  | .number text => .number ((Number.read? text).getD 0.0) 0
  | .word text => .word text 0
  | .truth value => .truth value 0
  | .reference name => .reference name 0
  | .list items => .list (Datum.nodeEach items) 0
  | .binary op left right => .binary op (node left) (node right) 0
  | .call name inputs => .call name (nodeEach inputs) 0
  | .definition name params body => .definition name params (nodeEach body) 0
  | .oneBranch condition thenBranch =>
    .conditional .oneBranch (node condition) (node thenBranch) none 0
  | .twoBranches condition thenBranch elseBranch =>
    .conditional .twoBranches (node condition) (node thenBranch) (some (node elseBranch)) 0

/-- The syntax trees that phrases stand for. -/
def nodeEach : List Phrase → List Node
  | [] => []
  | p :: ps => node p :: nodeEach ps

end

mutual

/-- The names that are defined in a phrase, from left to right. -/
def defines : Phrase → List String
  | .binary _ left right => defines left ++ defines right
  | .call _ inputs => definesEach inputs
  | .definition name _ body => name :: definesEach body
  | .oneBranch condition thenBranch => defines condition ++ defines thenBranch
  | .twoBranches condition thenBranch elseBranch =>
    defines condition ++ defines thenBranch ++ defines elseBranch
  | _ => []

/-- The names that are defined in phrases. -/
def definesEach : List Phrase → List String
  | [] => []
  | p :: ps => defines p ++ definesEach ps

end

mutual

/-- The phrase can stand after definitions of the names `defined`. All names are in small letters.
What is called is known from the start, or is defined before or around the call; what is defined is
no keyword and not built in. -/
def Fits (known : Vocabulary) : (defined : List String) → Phrase → Prop
  | _, .number text => (Number.read? text).isSome
  | _, .word _ | _, .truth _ => True
  | _, .reference name => Text.lower name = name
  | _, .list items => ∀ item ∈ items, item.Fits
  | defined, .binary _ left right =>
    Fits known defined left ∧ Fits known (defined ++ defines left) right
  | defined, .call name inputs =>
    Text.lower name = name ∧ isKeyword name = false ∧
      ((known.arity? name).isSome ∨ name ∈ defined) ∧ FitsEach known defined inputs
  | defined, .definition name params body =>
    Text.lower name = name ∧ isKeyword name = false ∧ known.isBuiltin name = false ∧
      (∀ param ∈ params, Text.lower param = param) ∧ FitsEach known (defined ++ [name]) body
  | defined, .oneBranch condition thenBranch =>
    Fits known defined condition ∧ Fits known (defined ++ defines condition) thenBranch
  | defined, .twoBranches condition thenBranch elseBranch =>
    Fits known defined condition ∧ Fits known (defined ++ defines condition) thenBranch ∧
      Fits known (defined ++ (defines condition ++ defines thenBranch)) elseBranch

/-- The phrases can stand one after the other, after definitions of the names `defined`. -/
def FitsEach (known : Vocabulary) : (defined : List String) → List Phrase → Prop
  | _, [] => True
  | defined, p :: ps => Fits known defined p ∧ FitsEach known (defined ++ defines p) ps

end

@[simp] lemma nodeEach_eq (ps : List Phrase) : nodeEach ps = ps.map node := by
  induction ps with
  | nil => rfl
  | cons p ps ih => rw [nodeEach, ih, List.map_cons]

end Phrase

@[simp] lemma Datum.nodeEach_eq (items : List Datum) : Datum.nodeEach items = items.map node := by
  induction items with
  | nil => rfl
  | cons item items ih => rw [nodeEach, ih, List.map_cons]

/-! ## The vocabulary while a program is read -/

/-- The vocabulary knows what it knew at the start and the names defined since, which are not built
in. -/
structure Vocabulary.Holds (v known : Vocabulary) (defined : List String) : Prop where
  arity : ∀ name, (v.arity? name).isSome ↔
    (known.arity? name).isSome ∨ Text.lower name ∈ defined
  builtin : ∀ name, v.isBuiltin name = known.isBuiltin name

lemma Vocabulary.Holds.refl (v : Vocabulary) : v.Holds v [] where
  arity _ := by simp
  builtin _ := rfl

lemma Vocabulary.Holds.declare {v known : Vocabulary} {defined : List String} {name : String}
    (hv : v.Holds known defined) (hlower : Text.lower name = name)
    (hbuiltin : known.isBuiltin name = false) (count : Nat) :
    (v.declare name (.fixed count)).Holds known (defined ++ [name]) where
  arity other := by
    rw [arity?_declare, hlower]
    split
    · next h => simp [h]
    · next h => simp [hv.arity other, h]
  builtin other :=
    ((Continues.declare ((hv.builtin name).trans hbuiltin) count).builtin other).trans
      (hv.builtin other)

/-! ## Placed tokens -/

section Tokens

variable {us ts : List Placed} {token : Token} {tokens : List Token}

lemma exists_of_map_eq_cons (h : us.map Placed.token = token :: tokens) :
    ∃ line column us', us = ⟨token, line, column⟩ :: us' ∧ us'.map Placed.token = tokens := by
  obtain ⟨⟨token', line, column⟩, us', rfl, rfl, hus'⟩ := List.map_eq_cons_iff.mp h
  exact ⟨line, column, us', rfl, hus'⟩

lemma exists_of_map_eq_concat (h : us.map Placed.token = tokens ++ [token]) :
    ∃ us' t, us = us' ++ [t] ∧ us'.map Placed.token = tokens ∧ t.token = token := by
  obtain ⟨us', last, rfl, hus', hlast⟩ := List.map_eq_append_iff.mp h
  obtain ⟨t, rfl, ht⟩ := List.map_eq_singleton_iff.mp hlast
  exact ⟨us', t, rfl, hus', ht⟩

lemma exists_of_map_eq_singleton (h : us.map Placed.token = [token]) :
    ∃ line column, us = [⟨token, line, column⟩] := by
  obtain ⟨line, column, us', rfl, hus'⟩ := exists_of_map_eq_cons h
  obtain rfl : us' = [] := List.map_eq_nil_iff.mp hus'
  exact ⟨line, column, rfl⟩

lemma map_paramName? {heads : List Placed} {params : List String}
    (h : heads.map Placed.token = params.map .reference)
    (hparams : ∀ param ∈ params, Text.lower param = param) :
    heads.map paramName? = params.map some := by
  induction params generalizing heads with
  | nil =>
    obtain rfl : heads = [] := List.map_eq_nil_iff.mp h
    rfl
  | cons param params ih =>
    obtain ⟨line, column, heads', rfl, hheads⟩ := exists_of_map_eq_cons h
    obtain ⟨hparam, hrest⟩ := List.forall_mem_cons.mp hparams
    rw [List.map_cons, List.map_cons, ih hheads hrest]
    simp [paramName?, hparam]

/-- The tokens do not go on with an operator. -/
def NoOperator (ts : List Placed) : Prop := ∀ op, ts.head?.map Placed.token ≠ some (.operator op)

lemma NoOperator.cons {t : Placed} (h : ∀ op, t.token ≠ .operator op) : NoOperator (t :: ts) := by
  intro op hop
  exact h op (by simpa using hop)

lemma Grammar.AllSeparators.noOperator (h : AllSeparators us) (hts : NoOperator ts) :
    NoOperator (us ++ ts) := by
  rcases us with _ | ⟨t, us⟩
  · exact hts
  · refine .cons fun op hop => ?_
    have hsep := h t List.mem_cons_self
    simp [hop, Token.isSeparator] at hsep

end Tokens

/-- An operand that no operator follows is an expression. -/
lemma derives_expression {v w : Vocabulary} {us rest : List Placed} {n : Node} {floor : Nat}
    (h : Derives .operand v us rest [n] w) (hrest : NoOperator rest) :
    Derives (.expression floor) v us rest [n] w := by
  rw [← List.append_nil us]
  exact .expression h (.noOperator fun op hop => absurd hop (hrest op))

namespace Phrase

/-! ## How phrases begin -/

/-- The token can be the first one of a phrase. -/
def IsHead : Token → Prop
  | .bare text => text = "true" ∨ text = "false"
  | .number _ | .word _ | .reference _ | .openBracket | .openParen => True
  | _ => False

lemma exists_head (p : Phrase) : ∃ token more, p.tokens = token :: more ∧ IsHead token := by
  cases p with
  | truth value => cases value <;> exact ⟨_, _, rfl, by simp [IsHead]⟩
  | _ => exact ⟨_, _, rfl, trivial⟩

lemma IsHead.isKeyword {text : String} (h : IsHead (.bare text)) : isKeyword text = true := by
  rcases h with rfl | rfl <;> decide

lemma IsHead.closes {token : Token} (h : IsHead token) (closer : Closer) :
    closer.closes token = false := by
  cases token with
  | bare text =>
    cases closer with
    | definition =>
      show Text.sameLetters text "end" = false
      rcases h with rfl | rfl <;> decide
    | _ => rfl
  | closeParen => cases h
  | _ => cases closer <;> rfl

lemma IsHead.ne_operator {token : Token} (h : IsHead token) (op : Operator) :
    token ≠ .operator op := by
  rintro rfl
  exact h

variable {us ts : List Placed}

lemma noOperator_append {p : Phrase} (h : us.map Placed.token = p.tokens) :
    NoOperator (us ++ ts) := by
  obtain ⟨token, more, hp, hhead⟩ := p.exists_head
  obtain ⟨line, column, us, rfl, -⟩ := exists_of_map_eq_cons (h.trans hp)
  exact .cons hhead.ne_operator

lemma noOperator_appendEach {after : List Token} {ps : List Phrase}
    (h : us.map Placed.token = tokensEach after ps) (hts : NoOperator ts) :
    NoOperator (us ++ ts) := by
  cases ps with
  | nil =>
    obtain rfl : us = [] := List.map_eq_nil_iff.mp h
    exact hts
  | cons p ps =>
    rw [tokensEach, List.append_assoc] at h
    obtain ⟨us, us', rfl, hp, -⟩ := List.map_eq_append_iff.mp h
    rw [List.append_assoc]
    exact noOperator_append hp

end Phrase

/-! ## Lists -/

mutual

lemma Datum.exists_itemizes : ∀ {item : Datum} {us ts : List Placed} {nodes : List Node},
    item.Fits → us.map Placed.token = item.tokens → Itemizes ts nodes →
    ∃ n, Itemizes (us ++ ts) (n :: nodes) ∧ n.mapLines noLine = item.node
  | .leaf token, us, ts, nodes, .leaf hitem, hus, hts => by
    obtain ⟨line, column, rfl⟩ := exists_of_map_eq_singleton hus
    refine ⟨.word token.spelling line, .word ?_ ?_ hts, rfl⟩
    · simp_all
    · cases token <;> simp_all [Token.isSeparator]
  | .list items, us, ts, nodes, .list hitems, hus, hts => by
    obtain ⟨line, column, us', rfl, hus'⟩ := exists_of_map_eq_cons hus
    obtain ⟨inner, close, rfl, hinner, hclose⟩ := exists_of_map_eq_concat hus'
    obtain ⟨members, hmembers, hnodes⟩ := Datum.exists_itemizesEach hitems hinner
    refine ⟨.list members line, ?_, ?_⟩
    · rw [List.cons_append, List.append_assoc]
      exact .list rfl hclose hmembers hts
    · simp [Node.mapLines, Datum.node, hnodes, noLine]

lemma Datum.exists_itemizesEach : ∀ {items : List Datum} {us : List Placed},
    (∀ item ∈ items, item.Fits) → us.map Placed.token = Datum.tokensEach items →
    ∃ nodes, Itemizes us nodes ∧ nodes.map (Node.mapLines noLine) = items.map Datum.node
  | [], us, _, hus => by
    obtain rfl : us = [] := List.map_eq_nil_iff.mp hus
    exact ⟨[], .nil, rfl⟩
  | item :: items, us, hitems, hus => by
    obtain ⟨us, us', rfl, hitem, hrest⟩ := List.map_eq_append_iff.mp hus
    obtain ⟨hfits, hfits'⟩ := List.forall_mem_cons.mp hitems
    obtain ⟨nodes, hnodes, heq⟩ := Datum.exists_itemizesEach hfits' hrest
    obtain ⟨n, hn, hneq⟩ := Datum.exists_itemizes hfits hitem hnodes
    exact ⟨n :: nodes, hn, by simp [heq, hneq]⟩

end

/-! ## Phrases are read back -/

namespace Phrase

variable {known v w : Vocabulary} {defined : List String} {us rest : List Placed}

/-- The phrase is read as its syntax tree, wherever it fits. -/
def Reads (known : Vocabulary) (p : Phrase) : Prop :=
  ∀ ⦃defined : List String⦄ ⦃v : Vocabulary⦄ ⦃us : List Placed⦄ (rest : List Placed),
    p.Fits known defined → v.Holds known defined → us.map Placed.token = p.tokens →
    ∃ n w, Derives .operand v us rest [n] w ∧ n.mapLines noLine = p.node ∧
      w.Holds known (defined ++ p.defines)

/-- What stands in parentheses is read as what stands between them, if it does not begin with the
name of a procedure. -/
lemma exists_enclosed {tokens : List Token} {Post : Node → Vocabulary → Prop}
    (hus : us.map Placed.token = .openParen :: (tokens ++ [.closeParen]))
    (hhead : ∀ name, tokens.head? = some (.bare name) → isKeyword name = true)
    (h : ∀ inner rest, inner.map Placed.token = tokens → NoOperator rest →
      ∃ n w, Derives (.expression 0) v inner rest [n] w ∧ Post n w) :
    ∃ n w, Derives .operand v us rest [n] w ∧ Post n w := by
  obtain ⟨line, column, us', rfl, hus'⟩ := exists_of_map_eq_cons hus
  obtain ⟨inner, close, rfl, hinner, hclose⟩ := exists_of_map_eq_concat hus'
  obtain ⟨n, w, hn, hpost⟩ := h inner (close :: rest) hinner (.cons (by simp [hclose]))
  have hseparators : AllSeparators [] := by simp [AllSeparators]
  refine ⟨n, w, ?_, hpost⟩
  simpa using Derives.enclosed hseparators hseparators hclose
    (fun name hname => hhead name (by rw [← hinner, List.head?_map, hname])) hn

lemma isKeyword_of_head (p : Phrase) {more : List Token} {name : String}
    (h : (p.tokens ++ more).head? = some (.bare name)) : isKeyword name = true := by
  obtain ⟨token, rest, hp, hhead⟩ := p.exists_head
  obtain rfl : token = .bare name := by simpa [hp] using h
  exact hhead.isKeyword

/-- Phrases of one token. -/
lemma reads_leaf {p : Phrase} {token : Token} (htokens : p.tokens = [token])
    (hdefines : p.defines = []) (h : ∀ {defined line column v rest}, p.Fits known defined →
      ∃ n, Derives .operand v [⟨token, line, column⟩] rest [n] v ∧ n.mapLines noLine = p.node) :
    p.Reads known := by
  intro defined v us rest hfits hv hus
  obtain ⟨line, column, rfl⟩ := exists_of_map_eq_singleton (hus.trans htokens)
  obtain ⟨n, hn, hnode⟩ := h hfits
  exact ⟨n, v, hn, hnode, by simpa [hdefines] using hv⟩

lemma reads_number (text : String) : Reads known (.number text) := by
  refine reads_leaf rfl rfl fun {_ line _ _ _} hfits => ?_
  obtain ⟨x, hx⟩ := Option.isSome_iff_exists.mp hfits
  exact ⟨.number x line, .number hx, by simp [Node.mapLines, node, hx, noLine]⟩

lemma reads_word (text : String) : Reads known (.word text) :=
  reads_leaf rfl rfl fun _ => ⟨_, .word, rfl⟩

lemma reads_truth (value : Bool) : Reads known (.truth value) := by
  have hword : Opening.ofWord (if value then "true" else "false") = .truth value := by
    cases value <;> rfl
  exact reads_leaf rfl rfl fun _ => ⟨_, .truth hword, rfl⟩

lemma reads_reference (name : String) : Reads known (.reference name) := by
  refine reads_leaf rfl rfl fun {_ line _ _ _} hlower => ?_
  replace hlower : Text.lower name = name := hlower
  refine ⟨.reference (Text.lower name) line, .reference, ?_⟩
  simp [Node.mapLines, node, hlower, noLine]

lemma reads_list (items : List Datum) : Reads known (.list items) := by
  intro defined v us rest hitems hv hus
  obtain ⟨line, column, us', rfl, hus'⟩ := exists_of_map_eq_cons hus
  obtain ⟨inner, close, rfl, hinner, hclose⟩ := exists_of_map_eq_concat hus'
  obtain ⟨nodes, hnodes, heq⟩ := Datum.exists_itemizesEach hitems hinner
  refine ⟨_, v, .list hnodes hclose, ?_, by simpa [defines] using hv⟩
  simp [Node.mapLines, node, heq, noLine]

lemma reads_binary (op : Operator) {left right : Phrase} (hleft : left.Reads known)
    (hright : right.Reads known) : Reads known (.binary op left right) := by
  intro defined v us rest ⟨hfits, hfits'⟩ hv hus
  refine exists_enclosed hus (fun name hname => ?_) fun inner rest hinner hrest => ?_
  · exact left.isKeyword_of_head hname
  obtain ⟨ls, ts, rfl, hls, hts⟩ := List.map_eq_append_iff.mp hinner
  obtain ⟨line, column, rs, rfl, hrs⟩ := exists_of_map_eq_cons hts
  obtain ⟨l, v', hl, hlnode, hv'⟩ :=
    hleft (⟨.operator op, line, column⟩ :: (rs ++ rest)) hfits hv hls
  obtain ⟨r, w, hr, hrnode, hw⟩ := hright rest hfits' hv' hrs
  have hfloor : 0 < op.precedence := by cases op <;> decide
  have hmore : Derives (.operators 0 l) v' (⟨.operator op, line, column⟩ :: (rs ++ [])) rest
      [.binary op l r line] w :=
    .operator hfloor (derives_expression hr hrest) (.noOperator fun op hop => absurd hop (hrest op))
  rw [List.append_nil] at hmore
  refine ⟨_, w, .expression hl hmore, ?_, by simpa [defines] using hw⟩
  simp [Node.mapLines, node, hlnode, hrnode, noLine]

/-- Phrases that are read one after the other, up to the end of a sequence. -/
lemma exists_sequence {closer : Closer} {after : List Token} {ps : List Phrase}
    {ss tail : List Placed} (hps : ∀ p ∈ ps, p.Reads known) (hfits : FitsEach known defined ps)
    (hv : v.Holds known defined) (hafter : ∀ token ∈ after, token.isSeparator = true)
    (hus : us.map Placed.token = tokensEach after ps) (hss : AllSeparators ss)
    (hnext : NoOperator (tail ++ rest))
    (hend : ∀ ss w, AllSeparators ss → Derives (.sequence closer) w (ss ++ tail) rest [] w) :
    ∃ nodes w, Derives (.sequence closer) v (ss ++ us ++ tail) rest nodes w ∧
      nodes.map (Node.mapLines noLine) = ps.map node ∧
      w.Holds known (defined ++ definesEach ps) := by
  induction ps generalizing defined v us ss with
  | nil =>
    obtain rfl : us = [] := List.map_eq_nil_iff.mp hus
    exact ⟨[], v, by simpa using hend ss v hss, rfl, by simpa [definesEach] using hv⟩
  | cons p ps ih =>
    obtain ⟨hp, hps'⟩ := List.forall_mem_cons.mp hps
    obtain ⟨hfit, hfits'⟩ := hfits
    obtain ⟨us₁, us', rfl, hus₁, hus'⟩ := List.map_eq_append_iff.mp hus
    obtain ⟨us₀, as, rfl, hus₀, has⟩ := List.map_eq_append_iff.mp hus₁
    have hseparators : AllSeparators as := by
      intro t ht
      exact hafter t.token (has ▸ List.mem_map_of_mem ht)
    obtain ⟨n, v', hn, hnode, hv'⟩ := hp ((as ++ us' ++ tail) ++ rest) hfit hv hus₀
    obtain ⟨nodes, w, hnodes, heq, hw⟩ := ih hps' hfits' hv' hus' hseparators
    have hstop : NoOperator ((as ++ us' ++ tail) ++ rest) := by
      rw [List.append_assoc, List.append_assoc]
      exact hseparators.noOperator (noOperator_appendEach hus' hnext)
    have hopen : ∀ t ∈ us₀.head?, closer.closes t.token = false := by
      obtain ⟨token, more, htokens, hhead⟩ := p.exists_head
      obtain ⟨line, column, us₀, rfl, -⟩ := exists_of_map_eq_cons (hus₀.trans htokens)
      simpa using hhead.closes closer
    refine ⟨n :: nodes, w, ?_, by simp [hnode, heq], by simpa [definesEach] using hw⟩
    have hitem := Derives.item hss hopen (derives_expression hn hstop) hnodes
    simpa using hitem

lemma reads_call (name : String) {inputs : List Phrase} (hinputs : ∀ p ∈ inputs, p.Reads known) :
    Reads known (.call name inputs) := by
  intro defined v us rest ⟨hlower, hkeyword, hknown, hfits⟩ hv hus
  obtain ⟨line, column, us₁, rfl, hus₁⟩ := exists_of_map_eq_cons hus
  obtain ⟨l, c, us₂, rfl, hus₂⟩ := exists_of_map_eq_cons hus₁
  obtain ⟨us', close, rfl, hus', hclose⟩ := exists_of_map_eq_concat hus₂
  have hend : ∀ ss w, AllSeparators ss →
      Derives (.sequence (.paren line)) w (ss ++ [close]) rest [] w := by
    intro ss w hss
    exact .closed hss (by rw [hclose]; rfl)
  have hnext : NoOperator ([close] ++ rest) := .cons (by simp [hclose])
  have hseparators : AllSeparators [] := List.forall_mem_nil _
  obtain ⟨nodes, w, hnodes, heq, hw⟩ :=
    exists_sequence hinputs hfits hv (List.forall_mem_nil _) hus' hseparators hnext hend
  have harity : (v.arity? name).isSome := (hv.arity name).mpr (by rwa [hlower])
  have hderives : Derives .operand v (⟨.openParen, line, column⟩ ::
      ([] ++ ⟨.bare name, l, c⟩ :: (us' ++ [close]))) rest
      [.call (Text.lower name) nodes line] w :=
    .groupCall hseparators hkeyword harity hnodes
  refine ⟨_, w, hderives, ?_, hw⟩
  simp [Node.mapLines, node, heq, hlower, noLine]

lemma reads_definition (name : String) (params : List String) {body : List Phrase}
    (hbody : ∀ p ∈ body, p.Reads known) : Reads known (.definition name params body) := by
  intro defined v us rest ⟨hlower, hkeyword, hbuiltin, hparams, hfits⟩ hv hus
  refine exists_enclosed hus (fun word hword => ?_) fun inner rest hinner hrest => ?_
  · obtain rfl : "to" = word := by simpa using hword
    decide
  obtain ⟨line, column, us₁, rfl, hus₁⟩ := exists_of_map_eq_cons hinner
  obtain ⟨l, c, us₂, rfl, hus₂⟩ := exists_of_map_eq_cons hus₁
  obtain ⟨heads, us₃, rfl, hheads, hus₃⟩ := List.map_eq_append_iff.mp hus₂
  obtain ⟨l', c', us₄, rfl, hus₄⟩ := exists_of_map_eq_cons hus₃
  obtain ⟨us', close, rfl, hus', hclose⟩ := exists_of_map_eq_concat hus₄
  have hend : ∀ ss w, AllSeparators ss →
      Derives (.sequence (.definition name line)) w (ss ++ [close]) rest [] w := by
    intro ss w hss
    refine .closed hss ?_
    rw [hclose]
    exact (by decide : Text.sameLetters "end" "end" = true)
  have hnext : NoOperator ([close] ++ rest) := .cons (by simp [hclose])
  have hnewline : AllSeparators [⟨.newline, l', c'⟩] := by simp [AllSeparators, Token.isSeparator]
  have hdeclared := hv.declare hlower hbuiltin params.length
  obtain ⟨nodes, w, hnodes, heq, hw⟩ := exists_sequence hbody hfits hdeclared
    (by simp [Token.isSeparator]) hus' hnewline hnext hend
  have hderives : Derives .operand v (⟨.bare "to", line, column⟩ :: ⟨.bare name, l, c⟩ ::
      (heads ++ ⟨.newline, l', c'⟩ :: (us' ++ [close]))) rest
      [.definition (Text.lower name) params nodes line] w := by
    refine .definition rfl (by rwa [hlower]) ?_ (map_paramName? hheads hparams) ?_ ?_
    · rw [hlower, hv.builtin name, hbuiltin]
    · simp [paramName?]
    · rw [hlower]
      exact hnodes
  refine ⟨_, w, derives_expression hderives hrest, ?_, by simpa [defines] using hw⟩
  simp [Node.mapLines, node, heq, hlower, noLine]

lemma reads_oneBranch {condition thenBranch : Phrase} (hcondition : condition.Reads known)
    (hthen : thenBranch.Reads known) : Reads known (.oneBranch condition thenBranch) := by
  intro defined v us rest ⟨hfits, hfits'⟩ hv hus
  refine exists_enclosed hus (fun word hword => ?_) fun inner rest hinner hrest => ?_
  · obtain rfl : "if" = word := by simpa using hword
    decide
  obtain ⟨line, column, us₁, rfl, hus₁⟩ := exists_of_map_eq_cons hinner
  obtain ⟨cs, ts, rfl, hcs, hts⟩ := List.map_eq_append_iff.mp hus₁
  obtain ⟨c, v', hc, hcnode, hv'⟩ := hcondition (ts ++ rest) hfits hv hcs
  obtain ⟨t, w, ht, htnode, hw⟩ := hthen rest hfits' hv' hts
  have hword : Opening.ofWord "if" = .conditional .oneBranch := rfl
  refine ⟨.conditional .oneBranch c t none line, w, derives_expression ?_ hrest, ?_,
    by simpa [defines] using hw⟩
  · exact .oneBranch hword (derives_expression hc (noOperator_append hts))
      (derives_expression ht hrest)
  · simp [Node.mapLines, node, hcnode, htnode, noLine]

lemma reads_twoBranches {condition thenBranch elseBranch : Phrase}
    (hcondition : condition.Reads known) (hthen : thenBranch.Reads known)
    (helse : elseBranch.Reads known) :
    Reads known (.twoBranches condition thenBranch elseBranch) := by
  intro defined v us rest ⟨hfits, hfits', hfits''⟩ hv hus
  refine exists_enclosed hus (fun word hword => ?_) fun inner rest hinner hrest => ?_
  · obtain rfl : "ifelse" = word := by simpa using hword
    decide
  obtain ⟨line, column, us₁, rfl, hus₁⟩ := exists_of_map_eq_cons hinner
  obtain ⟨us₂, es, rfl, hus₂, hes⟩ := List.map_eq_append_iff.mp hus₁
  obtain ⟨cs, ts, rfl, hcs, hts⟩ := List.map_eq_append_iff.mp hus₂
  obtain ⟨c, v', hc, hcnode, hv'⟩ := hcondition (ts ++ es ++ rest) hfits hv hcs
  obtain ⟨t, v'', ht, htnode, hv''⟩ := hthen (es ++ rest) hfits' hv' hts
  rw [List.append_assoc] at hv''
  obtain ⟨e, w, he, henode, hw⟩ := helse rest hfits'' hv'' hes
  have hword : Opening.ofWord "ifelse" = .conditional .twoBranches := rfl
  have hnext : NoOperator (ts ++ es ++ rest) := by
    rw [List.append_assoc]
    exact noOperator_append hts
  refine ⟨.conditional .twoBranches c t (some e) line, w, derives_expression ?_ hrest, ?_,
    by simpa [defines] using hw⟩
  · exact .twoBranches hword (derives_expression hc hnext)
      (derives_expression ht (noOperator_append hes)) (derives_expression he hrest)
  · simp [Node.mapLines, node, hcnode, htnode, henode, noLine]

mutual

/-- **A phrase that fits is read as its syntax tree.** -/
theorem reads (known : Vocabulary) : ∀ p : Phrase, p.Reads known
  | .number text => reads_number text
  | .word text => reads_word text
  | .truth value => reads_truth value
  | .reference name => reads_reference name
  | .list items => reads_list items
  | .binary op left right => reads_binary op (reads known left) (reads known right)
  | .call name inputs => reads_call name (readsEach known inputs)
  | .definition name params body => reads_definition name params (readsEach known body)
  | .oneBranch condition thenBranch =>
    reads_oneBranch (reads known condition) (reads known thenBranch)
  | .twoBranches condition thenBranch elseBranch =>
    reads_twoBranches (reads known condition) (reads known thenBranch) (reads known elseBranch)

lemma readsEach (known : Vocabulary) : ∀ ps : List Phrase, ∀ p ∈ ps, p.Reads known
  | [] => List.forall_mem_nil _
  | p :: ps => List.forall_mem_cons.mpr ⟨reads known p, readsEach known ps⟩

end

end Phrase

end Logo
