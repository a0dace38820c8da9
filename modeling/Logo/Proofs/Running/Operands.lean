import Logo.Proofs.Running.FlatLists
import Logo.Proofs.Running.Frames
import Logo.Proofs.Running.Instances
import Logo.Proofs.Running.Templates
import Logo.Proofs.Values.Shortest

/-!
# Numbers in templates

A number is filled into a template as its text. This file compares that with a variable in the
place of the number. A negative number makes a difference: its minus sign can be taken for an
operator between the number and what stands before it. Any other number is read back as one token
with the same value, and the two templates cannot be told apart by what they do.

* `exists_resultsFor`: the two texts are cut into the same tokens, up to that place.
* `sameUpToColumn_runValue`: running them comes to the same.
* `filled_number_operand`: so `?` stands for one operand, if the number is not negative.
-/

namespace Logo

/-! ## Two fillings -/

/-- The token of a template with a variable for `?`. -/
def Token.named (name : String) (t : Token) : Token :=
  if t = .bare "?" then .reference name else t

/-- The placed token of a template with a variable for `?`. -/
def Placed.named (name : String) (t : Placed) : Placed := { t with token := t.token.named name }

/-- Filling the template with the variable leaves the variable in the place of `?`. -/
lemma Token.filled_named (t element : Token) (name : String) (index : Nat) :
    (t.named name).filled element index = t.filled (.reference name) index := by
  by_cases hmember : t = .bare "?"
  · subst hmember
    rfl
  · rw [named, if_neg hmember, filled, if_neg hmember, filled, if_neg hmember]

lemma Token.Lexical.named {t : Token} {name : String} (ht : t.Lexical)
    (hname : (Token.reference name).Lexical) : (t.named name).Lexical := by
  unfold Token.named
  split
  · exact hname
  · exact ht

/-- The variable is no bracket. -/
lemma Token.named_flat {t : Token} (ht : t ∉ [.openBracket, .closeBracket, .endOfText])
    (name : String) : t.named name ∉ [.openBracket, .closeBracket, .endOfText] := by
  unfold named
  split
  · simp
  · exact ht

lemma Token.filled_ne_openBracket {t element : Token} (ht : t ≠ .openBracket)
    (he : element ≠ .openBracket) (index : Nat) : t.filled element index ≠ .openBracket := by
  obtain ⟨-, h⟩ | ⟨-, h⟩ | h := t.filled_cases element index
  · rwa [h]
  · simp [h]
  · rwa [h]

lemma Placed.filled_named (ts : List Placed) (element : Token) (name : String) (index : Nat) :
    (ts.map (Placed.named name)).map (Placed.filled element index) =
      ts.map (Placed.filled (.reference name) index) := by
  rw [List.map_map]
  refine List.map_congr_left fun t _ => ?_
  exact congrArg (fun token => { t with token := token }) (t.token.filled_named element name index)

/-- The second token is the first one, or a variable in the place of a number. -/
inductive TokenFor (text name : String) : Token → Token → Prop
  | same {t : Token} : t ≠ .openBracket → TokenFor text name t t
  | place : TokenFor text name (.number text) (.reference name)

/-- Both texts run into the same problem, or the tokens of the second have a variable in the place
of a number. -/
inductive ResultFor (text name : String) :
    Except LexProblem (List Token) → Except LexProblem (List Token) → Prop
  | problem (problem : LexProblem) : ResultFor text name (.error problem) (.error problem)
  | tokens {tokens tokens' : List Token} : List.Forall₂ (TokenFor text name) tokens tokens' →
      ResultFor text name (.ok tokens) (.ok tokens')

section

variable {text name : String}

lemma Unbracketed.resultFor {result : Except LexProblem (List Token)} (h : Unbracketed result) :
    ResultFor text name result result := by
  cases result with
  | error problem => exact .problem problem
  | ok tokens =>
    refine .tokens (List.forall₂_same.mpr fun t ht => .same ?_)
    rintro rfl
    exact h tokens rfl ht

lemma ResultFor.joinResults {results results' : List (Except LexProblem (List Token))}
    (h : List.Forall₂ (ResultFor text name) results results') :
    ResultFor text name (joinResults results) (joinResults results') := by
  induction h with
  | nil => exact .tokens .nil
  | @cons _ _ rest rest' hfirst _ ih =>
    cases hfirst with
    | problem problem => exact .problem problem
    | tokens htokens =>
      rw [Logo.joinResults, Logo.joinResults]
      generalize Logo.joinResults rest = result, Logo.joinResults rest' = result' at ih
      cases ih with
      | problem problem => exact .problem problem
      | tokens hrest => exact .tokens (List.rel_append htokens hrest)

/-- What an item is cut into, with a number and with a variable for `?`. -/
lemma Token.exists_resultFor {t : Token} (ht : t.Lexical) (hsep : t.isSeparator = false)
    (hflat : t ≠ .openBracket) (htext : (Token.number text).Lexical)
    (hname : (Token.reference name).Lexical) (index : Nat) :
    ∃ result result', Recut (t.filled (.number text) index).spelling.toList result ∧
      Recut (t.filled (.reference name) index).spelling.toList result' ∧
      ResultFor text name result result' := by
  by_cases hmember : t = .bare "?"
  · subst hmember
    exact ⟨_, _, recut_of_isRereadable htext rfl rfl, recut_of_isRereadable hname rfl rfl,
      .tokens (.cons .place .nil)⟩
  · -- the other items are filled without a look at the member
    have hsame : t.filled (.number text) index = t.filled (.reference name) index := by
      rw [filled, filled, if_neg hmember, if_neg hmember]
    obtain ⟨hmember', -⟩ | ⟨-, h⟩ | h := t.filled_cases (.number text) index
    · exact absurd hmember' hmember
    · have hrecut := recut_of_isRereadable (lexical_index index) rfl rfl
      rw [← hsame, h]
      exact ⟨_, _, hrecut, hrecut, (unbracketed_ok (by simp)).resultFor⟩
    · obtain ⟨result, hrecut, hbracket⟩ := Token.exists_recut ht hsep hflat
      rw [← hsame, h]
      exact ⟨_, _, hrecut, hrecut, hbracket.resultFor⟩

/-- What the items of a list are cut into, with a number and with a variable for `?`. -/
lemma exists_resultsFor {ts : List Placed} (hts : ∀ t ∈ ts, t.token.Lexical)
    (hflat : ∀ t ∈ ts, t.token ≠ .openBracket) (htext : (Token.number text).Lexical)
    (hname : (Token.reference name).Lexical) (index : Nat) :
    ∃ results results',
      List.Forall₂ (fun t => Recut t.token.spelling.toList)
        (significant (ts.map (Placed.filled (.number text) index))) results ∧
      List.Forall₂ (fun t => Recut t.token.spelling.toList)
        (significant (ts.map (Placed.filled (.reference name) index))) results' ∧
      List.Forall₂ (ResultFor text name) results results' := by
  have hitem : ∀ t ∈ significant ts, t.token.Lexical ∧ t.token.isSeparator = false ∧
      t.token ≠ .openBracket := by
    intro t ht
    obtain ⟨hmem, hsep⟩ := List.mem_filter.mp ht
    exact ⟨hts t hmem, by simpa using hsep, hflat t hmem⟩
  rw [significant_filled ts rfl, significant_filled ts rfl]
  generalize significant ts = items at hitem ⊢
  induction items with
  | nil => exact ⟨[], [], .nil, .nil, .nil⟩
  | cons t items ih =>
    obtain ⟨⟨ht, hsep, hbracket⟩, hrest⟩ := List.forall_mem_cons.mp hitem
    obtain ⟨result, result', hleft, hright, hfor⟩ :=
      Token.exists_resultFor ht hsep hbracket htext hname index
    obtain ⟨results, results', hlefts, hrights, hfors⟩ := ih hrest
    exact ⟨result :: results, result' :: results', .cons hleft hlefts, .cons hright hrights,
      .cons hfor hfors⟩

end

/-! ## Running the two -/

/-- No word of the text is the one that starts a definition. -/
def NoDefinition (text : String) : Prop :=
  ∀ ts, tokenize text = .ok ts → ∀ t ∈ ts, ∀ word, t.token = .bare word →
    Grammar.Opening.ofWord word ≠ .definition

/-- The outcomes are the same, except that a problem with the characters of a text may be found at
another column. -/
inductive Outcome.SameUpToColumn {α : Type} : Outcome α → Outcome α → Prop
  | same (o : Outcome α) : SameUpToColumn o o
  | problem (problem : LexProblem) (line column column' : Nat) (after : Machine) :
      SameUpToColumn (.failed (.unreadable (.lexical ⟨problem, line, column⟩)) after)
        (.failed (.unreadable (.lexical ⟨problem, line, column'⟩)) after)

section

variable {text name : String} {x : Float}

/-- Tokens on one line, with a number in the place of a variable. -/
lemma instances_of_tokens {us us' : List Placed} (hread : Number.read? text = some x)
    (h : List.Forall₂ (TokenFor text name) (us.map Placed.token) (us'.map Placed.token))
    (hline : ∀ t ∈ us, t.line = 1) (hline' : ∀ t ∈ us', t.line = 1)
    (hword : ∀ t ∈ us, ∀ word, t.token = .bare word →
      Grammar.Opening.ofWord word ≠ .definition) :
    List.Forall₂ (Placed.Instance x name) us us' := by
  rw [List.forall₂_map_left_iff, List.forall₂_map_right_iff] at h
  induction h with
  | nil => exact .nil
  | @cons t u us us' hfirst _ ih =>
    rw [List.forall_mem_cons] at hline hline' hword
    refine .cons ?_ (ih hline.2 hline'.2 hword.2)
    obtain ⟨token, line, column⟩ := t
    obtain ⟨token', line', column'⟩ := u
    obtain rfl : line = 1 := hline.1
    obtain rfl : line' = 1 := hline'.1
    cases hfirst with
    | same hbracket => exact .same 1 column column' hbracket hword.1
    | place => exact .place 1 column column' hread

/-- **A list with a number and one with a variable do the same**, if the variable has the value of
the number as long as they are run. -/
theorem sameUpToColumn_runValue {ts : List Placed} {nodes nodes' : List Node} {index : Nat}
    (h : Itemizes (ts.map (Placed.filled (.number text) index)) nodes)
    (h' : Itemizes (ts.map (Placed.filled (.reference name) index)) nodes')
    (hts : ∀ t ∈ ts, t.token.Lexical) (hflat : ∀ t ∈ ts, t.token ≠ .openBracket)
    (htext : (Token.number text).Lexical) (hname : (Token.reference name).Lexical)
    (hread : Number.read? text = some x)
    (hword : NoDefinition (Value.list (Node.quotedEach nodes)).printForm)
    {bound : Nat} {frame : FrameId} {keepLast : Bool} {settings : Settings} {m : Machine}
    (hsees : ∀ beyond, (evalBy Run.readProgram (Run.guarded (Machine.Sees x name frame) beyond)
      bound).runValue (.list (Node.quotedEach nodes)) frame keepLast settings m =
        (eval bound).runValue (.list (Node.quotedEach nodes)) frame keepLast settings m) :
    ((eval bound).runValue (.list (Node.quotedEach nodes)) frame keepLast settings m).SameUpToColumn
      ((eval bound).runValue (.list (Node.quotedEach nodes')) frame keepLast settings m) := by
  -- each text is cut item by item, and the items differ only in the places of the number
  have hfilled : ∀ element : Token, element.Lexical → element ≠ .openBracket →
      ∀ t ∈ ts.map (Placed.filled element index), t.token.Lexical ∧ t.token ≠ .openBracket := by
    intro element he hbracket
    exact List.forall_mem_map.mpr fun t ht =>
      ⟨(hts t ht).filled he index, Token.filled_ne_openBracket (hflat t ht) hbracket index⟩
  have hnumber := hfilled _ htext (by simp)
  have hreference := hfilled _ hname (by simp)
  have hline := h.newline_notMem (fun t ht => (hnumber t ht).1) (fun t ht => (hnumber t ht).2)
  have hline' := h'.newline_notMem (fun t ht => (hreference t ht).1)
    (fun t ht => (hreference t ht).2)
  obtain ⟨results, results', hleft, hright, hfors⟩ :=
    exists_resultsFor hts hflat htext hname index
  have hrecut := h.recut (fun t ht => (hnumber t ht).1) (fun t ht => (hnumber t ht).2) hleft
  have hrecut' := h'.recut (fun t ht => (hreference t ht).1) (fun t ht => (hreference t ht).2)
    hright
  have hfor := ResultFor.joinResults hfors
  generalize joinResults results = result, joinResults results' = result' at hrecut hrecut' hfor
  cases hfor with
  | problem problem =>
    obtain ⟨column, herror⟩ := hrecut.tokenize_error hline
    obtain ⟨column', herror'⟩ := hrecut'.tokenize_error hline'
    rw [Evaluator.runValue, Evaluator.runValue, Evaluator.runText, Evaluator.runText,
      Run.readProgram_of_error herror, Run.readProgram_of_error herror']
    exact .problem problem 1 column column' m
  | @tokens tokens tokens' htokens =>
    obtain ⟨us, hus, htokens_eq, hone⟩ := hrecut.tokenize_ok hline
    obtain ⟨us', hus', htokens_eq', hone'⟩ := hrecut'.tokenize_ok hline'
    have hinstances : List.Forall₂ (Placed.Instance x name) us us' := by
      refine instances_of_tokens hread ?_ hone hone' (hword us hus)
      rw [htokens_eq, htokens_eq']
      exact List.rel_append htokens (.cons (.same (by simp)) .nil)
    simp only [Evaluator.runValue_of_tokenize _ hus] at hsees ⊢
    rw [Evaluator.runValue_of_tokenize _ hus', runTokens_instance hinstances hsees]
    exact .same _

/-- A frame that has a parent goes on to see what it binds itself. -/
lemma Machine.sees_of_kept {m m' : Machine} {frame : FrameId}
    (hparent : m.scopes.parent? frame ≠ none)
    (hbinding : m.scopes.binding? frame name = some (.number x))
    (hkept : m.scopes.KeptIn m'.scopes) : m'.Sees x name frame := by
  obtain ⟨own, hown, hfind⟩ := Option.bind_eq_some_iff.mp hbinding
  have hsame : m'.scopes.frames[frame]? = some own := by
    refine hkept frame own hown ?_
    simpa [Scopes.parent?, hown] using hparent
  refine Scopes.lookup_of_binding? ?_
  rw [Scopes.binding?, hsame]
  exact hfind

end

/-- **In a template, `?` stands for one operand if the member is a number that is not negative.**
Let tokens of a text hold no brackets. Between brackets they are read as a template, and so are the
same tokens with a variable in the place of each `?`. Let both templates be filled with a number
that is finite and not negative, and let the text of the first hold no definition. Then running the
one leads to the same flow, writing, variables and procedures or to the same error as running the
other, if the variable has the number as its value as long as the first is run. That is so, in
particular, if the variable is a parameter of the procedure in which the templates are run. -/
theorem filled_number_operand {source : String} {tokens ts : List Placed}
    (hsource : tokenize source = .ok tokens) (hts : ts ⊆ tokens)
    (hflat : ∀ t ∈ ts, t.token ∉ [.openBracket, .closeBracket, .endOfText])
    {x : Float} {b : Number.Binary} (hx : Number.parts x = .finite b) (hsign : b.negative = false)
    {name : String} (hname : name.toList ≠ [] ∧ '\n' ∉ name.toList) :
    ∃ (items items' : List Node) (template template' : Value),
      (∀ bound o c rest vocabulary, o.token = .openBracket → c.token = .closeBracket →
        Grammar.operand (bound + 1) (o :: (ts ++ c :: rest)) vocabulary =
          .done (.list items o.line) rest vocabulary ∧
        Grammar.operand (bound + 1) (o :: (ts.map (Placed.named name) ++ c :: rest)) vocabulary =
          .done (.list items' o.line) rest vocabulary) ∧
      (∀ bound line frame settings m,
        eval (bound + 1) (.list items line) frame settings m = .done (.value template) m ∧
        eval (bound + 1) (.list items' line) frame settings m = .done (.value template') m) ∧
      ∀ index bound frame keepLast settings m,
        let filled := Template.fill (.number x) index template
        let filled' := Template.fill (.number x) index template'
        NoDefinition filled.printForm →
        (∀ beyond, (evalBy Run.readProgram (Run.guarded (Machine.Sees x name frame) beyond)
          bound).runValue filled frame keepLast settings m =
            (eval bound).runValue filled frame keepLast settings m) ∨
          m.scopes.parent? frame ≠ none ∧
            m.scopes.binding? frame name = some (.number x) →
        ((eval bound).runValue filled frame keepLast settings m).SameUpToColumn
          ((eval bound).runValue filled' frame keepLast settings m) := by
  have hlexical : ∀ t ∈ ts, t.token.Lexical := by
    intro t ht
    refine lexical_of_tokenize hsource (hts ht) fun hend => hflat t ht ?_
    simp [hend]
  have hlexical' : ∀ t ∈ ts.map (Placed.named name), t.token.Lexical :=
    List.forall_mem_map.mpr fun t ht => (hlexical t ht).named hname
  have hflat' : ∀ t ∈ ts.map (Placed.named name),
      t.token ∉ [.openBracket, .closeBracket, .endOfText] :=
    List.forall_mem_map.mpr fun t ht => Token.named_flat (hflat t ht) name
  obtain ⟨items, hitems⟩ := (balanced_of_flat hflat).exists_itemizes
  obtain ⟨items', hitems'⟩ := (balanced_of_flat hflat').exists_itemizes
  refine ⟨items, items', .list (Node.quotedEach items), .list (Node.quotedEach items'),
    ?_, fun _ _ _ _ _ => ⟨rfl, rfl⟩, ?_⟩
  · intro bound o c rest vocabulary ho hc
    exact ⟨hitems.operand_eq ho hc bound rest vocabulary,
      hitems'.operand_eq ho hc bound rest vocabulary⟩
  intro index bound frame keepLast settings m filled filled' hword hstays
  have hquote : Template.quote (.number x) = (Token.number (Number.text x)).spelling := rfl
  obtain ⟨nodes, hnodes, hfilled⟩ := hitems.filled hlexical hquote ⟨by simp, rfl⟩ index
  obtain ⟨nodes', hnodes', hfilled'⟩ := hitems'.filled hlexical' hquote ⟨by simp, rfl⟩ index
  rw [Placed.filled_named] at hnodes'
  have hleft : filled = .list (Node.quotedEach nodes) := congrArg Value.list hfilled.symm
  have hright : filled' = .list (Node.quotedEach nodes') := congrArg Value.list hfilled'.symm
  rw [hleft] at hword hstays ⊢
  rw [hright]
  have hopen : ∀ t ∈ ts, t.token ≠ .openBracket := by
    intro t ht hopen
    exact hflat t ht (by simp [hopen])
  refine sameUpToColumn_runValue hnodes hnodes' hlexical hopen (Number.toList_text_mem hx hsign)
    hname (Number.read?_text hx hsign) hword ?_
  rcases hstays with hstays | ⟨hparent, hbinding⟩
  · exact hstays
  · intro beyond
    exact (keptContract_strict m.scopes).entry_guarded (.value _ frame keepLast)
      (Scopes.KeptIn.refl m.scopes) (fun _ _ => trivial) bound
      (fun _ _ hkept => Machine.sees_of_kept hparent hbinding hkept) beyond

/-- A number behind another one, in a procedure with a parameter of that value. -/
theorem filled_number_operand_input :
    let x : Float := 3
    let o : Placed := ⟨.openBracket, 1, 1⟩
    let ts : List Placed := [⟨.bare "show", 1, 2⟩, ⟨.openParen, 1, 7⟩, ⟨.bare "list", 1, 8⟩,
      ⟨.number "1", 1, 13⟩, ⟨.bare "?", 1, 15⟩, ⟨.closeParen, 1, 16⟩]
    let c : Placed := ⟨.closeBracket, 1, 17⟩
    let e : Placed := ⟨.endOfText, 1, 18⟩
    let template (place : String) : Value :=
      .list [.word "show", .word "(", .word "list", .word "1", .word place, .word ")"]
    let m : Machine :=
      { Machine.initial with scopes := Machine.initial.scopes.push (some 0) ⟨[("v", .number x)]⟩ }
    let run (v : Value) : Outcome Flow :=
      (eval 9).runValue (Template.fill (.number x) 1 v) 1 false .standard m
    tokenize "[show (list 1 ?)]" = .ok (o :: (ts ++ [c, e])) ∧
      Number.parts x = .finite ⟨false, 3 * 2 ^ 51, -51⟩ ∧
      NoDefinition (Template.fill (.number x) 1 (template "?")).printForm ∧
      m.scopes.binding? 1 "v" = some (.number x) ∧
      (run (template "?")).SameUpToColumn (run (template ":v")) := by
  intro x o ts c e template m run
  have hsource : tokenize "[show (list 1 ?)]" = .ok (o :: (ts ++ [c, e])) := by decide +kernel
  have hflat : ∀ t ∈ ts, t.token ∉ [.openBracket, .closeBracket, .endOfText] := by decide +kernel
  have hx : Number.parts x = .finite ⟨false, 3 * 2 ^ 51, -51⟩ := by decide +kernel
  have hname : "v".toList ≠ [] ∧ '\n' ∉ "v".toList := by decide
  have hword : NoDefinition (Template.fill (.number x) 1 (template "?")).printForm := by
    have htext : (Template.fill (.number x) 1 (template "?")).printForm = "show ( list 1 3 )" := by
      decide +kernel
    have htokens : tokenize "show ( list 1 3 )" = .ok [⟨.bare "show", 1, 1⟩, ⟨.openParen, 1, 6⟩,
        ⟨.bare "list", 1, 8⟩, ⟨.number "1", 1, 13⟩, ⟨.number "3", 1, 15⟩, ⟨.closeParen, 1, 17⟩,
        ⟨.endOfText, 1, 18⟩] := by decide +kernel
    intro us hus t ht word hbare
    rw [htext, htokens] at hus
    obtain rfl := Except.ok.inj hus
    have hwords : word = "show" ∨ word = "list" := by
      simp only [List.mem_cons, List.not_mem_nil, or_false] at ht
      rcases ht with rfl | rfl | rfl | rfl | rfl | rfl | rfl <;> simp at hbare
      · exact .inl hbare.symm
      · exact .inr hbare.symm
    rcases hwords with rfl | rfl <;> decide +kernel
  have hbinding : m.scopes.binding? 1 "v" = some (.number x) := rfl
  refine ⟨hsource, hx, hword, hbinding, ?_⟩
  obtain ⟨items, items', filled, filled', hitems, hvalue, hrun⟩ :=
    filled_number_operand hsource (fun t ht => by simp [ht]) hflat hx rfl hname
  -- both templates are read and evaluated to see that they are the ones that are stated
  obtain ⟨hread, hread'⟩ := hitems 0 o c [e] .empty rfl rfl
  obtain rfl : items = [.word (Token.bare "show").spelling 1, .word "(" 1,
      .word (Token.bare "list").spelling 1, .word "1" 1, .word (Token.bare "?").spelling 1,
      .word ")" 1] := (Node.list.inj (Reader.Result.done.inj hread).1).1.symm
  obtain rfl : items' = [.word (Token.bare "show").spelling 1, .word "(" 1,
      .word (Token.bare "list").spelling 1, .word "1" 1, .word (Token.reference "v").spelling 1,
      .word ")" 1] := (Node.list.inj (Reader.Result.done.inj hread').1).1.symm
  obtain ⟨heval, heval'⟩ := hvalue 0 1 0 .standard .initial
  have hspelling : (Token.bare "show").spelling = "show" ∧ (Token.bare "list").spelling = "list" ∧
      (Token.bare "?").spelling = "?" ∧ (Token.reference "v").spelling = ":v" := by decide +kernel
  obtain rfl : filled = template "?" := by
    rw [← Flow.value.inj (Outcome.done.inj heval).1]
    simp only [Node.quotedEach, Node.quoted, hspelling, template]
  obtain rfl : filled' = template ":v" := by
    rw [← Flow.value.inj (Outcome.done.inj heval').1]
    simp only [Node.quotedEach, Node.quoted, hspelling, template]
  exact hrun 1 9 1 false .standard m hword (.inr ⟨by decide, hbinding⟩)

/-- A negative number is not always filled in as one operand: the minus sign of `-3` is taken for an
operator, where a parameter of that value is an input of its own. -/
theorem negative_number_not_operand :
    let x : Float := -3
    let template (place : String) : Value :=
      .list [.word "show", .word "(", .word "list", .word "1", .word place, .word ")"]
    let m : Machine :=
      { Machine.initial with scopes := Machine.initial.scopes.push (some 0) ⟨[("v", .number x)]⟩ }
    let written (v : Value) : Option String :=
      ((eval 9).runValue (Template.fill (.number x) 1 v) 1 false .standard m).after?.map
        fun after => after.transcript.text
    Number.parts x = .finite ⟨true, 3 * 2 ^ 51, -51⟩ ∧
      m.scopes.binding? 1 "v" = some (.number x) ∧
      written (template "?") = some "[-2]\n" ∧ written (template ":v") = some "[1 -3]\n" := by
  intro x template m written
  have hx : Number.parts x = .finite ⟨true, 3 * 2 ^ 51, -51⟩ := by decide +kernel
  have hbinding : m.scopes.binding? 1 "v" = some (.number x) := rfl
  have hnumber : written (template "?") = some "[-2]\n" := by decide +kernel
  have hvariable : written (template ":v") = some "[1 -3]\n" := by decide +kernel
  exact ⟨hx, hbinding, hnumber, hvariable⟩

end Logo
