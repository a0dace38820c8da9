import Logo.Proofs.Lexing.Spelling
import Logo.Proofs.Reading.Lists
import Logo.Proofs.Running.LineLaw

/-!
# Running a list

A list between brackets is data: its items are the spellings of the tokens that stand there. To run
the list, its items are written down with blanks between them, and the text is read again. This file
shows that nothing is lost on the way: the text has the tokens that stood between the brackets,
except for line ends and comments, and running the list does what running these tokens does.

The proof follows the nesting of the brackets. A spelling is cut off from the text as one lexeme,
because a blank, a closing bracket or the end of the text comes after it; so each list can be cut
up item by item, whatever comes after its closing bracket.

* `Itemizes.cuts`: the text of a list falls into the lexemes of its tokens.
* `rerun_of_balanced`: running a list is running its tokens.
-/

namespace Logo

/-- The tokens without line ends and comments. -/
def significant (ts : List Placed) : List Placed := ts.filter fun t => !t.token.isSeparator

/-! ## The text of a list -/

/-- The characters of the text of a list with the items. -/
def textOf (nodes : List Node) : List Char := (Value.list (Node.quotedEach nodes)).printForm.toList

/-- The characters that the items add to the text of a list if another item comes before them. -/
def addedText : List Node → List Char
  | [] => []
  | node :: nodes => ' ' :: textOf (node :: nodes)

lemma textOf_cons (node : Node) (nodes : List Node) :
    textOf (node :: nodes) = node.quoted.display.toList ++ addedText nodes := by
  cases nodes with
  | nil => simp [textOf, addedText, Value.printForm, Node.quotedEach, Value.displayEach]
  | cons next nodes =>
    simp [textOf, addedText, Value.printForm, Node.quotedEach, Value.displayEach,
      String.intercalate_cons_cons]

lemma toList_display_list (items : List Node) (line : Nat) :
    (Node.list items line).quoted.display.toList = '[' :: (textOf items ++ [']']) := by
  simp [Node.quoted, Value.display, textOf, Value.printForm]

/-- A list, or the rest of one, ends here. -/
def IsClosed (tail : List Char) : Prop := ∀ c ∈ tail.head?, c = ']'

/-- After an item comes a blank, or the end of its list. -/
lemma isGap_addedText {tail : List Char} (htail : IsClosed tail) (nodes : List Node) :
    ∀ c ∈ (addedText nodes ++ tail).head?, isGap c = true := by
  cases nodes with
  | nil =>
    intro c hc
    rw [htail c hc]
    rfl
  | cons node nodes => simp [addedText, isGap, isSpacing]

/-- No item starts with a blank. -/
lemma Itemizes.not_isSpacing {ts : List Placed} {nodes : List Node} {tail : List Char}
    (h : Itemizes ts nodes) (hts : ∀ t ∈ ts, t.token.Lexical ∧ t.token.isRereadable = true)
    (htail : IsClosed tail) : ∀ c ∈ (textOf nodes ++ tail).head?, isSpacing c = false := by
  induction h with
  | nil =>
    intro c hc
    rw [htail c hc]
    rfl
  | separator _ _ ih => exact ih fun t ht => hts t (by simp [ht])
  | @word t ts nodes _ hsep _ _ =>
    obtain ⟨hlexical, hread⟩ := hts t (by simp)
    obtain ⟨pattern, hp, hplain, hmem, -⟩ := Token.exists_spelling hlexical hsep hread
    obtain ⟨d, ds, hspelling⟩ := List.exists_cons_of_ne_nil (ne_nil_of_mem hp hmem)
    intro c hc
    rw [textOf_cons, Node.quoted, Value.display, hspelling] at hc
    obtain rfl : d = c := by simpa using hc
    rw [hspelling] at hmem
    refine Bool.eq_false_iff.mpr fun hspacing => hplain ?_
    simp [eq_blank_of_isSpacing hp hmem hspacing]
  | list _ _ _ _ _ _ =>
    intro c hc
    rw [textOf_cons, toList_display_list] at hc
    obtain rfl : '[' = c := by simpa using hc
    rfl

/-- The lexemes are cut off from the start of a text, and stand for the tokens. -/
def CutsInto (cs : List Char) (tokens : List Token) (rest : List Char) : Prop :=
  ∃ lexemes, Cuts cs lexemes rest ∧ lexemes.filterMap Lexeme.token = tokens

namespace CutsInto

variable {cs rest rest' text : List Char} {tokens tokens' : List Token}

lemma trans (h : CutsInto cs tokens rest) (h' : CutsInto rest tokens' rest') :
    CutsInto cs (tokens ++ tokens') rest' := by
  obtain ⟨lexemes, hcuts, rfl⟩ := h
  obtain ⟨lexemes', hcuts', rfl⟩ := h'
  exact ⟨lexemes ++ lexemes', hcuts.trans hcuts', List.filterMap_append⟩

lemma single {pattern : Pattern} {token : Option Token} (h : IsMunch pattern text (text ++ rest))
    (htoken : Denotes pattern text token) : CutsInto (text ++ rest) token.toList rest :=
  ⟨[⟨text, token⟩], .step h htoken (.stop rest), by cases token <;> rfl⟩

/-- The blank before an item is passed over. -/
lemma addedText {nodes : List Node} {tail : List Char}
    (hstart : ∀ c ∈ (textOf nodes ++ tail).head?, isSpacing c = false)
    (h : CutsInto (textOf nodes ++ tail) tokens tail) :
    CutsInto (Logo.addedText nodes ++ tail) tokens tail := by
  cases nodes with
  | nil => exact h
  | cons node nodes =>
    have hblank : IsMunch .blank [' '] ([' '] ++ (textOf (node :: nodes) ++ tail)) :=
      isMunch_blank hstart
    exact (single hblank (.blank _)).trans h

end CutsInto

/-- **The text of a list falls into the tokens that stood between its brackets**, up to the end of
the text or to the closing bracket of a list around it. -/
theorem Itemizes.cuts {ts : List Placed} {nodes : List Node} {tail : List Char}
    (h : Itemizes ts nodes) (hts : ∀ t ∈ ts, t.token.Lexical ∧ t.token.isRereadable = true)
    (htail : IsClosed tail) :
    CutsInto (textOf nodes ++ tail) ((significant ts).map Placed.token) tail := by
  induction h generalizing tail with
  | nil => exact ⟨[], .stop tail, rfl⟩
  | @separator t ts nodes hsep _ ih =>
    rw [significant, List.filter_cons_of_neg (by simp [hsep])]
    exact ih (fun t ht => hts t (by simp [ht])) htail
  | @word t ts nodes _ hsep hrest ih =>
    have hts' : ∀ t ∈ ts, t.token.Lexical ∧ t.token.isRereadable = true :=
      fun t ht => hts t (by simp [ht])
    obtain ⟨hlexical, hread⟩ := hts t (by simp)
    obtain ⟨pattern, hp, hplain, hmem, htoken⟩ := Token.exists_spelling hlexical hsep hread
    rw [significant, List.filter_cons_of_pos (by simp [hsep]), List.map_cons, textOf_cons,
      List.append_assoc]
    -- the spelling ends at the blank before the next item, or at the end of the list
    have hmunch := isMunch_of_gap hp hmem hplain (isGap_addedText htail nodes)
    exact (CutsInto.single hmunch htoken).trans
      ((ih hts' htail).addedText (hrest.not_isSpacing hts' htail))
  | @list o c inner ts items nodes ho hc _ hrest ihinner ih =>
    have hts' : ∀ t ∈ ts, t.token.Lexical ∧ t.token.isRereadable = true :=
      fun t ht => hts t (by simp [ht])
    have hinner : ∀ t ∈ inner, t.token.Lexical ∧ t.token.isRereadable = true :=
      fun t ht => hts t (by simp [ht])
    have htokens : (significant (o :: (inner ++ c :: ts))).map Placed.token =
        [.openBracket] ++ ((significant inner).map Placed.token ++
          ([.closeBracket] ++ (significant ts).map Placed.token)) := by
      simp [significant, ho, hc, Token.isSeparator]
    have htext : textOf (.list items o.line :: nodes) ++ tail =
        ['['] ++ (textOf items ++ ([']'] ++ (addedText nodes ++ tail))) := by
      simp [textOf_cons, toList_display_list]
    have hclose : IsMunch (.fixed [']'] .closeBracket) [']'] ([']'] ++ (addedText nodes ++ tail)) :=
      isMunch_of_gap (by decide) rfl (by decide) (isGap_addedText htail nodes)
    -- the inner list is cut up to its own closing bracket, and the outer one from there on
    rw [htokens, htext]
    exact (CutsInto.single (isMunch_openBracket _) (.fixed _ _)).trans <|
      (ihinner hinner (by simp [IsClosed])).trans <|
      (CutsInto.single hclose (.fixed _ _)).trans <|
      (ih hts' htail).addedText (hrest.not_isSpacing hts' htail)

/-! ## Running a list -/

/-- The tokens of the text of a list. -/
lemma Itemizes.tokenize_eq {ts : List Placed} {nodes : List Node} (h : Itemizes ts nodes)
    (hts : ∀ t ∈ ts, t.token.Lexical ∧ t.token.isRereadable = true) :
    ∃ us mark, tokenize (Value.list (Node.quotedEach nodes)).printForm = .ok (us ++ [mark]) ∧
      us.map Placed.token = (significant ts).map Placed.token ∧ mark.token = .endOfText := by
  have hend : IsClosed [] := by simp [IsClosed]
  obtain ⟨lexemes, hcuts, htokens⟩ := h.cuts hts hend
  rw [List.append_nil] at hcuts
  exact ⟨_, _, tokenize_of_cuts hcuts, (map_token_placed _ _).trans htokens, rfl⟩

/-- No two lines are told apart, and the mark of the end may be missing. -/
lemma alike_of_tokens {ts us : List Placed} {mark : Placed} (hmark : mark.token = .endOfText)
    (hts : ∀ t ∈ ts, t.token ≠ .endOfText) (h : us.map Placed.token = ts.map Placed.token) :
    (Likeness.lines noLine noLine noLine monotone_const monotone_const).Alike
      (us ++ [mark]) ts := by
  induction us generalizing ts with
  | nil =>
    obtain rfl : ts = [] := by simpa using h.symm
    exact .ended ⟨Likeness.isEnd_cons.mpr hmark, rfl, rfl⟩
  | cons u us ih =>
    obtain ⟨t, ts, rfl, htoken, hrest⟩ := List.map_eq_cons_iff.mp h.symm
    have hne : u.token ≠ .endOfText := htoken ▸ hts t (by simp)
    exact .cons hne htoken.symm rfl (ih (fun t ht => hts t (by simp [ht])) hrest.symm)

/-- Running a list is running the tokens between its brackets, up to lines. -/
lemma Itemizes.runValue_eq {ts : List Placed} {nodes : List Node} (h : Itemizes ts nodes)
    (hts : ∀ t ∈ ts, t.token.Lexical ∧ t.token.isRereadable = true) (bound : Nat)
    (frame : FrameId) (keepLast : Bool) (settings : Settings) (m : Machine) :
    ((eval bound).runValue (.list (Node.quotedEach nodes)) frame keepLast settings m).mapLines
        noLine =
      ((eval bound).runTokens (significant ts) frame keepLast settings m).mapLines noLine := by
  obtain ⟨us, mark, hus, htokens, hmark⟩ := h.tokenize_eq hts
  have hsignificant : ∀ t ∈ significant ts, t.token ≠ .endOfText :=
    fun t ht => h.balanced.ne_endOfText t (List.mem_of_mem_filter ht)
  have hrun := agrees_runTokens (alike_of_tokens hmark hsignificant htokens) bound frame keepLast
  rw [Evaluator.runValue_of_tokenize _ hus]
  exact Outcome.agrees_iff.mp (hrun settings m m rfl)

/-- **Running a list is running the tokens between its brackets.** Let tokens of a text have their
brackets in pairs, and let none of them be a bare word that is spelled without a backslash which it
needs. Then, between brackets, they are read as a list, whose text has the same tokens, except for
line ends and comments. Running the list leads to the same flow, writing, variables and procedures
or to the same error as running these tokens, up to lines. -/
theorem rerun_of_balanced {source : String} {tokens ts : List Placed}
    (hsource : tokenize source = .ok tokens) (hts : ts ⊆ tokens) (hbalanced : Balanced ts)
    (hread : ∀ t ∈ ts, t.token.isRereadable = true) :
    ∃ (items : List Node) (v : Value),
      (∀ bound o c rest vocabulary, o.token = .openBracket → c.token = .closeBracket →
        Grammar.operand (bound + 1) (o :: (ts ++ c :: rest)) vocabulary =
          .done (.list items o.line) rest vocabulary) ∧
      (∀ bound line frame settings m,
        eval (bound + 1) (.list items line) frame settings m = .done (.value v) m) ∧
      (∃ us, tokenize v.printForm = .ok us ∧
        us.map Placed.token = (significant ts).map Placed.token ++ [.endOfText]) ∧
      ∀ bound frame keepLast settings m,
        ((eval bound).runValue v frame keepLast settings m).mapLines noLine =
          ((eval bound).runTokens (significant ts) frame keepLast settings m).mapLines noLine := by
  obtain ⟨items, hitems⟩ := hbalanced.exists_itemizes
  have hend := hbalanced.ne_endOfText
  have hlexical : ∀ t ∈ ts, t.token.Lexical ∧ t.token.isRereadable = true :=
    fun t ht => ⟨lexical_of_tokenize hsource (hts ht) (hend t ht), hread t ht⟩
  obtain ⟨us, mark, hus, htokens, hmark⟩ := hitems.tokenize_eq hlexical
  refine ⟨items, .list (Node.quotedEach items), ?_, ?_, ⟨us ++ [mark], hus, ?_⟩, ?_⟩
  · intro bound o c rest vocabulary ho hc
    exact hitems.operand_eq ho hc bound rest vocabulary
  · intro bound line frame settings m
    rfl
  · rw [List.map_append, htokens, List.map_singleton, hmark]
  · exact hitems.runValue_eq hlexical

/-- A list over two lines, with a list in it, an escaped word and a comment. -/
theorem rerun_of_balanced_nested :
    let o : Placed := ⟨.openBracket, 1, 1⟩
    let ts : List Placed := [⟨.bare "a-b", 1, 2⟩, ⟨.openBracket, 1, 7⟩, ⟨.word "x", 1, 8⟩,
      ⟨.reference "y", 1, 11⟩, ⟨.closeBracket, 1, 13⟩, ⟨.comment, 1, 15⟩, ⟨.newline, 1, 0⟩,
      ⟨.number ".5", 2, 2⟩]
    let c : Placed := ⟨.closeBracket, 2, 4⟩
    let e : Placed := ⟨.endOfText, 2, 5⟩
    let v : Value := .list [.word "a\\-b", .list [.word "\"x", .word ":y"], .word ".5"]
    tokenize "[a\\-b [\"x :y] ; c\n .5]" = .ok (o :: (ts ++ [c, e])) ∧ Balanced ts ∧
      (∀ t ∈ ts, t.token.isRereadable = true) ∧
      (∃ us, tokenize v.printForm = .ok us ∧ us.map Placed.token =
        [.bare "a-b", .openBracket, .word "x", .reference "y", .closeBracket, .number ".5",
          .endOfText]) ∧
      ∀ bound frame keepLast settings m,
        ((eval bound).runValue v frame keepLast settings m).mapLines noLine =
          ((eval bound).runTokens (significant ts) frame keepLast settings m).mapLines noLine := by
  intro o ts c e v
  have hsource : tokenize "[a\\-b [\"x :y] ; c\n .5]" = .ok (o :: (ts ++ [c, e])) := by
    decide +kernel
  have hbalanced : Balanced ts :=
    .leaf (by decide) (.group rfl rfl (.leaf (by decide) (.leaf (by decide) .nil))
      (.leaf (by decide) (.leaf (by decide) (.leaf (by decide) .nil))))
  have hread : ∀ t ∈ ts, t.token.isRereadable = true := by decide +kernel
  refine ⟨hsource, hbalanced, hread, ?_⟩
  obtain ⟨items, v', hitems, hvalue, htokens, hrun⟩ :=
    rerun_of_balanced hsource (fun t ht => by simp [ht]) hbalanced hread
  -- the list is read and evaluated to see that it is the one that is stated
  obtain rfl : items = [.word (Token.bare "a-b").spelling 1,
      .list [.word (Token.word "x").spelling 1, .word (Token.reference "y").spelling 1] 1,
      .word ".5" 2] := by
    obtain ⟨h, -⟩ := Reader.Result.done.inj (hitems 0 o c [e] .empty rfl rfl)
    exact (Node.list.inj h).1.symm
  obtain rfl : v' = v := by
    obtain ⟨h, -⟩ := Outcome.done.inj (hvalue 0 1 0 .standard .initial)
    have hspelling : (Token.bare "a-b").spelling = "a\\-b" ∧ (Token.word "x").spelling = "\"x" ∧
        (Token.reference "y").spelling = ":y" := by decide +kernel
    rw [← Flow.value.inj h]
    simp only [Node.quotedEach, Node.quoted, hspelling, v]
  exact ⟨htokens, hrun⟩

end Logo
