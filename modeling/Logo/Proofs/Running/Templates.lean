import Logo.Proofs.Running.Reentry
import Logo.Proofs.Values.Numerals

/-!
# Filled templates

A template is filled by pasting text in the places of `?` and `#`, and the result is read again.
This file shows that what is pasted stays one token if it is the spelling of one: the text of the
filled template has the tokens of the template, with a token in the place of each `?` and a number
in the place of each `#`. The placeholders are found as whole items, in lists within lists as well,
and no other token has the spelling of one.

* `Token.filled`: a token of the template after filling.
* `Itemizes.filled`: the filled template is the list of the filled tokens.
* `filled_word_tokens`: a word of any letters is filled in as one token.
-/

namespace Logo

/-! ## Placeholders -/

namespace Token

/-- The token of a template after filling, where `element` stands for `?`. -/
def filled (t element : Token) (index : Nat) : Token :=
  if t = .bare "?" then element else if t = .bare "#" then .number (toString index) else t

lemma decodes_spelling_bare (text : String) :
    Decodes (Token.bare text).spelling.toList text.toList := by
  by_cases hhash : text.toList.head? = some '#'
  · obtain ⟨rest, hrest⟩ := List.head?_eq_some_iff.mp hhash
    rw [toList_spelling_hash hrest, hrest]
    exact .plain (by decide) (decodes_escapeChars rest)
  · rw [toList_spelling_bare hhash]
    exact decodes_escapeChars _

/-- A bare word that needs no backslash is the only token with its spelling. -/
lemma eq_bare_of_spelling {t : Token} {c : Char} (ht : t.Lexical) (hsep : t.isSeparator = false)
    (hc : c = '?' ∨ c = '#') (h : t.spelling = String.singleton c) :
    t = .bare (String.singleton c) := by
  have hlist : t.spelling.toList = [c] := by rw [h, String.toList_singleton]
  cases t with
  | number text =>
    have hdigit := digits_of_mem_number ht c (by simp [show text.toList = [c] from hlist])
    rcases hc with rfl | rfl <;> exact absurd hdigit (by decide)
  | bare text =>
    have hdecoded : unescapeChars [c] = text.toList := hlist ▸ (decodes_spelling_bare text).eq
    have htext : text.toList = [c] := by rcases hc with rfl | rfl <;> exact hdecoded.symm
    rw [← String.ofList_toList (s := text), htext]
    rfl
  | operator op => rcases hc with rfl | rfl <;> cases op <;> exact absurd h (by decide)
  | newline | comment => simp [isSeparator] at hsep
  | continuation | blank | endOfText => exact absurd ht id
  | _ => rcases hc with rfl | rfl <;> simp [spelling] at hlist

/-- The token can be an item of a list. -/
def IsItem (t : Token) : Prop :=
  t ∉ [.openBracket, .closeBracket, .endOfText] ∧ t.isSeparator = false

lemma filled_cases (t element : Token) (index : Nat) :
    t = .bare "?" ∧ t.filled element index = element ∨
      t = .bare "#" ∧ t.filled element index = .number (toString index) ∨
      t.filled element index = t := by
  by_cases hmember : t = .bare "?"
  · exact .inl ⟨hmember, if_pos hmember⟩
  by_cases hplace : t = .bare "#"
  · exact .inr (.inl ⟨hplace, by rw [filled, if_neg hmember, if_pos hplace]⟩)
  · exact .inr (.inr (by rw [filled, if_neg hmember, if_neg hplace]))

lemma IsItem.filled {t element : Token} (ht : t.IsItem) (he : element.IsItem) (index : Nat) :
    (t.filled element index).IsItem := by
  obtain ⟨-, h⟩ | ⟨-, h⟩ | h := t.filled_cases element index
  · rwa [h]
  · rw [h]
    exact ⟨by simp, rfl⟩
  · rwa [h]

end Token

/-- The placed token of a template after filling. -/
def Placed.filled (element : Token) (index : Nat) (t : Placed) : Placed :=
  { t with token := t.token.filled element index }

/-! ## Filling item by item -/

section

variable {v : Value} {element : Token}

/-- An item is filled as its token is. -/
lemma fill_spelling {t : Token} (hv : Template.quote v = element.spelling) (ht : t.Lexical)
    (hsep : t.isSeparator = false) (index : Nat) :
    Template.fill v index (.word t.spelling) = .word (t.filled element index).spelling := by
  by_cases hmember : t = .bare "?"
  · have hspelling : (Token.bare "?").spelling = "?" := by decide
    rw [hmember, hspelling, Template.fill, if_pos rfl, hv]
    rfl
  by_cases hplace : t = .bare "#"
  · have hspelling : (Token.bare "#").spelling = "#" := by decide
    rw [hplace, hspelling]
    rfl
  · have hnot : t.spelling ≠ "?" ∧ t.spelling ≠ "#" :=
      ⟨fun h => hmember (Token.eq_bare_of_spelling ht hsep (.inl rfl) h),
        fun h => hplace (Token.eq_bare_of_spelling ht hsep (.inr rfl) h)⟩
    rw [Template.fill, if_neg hnot.1, if_neg hnot.2, Token.filled, if_neg hmember, if_neg hplace]

/-- **The filled template is the list of the filled tokens.** -/
theorem Itemizes.filled {ts : List Placed} {nodes : List Node} (h : Itemizes ts nodes)
    (hts : ∀ t ∈ ts, t.token.Lexical) (hv : Template.quote v = element.spelling)
    (he : element.IsItem) (index : Nat) :
    ∃ nodes', Itemizes (ts.map (Placed.filled element index)) nodes' ∧
      Node.quotedEach nodes' = Template.fillEach v index (Node.quotedEach nodes) := by
  induction h with
  | nil => exact ⟨[], .nil, rfl⟩
  | @separator t ts nodes hsep _ ih =>
    obtain ⟨nodes', hitems, hfilled⟩ := ih fun t ht => hts t (by simp [ht])
    refine ⟨nodes', .separator ?_ hitems, hfilled⟩
    obtain ⟨h, -⟩ | ⟨h, -⟩ | h := t.token.filled_cases element index
    · simp [h, Token.isSeparator] at hsep
    · simp [h, Token.isSeparator] at hsep
    · exact (congrArg Token.isSeparator h).trans hsep
  | @word t ts nodes hleaf hsep _ ih =>
    obtain ⟨nodes', hitems, hfilled⟩ := ih fun t ht => hts t (by simp [ht])
    obtain ⟨hleaf', hsep'⟩ := Token.IsItem.filled ⟨hleaf, hsep⟩ he index
    refine ⟨_, .word (t := t.filled element index) hleaf' hsep' hitems, ?_⟩
    rw [Node.quotedEach, Node.quoted, Node.quotedEach, Node.quoted, Template.fillEach, hfilled,
      fill_spelling hv (hts t (by simp)) hsep]
    rfl
  | @list o c inner ts items nodes ho hc _ _ ihinner ih =>
    obtain ⟨items', hinner, hinside⟩ := ihinner fun t ht => hts t (by simp [ht])
    obtain ⟨nodes', hitems, hfilled⟩ := ih fun t ht => hts t (by simp [ht])
    have hbracket : ∀ t : Placed, t.token = .openBracket ∨ t.token = .closeBracket →
        t.filled element index = t := by
      rintro ⟨token, line, column⟩ (rfl | rfl) <;> rfl
    refine ⟨.list items' o.line :: nodes', ?_, ?_⟩
    · rw [List.map_cons, List.map_append, List.map_cons, hbracket o (.inl ho),
        hbracket c (.inr hc)]
      exact .list ho hc hinner hitems
    · rw [Node.quotedEach, Node.quoted, Node.quotedEach, Node.quoted, Template.fillEach,
        Template.fill, hinside, hfilled]

/-- The place of a member is written like a number in a program. -/
lemma lexical_index (index : Nat) : (Token.number (toString index)).Lexical := by
  refine mem_number.mpr (.inl ⟨?_, fun c hc => ?_⟩)
  · simp [Nat.toDigits_ne_nil]
  · exact isDigit_of_mem_toDigits (by simpa using hc)

/-- The filled token can be written if the token can. -/
lemma Token.Lexical.filled {t : Token} (ht : t.Lexical) (he : element.Lexical) (index : Nat) :
    (t.filled element index).Lexical := by
  obtain ⟨-, h⟩ | ⟨-, h⟩ | h := t.filled_cases element index
  · rwa [h]
  · rw [h]
    exact lexical_index index
  · rwa [h]

/-- The filled tokens can be written and read again if the tokens can. -/
lemma lexical_filled {ts : List Placed}
    (hts : ∀ t ∈ ts, t.token.Lexical ∧ t.token.isRereadable = true)
    (he : element.Lexical ∧ element.isRereadable = true) (index : Nat) :
    ∀ t ∈ ts.map (Placed.filled element index),
      t.token.Lexical ∧ t.token.isRereadable = true := by
  refine List.forall_mem_map.mpr fun t ht => ⟨(hts t ht).1.filled he.1 index, ?_⟩
  show (t.token.filled element index).isRereadable = true
  obtain ⟨-, h⟩ | ⟨-, h⟩ | h := t.token.filled_cases element index
  · rw [h, he.2]
  · rw [h]
    rfl
  · rw [h, (hts t ht).2]

lemma Placed.isSeparator_filled (t : Placed) (he : element.isSeparator = false) (index : Nat) :
    (t.filled element index).token.isSeparator = t.token.isSeparator := by
  show (t.token.filled element index).isSeparator = _
  obtain ⟨ht, h⟩ | ⟨ht, h⟩ | h := t.token.filled_cases element index
  · rw [h, ht, he]
    rfl
  · rw [h, ht]
    rfl
  · rw [h]

/-- Line ends and comments stay, and no others are filled in. -/
lemma significant_filled (ts : List Placed) (he : element.isSeparator = false) (index : Nat) :
    significant (ts.map (Placed.filled element index)) =
      (significant ts).map (Placed.filled element index) := by
  rw [significant, List.filter_map, significant]
  congr 1
  refine List.filter_congr fun t _ => ?_
  simp [t.isSeparator_filled he]

end

/-! ## Words -/

/-- **A word is filled in as one token, whatever its letters are.** Let tokens of a text have their
brackets in pairs, and let none of them be a bare word that is spelled without a backslash which it
needs. Then, between brackets, they are read as a template. Filling it with a word without line ends
gives a list whose text has the tokens of the template, with one quoted word in the place of each
`?` and one number in the place of each `#`, also in inner lists; line ends and comments are left
out. Running that list leads to what running these tokens leads to, up to lines. -/
theorem filled_word_tokens {source : String} {tokens ts : List Placed}
    (hsource : tokenize source = .ok tokens) (hts : ts ⊆ tokens) (hbalanced : Balanced ts)
    (hread : ∀ t ∈ ts, t.token.isRereadable = true) :
    ∃ (items : List Node) (template : Value),
      (∀ bound o c rest vocabulary, o.token = .openBracket → c.token = .closeBracket →
        Grammar.operand (bound + 1) (o :: (ts ++ c :: rest)) vocabulary =
          .done (.list items o.line) rest vocabulary) ∧
      (∀ bound line frame settings m,
        eval (bound + 1) (.list items line) frame settings m = .done (.value template) m) ∧
      ∀ (w : String) (index : Nat), '\n' ∉ w.toList →
        (∃ us, tokenize (Template.fill (.word w) index template).printForm = .ok us ∧
          us.map Placed.token = ((significant ts).map fun t => t.token.filled (.word w) index) ++
            [.endOfText]) ∧
        ∀ bound frame keepLast settings m,
          ((eval bound).runValue (Template.fill (.word w) index template) frame keepLast
            settings m).mapLines noLine =
          ((eval bound).runTokens (significant (ts.map (Placed.filled (.word w) index))) frame
            keepLast settings m).mapLines noLine := by
  obtain ⟨items, hitems⟩ := hbalanced.exists_itemizes
  have hlexical : ∀ t ∈ ts, t.token.Lexical ∧ t.token.isRereadable = true := fun t ht =>
    ⟨lexical_of_tokenize hsource (hts ht) (hbalanced.ne_endOfText t ht), hread t ht⟩
  refine ⟨items, .list (Node.quotedEach items), ?_, fun _ _ _ _ _ => rfl, ?_⟩
  · intro bound o c rest vocabulary ho hc
    exact hitems.operand_eq ho hc bound rest vocabulary
  intro w index hw
  have hquote : Template.quote (.word w) = (Token.word w).spelling := rfl
  obtain ⟨nodes, hnodes, hfilled⟩ :=
    hitems.filled (fun t ht => (hlexical t ht).1) hquote ⟨by simp, rfl⟩ index
  have hword : (Token.word w).Lexical ∧ (Token.word w).isRereadable = true := ⟨hw, rfl⟩
  have hlexical' := lexical_filled hlexical hword index
  rw [Template.fill, ← hfilled]
  refine ⟨?_, hnodes.runValue_eq hlexical'⟩
  obtain ⟨us, mark, hus, htokens, hmark⟩ := hnodes.tokenize_eq hlexical'
  refine ⟨us ++ [mark], hus, ?_⟩
  rw [List.map_append, htokens, significant_filled ts rfl, List.map_map, List.map_singleton, hmark]
  rfl

/-- A template with an inner list, filled with a word that looks like instructions. -/
theorem filled_word_tokens_nested :
    let o : Placed := ⟨.openBracket, 1, 1⟩
    let ts : List Placed := [⟨.bare "show", 1, 2⟩, ⟨.openBracket, 1, 7⟩, ⟨.bare "?", 1, 8⟩,
      ⟨.bare "#", 1, 10⟩, ⟨.closeBracket, 1, 11⟩, ⟨.bare "show", 1, 13⟩, ⟨.bare "?", 1, 18⟩]
    let c : Placed := ⟨.closeBracket, 1, 19⟩
    let e : Placed := ⟨.endOfText, 1, 20⟩
    let template : Value := .list [.word "show", .list [.word "?", .word "#"], .word "show",
      .word "?"]
    tokenize "[show [? #] show ?]" = .ok (o :: (ts ++ [c, e])) ∧ Balanced ts ∧
      (∀ t ∈ ts, t.token.isRereadable = true) ∧ '\n' ∉ "? ] stop ; \"".toList ∧
      (∃ us, tokenize (Template.fill (.word "? ] stop ; \"") 2 template).printForm = .ok us ∧
        us.map Placed.token = [.bare "show", .openBracket, .word "? ] stop ; \"", .number "2",
          .closeBracket, .bare "show", .word "? ] stop ; \"", .endOfText]) := by
  intro o ts c e template
  have hsource : tokenize "[show [? #] show ?]" = .ok (o :: (ts ++ [c, e])) := by decide +kernel
  have hbalanced : Balanced ts :=
    .leaf (by decide) (.group rfl rfl (.leaf (by decide) (.leaf (by decide) .nil))
      (.leaf (by decide) (.leaf (by decide) .nil)))
  have hread : ∀ t ∈ ts, t.token.isRereadable = true := by decide +kernel
  have hw : '\n' ∉ "? ] stop ; \"".toList := by decide
  refine ⟨hsource, hbalanced, hread, hw, ?_⟩
  obtain ⟨items, template', hitems, hvalue, hfill⟩ :=
    filled_word_tokens hsource (fun t ht => by simp [ht]) hbalanced hread
  -- the template is read and evaluated to see that it is the one that is stated
  obtain rfl : items = [.word (Token.bare "show").spelling 1,
      .list [.word (Token.bare "?").spelling 1, .word (Token.bare "#").spelling 1] 1,
      .word (Token.bare "show").spelling 1, .word (Token.bare "?").spelling 1] := by
    obtain ⟨h, -⟩ := Reader.Result.done.inj (hitems 0 o c [e] .empty rfl rfl)
    exact (Node.list.inj h).1.symm
  obtain rfl : template' = template := by
    obtain ⟨h, -⟩ := Outcome.done.inj (hvalue 0 1 0 .standard .initial)
    have hspelling : (Token.bare "show").spelling = "show" ∧ (Token.bare "?").spelling = "?" ∧
        (Token.bare "#").spelling = "#" := by decide +kernel
    rw [← Flow.value.inj h]
    simp only [Node.quotedEach, Node.quoted, hspelling, template]
  obtain ⟨us, hus, htokens⟩ := (hfill _ 2 hw).1
  exact ⟨us, hus, htokens.trans (by decide +kernel)⟩

end Logo
