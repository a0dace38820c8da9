import Logo.Proofs.Reading.Derivation
import Logo.Proofs.Text.Keywords

/-!
# Nesting

In a program, three pairs of tokens enclose others: brackets, parentheses, and the words `to` and
`end`. Between brackets stands data, where the other two pairs mean nothing. Outside of lists the
pairs have to nest. The readers never check that as such: each closing token is taken by the reader
that took the opening one, and a reader in between stops at a closing token that is not its own.
This file shows that no text gets through in which the pairs do not nest.

* `WellNested`: the pairs nest.
* `wellNested_iff_run`: a stack of what is open decides it.
* `wellNested_of_read`: the tokens of a program are well nested.
-/

namespace Logo

/-! ## Pairs of tokens -/

/-- What a pair of tokens encloses. -/
inductive Enclosure where
  /-- Data, between brackets. -/
  | list
  /-- Expressions, between parentheses. -/
  | group
  /-- A procedure, between the words `to` and `end`. -/
  | definition
deriving DecidableEq

namespace Enclosure

/-- What the token opens. In a list, parentheses and words are data. -/
def openedBy : (inList : Bool) → Token → Option Enclosure
  | _, .openBracket => some list
  | false, .openParen => some group
  | false, .bare word => if Text.sameLetters word "to" then some definition else none
  | _, _ => none

/-- What the token closes. -/
def closedBy : (inList : Bool) → Token → Option Enclosure
  | _, .closeBracket => some list
  | false, .closeParen => some group
  | false, .bare word => if Text.sameLetters word "end" then some definition else none
  | _, _ => none

/-- No token opens and closes. -/
lemma openedBy_of_closedBy {inList : Bool} {token : Token} {e : Enclosure}
    (h : closedBy inList token = some e) : openedBy inList token = none := by
  unfold closedBy at h
  split at h
  · cases inList <;> rfl
  · rfl
  · next word =>
    split at h
    · next hend =>
      have hto : Text.sameLetters word "to" = false := by
        rw [Text.sameLetters, beq_iff_eq] at hend
        rw [Text.sameLetters, hend]
        decide
      simp [openedBy, hto]
    · cases h
  · cases h

lemma ne_endOfText_of_openedBy {inList : Bool} {token : Token} {e : Enclosure}
    (h : openedBy inList token = some e) : token ≠ .endOfText := by
  rintro rfl
  cases inList <;> cases h

lemma ne_endOfText_of_closedBy {inList : Bool} {token : Token} {e : Enclosure}
    (h : closedBy inList token = some e) : token ≠ .endOfText := by
  rintro rfl
  cases inList <;> cases h

end Enclosure

open Enclosure

/-- The pairs of tokens nest, and the tokens do not hold the mark of the end. -/
inductive WellNested : (inList : Bool) → List Placed → Prop
  | nil {inList : Bool} : WellNested inList []
  | plain {inList : Bool} {t : Placed} {ts : List Placed} : t.token ≠ .endOfText →
      openedBy inList t.token = none → closedBy inList t.token = none → WellNested inList ts →
      WellNested inList (t :: ts)
  | pair {inList : Bool} {e : Enclosure} {o c : Placed} {inner ts : List Placed} :
      openedBy inList o.token = some e → closedBy (e == .list) c.token = some e →
      WellNested (e == .list) inner → WellNested inList ts →
      WellNested inList (o :: (inner ++ c :: ts))

namespace WellNested

variable {inList : Bool} {ts us : List Placed}

lemma append (hts : WellNested inList ts) (hus : WellNested inList us) :
    WellNested inList (ts ++ us) := by
  induction hts with
  | nil => exact hus
  | plain hend hopen hclose _ ih => exact .plain hend hopen hclose (ih hus)
  | pair ho hc hinner _ _ ih =>
    rw [List.cons_append, List.append_assoc, List.cons_append]
    exact .pair ho hc hinner (ih hus)

lemma ne_endOfText (h : WellNested inList ts) : ∀ t ∈ ts, t.token ≠ .endOfText := by
  induction h with
  | nil => exact List.forall_mem_nil _
  | plain hend _ _ _ ih => exact List.forall_mem_cons.mpr ⟨hend, ih⟩
  | pair ho hc _ _ ihinner ih =>
    refine List.forall_mem_cons.mpr ⟨ne_endOfText_of_openedBy ho, ?_⟩
    refine List.forall_mem_append.mpr ⟨ihinner, ?_⟩
    exact List.forall_mem_cons.mpr ⟨ne_endOfText_of_closedBy hc, ih⟩

end WellNested

/-- What stands between the brackets of a list nests there. -/
lemma Balanced.wellNested {ts : List Placed} (h : Balanced ts) : WellNested true ts := by
  induction h with
  | nil => exact .nil
  | @leaf t ts hleaf _ ih =>
    refine .plain (fun hend => hleaf (by simp [hend])) ?_ ?_ ih
    · cases htoken : t.token <;> simp [htoken] at hleaf <;> rfl
    · cases htoken : t.token <;> simp [htoken] at hleaf <;> rfl
  | group ho hc _ _ ihinner ih =>
    exact .pair (e := .list) (by rw [ho]; rfl) (by rw [hc]; rfl) ihinner ih

/-! ## A stack of what is open -/

namespace Nesting

/-- The innermost of what is open is a list. -/
def inList (stack : List Enclosure) : Bool := stack.head? == some .list

/-- What is open after one more token, the innermost first. A token that closes something else than
the innermost is refused. -/
def step (stack : List Enclosure) (t : Placed) : Option (List Enclosure) :=
  if t.token = .endOfText then none
  else
    match openedBy (inList stack) t.token, closedBy (inList stack) t.token with
    | some e, _ => some (e :: stack)
    | none, none => some stack
    | none, some e => if stack.head? = some e then some stack.tail else none

/-- What is open after some tokens. -/
def run (stack : List Enclosure) (ts : List Placed) : Option (List Enclosure) :=
  ts.foldlM step stack

variable {stack : List Enclosure} {t : Placed} {ts us : List Placed} {e : Enclosure}

lemma step_of_openedBy (h : openedBy (inList stack) t.token = some e) :
    step stack t = some (e :: stack) := by
  rw [step, if_neg (ne_endOfText_of_openedBy h), h]

lemma step_of_closedBy (h : closedBy (e == .list) t.token = some e) :
    step (e :: stack) t = some stack := by
  replace h : closedBy (inList (e :: stack)) t.token = some e := h
  rw [step, if_neg (ne_endOfText_of_closedBy h), openedBy_of_closedBy h, h]
  exact if_pos rfl

lemma step_of_plain (hend : t.token ≠ .endOfText) (hopen : openedBy (inList stack) t.token = none)
    (hclose : closedBy (inList stack) t.token = none) : step stack t = some stack := by
  rw [step, if_neg hend, hopen, hclose]

@[simp] lemma run_nil : run stack [] = some stack := rfl

lemma run_cons {stack' : List Enclosure} (h : step stack t = some stack') :
    run stack (t :: ts) = run stack' ts := by
  rw [run, List.foldlM_cons, h]
  rfl

lemma run_append {stack' : List Enclosure} (h : run stack ts = some stack') :
    run stack (ts ++ us) = run stack' us := by
  rw [run, List.foldlM_append, ← run, h]
  rfl

/-- Well-nested tokens leave open what was open before. -/
lemma run_of_wellNested {within : Bool} (h : WellNested within ts)
    (hwithin : within = inList stack) : run stack ts = some stack := by
  induction h generalizing stack with
  | nil => rfl
  | plain hend hopen hclose _ ih =>
    subst hwithin
    rw [run_cons (step_of_plain hend hopen hclose), ih rfl]
  | pair ho hc _ _ ihinner ih =>
    subst hwithin
    rw [run_cons (step_of_openedBy ho), run_append (ihinner rfl), run_cons (step_of_closedBy hc),
      ih rfl]

/-- Where everything is closed in the end, the next tokens nest up to the one that closes the
innermost of what is open. -/
lemma exists_wellNested_of_run (h : run stack ts = some []) :
    ∃ inner rest, ts = inner ++ rest ∧ WellNested (inList stack) inner ∧
      ((stack = [] ∧ rest = []) ∨ ∃ e outer c more, stack = e :: outer ∧ rest = c :: more ∧
        closedBy (e == .list) c.token = some e ∧ run outer more = some []) := by
  induction hlength : ts.length using Nat.strongRecOn generalizing ts stack with
  | ind length ih =>
  rcases ts with _ | ⟨t, ts⟩
  · exact ⟨[], [], rfl, .nil, .inl ⟨Option.some.inj h, rfl⟩⟩
  have hshort : ts.length < length := by simp [← hlength]
  have hend : t.token ≠ .endOfText := by
    intro hend
    simp [run, step, hend] at h
  cases hopen : openedBy (inList stack) t.token with
  | some e =>
    -- the inner tokens come first, and then what follows the one that closes them
    rw [run_cons (step_of_openedBy hopen)] at h
    obtain ⟨inner, rest, rfl, hinner, ⟨hnil, -⟩ | ⟨e', outer, c, more, hcons, rfl, hc, hmore⟩⟩ :=
      ih _ hshort h rfl
    · cases hnil
    obtain ⟨rfl, rfl⟩ := List.cons.inj hcons
    have hshorter : more.length < length := by
      simp only [List.length_append, List.length_cons] at hshort
      omega
    obtain ⟨inner', rest, rfl, hinner', hrest⟩ := ih _ hshorter hmore rfl
    exact ⟨t :: (inner ++ c :: inner'), rest, by simp, .pair hopen hc hinner hinner', hrest⟩
  | none =>
    cases hclose : closedBy (inList stack) t.token with
    | none =>
      rw [run_cons (step_of_plain hend hopen hclose)] at h
      obtain ⟨inner, rest, rfl, hinner, hrest⟩ := ih _ hshort h rfl
      exact ⟨t :: inner, rest, rfl, .plain hend hopen hclose hinner, hrest⟩
    | some e =>
      rcases stack with _ | ⟨top, outer⟩
      · simp [run, step, hend, hopen, hclose] at h
      · by_cases htop : top = e
        · subst htop
          rw [run_cons (step_of_closedBy hclose)] at h
          exact ⟨[], t :: ts, rfl, .nil, .inr ⟨top, outer, t, ts, rfl, rfl, hclose, h⟩⟩
        · simp [run, step, hend, hopen, hclose, htop] at h

end Nesting

/-- **A stack of what is open decides whether tokens nest**: nothing is closed that is not the
innermost of what is open, and in the end nothing is open. -/
theorem wellNested_iff_run {ts : List Placed} :
    WellNested false ts ↔ Nesting.run [] ts = some [] := by
  constructor
  · exact fun h => Nesting.run_of_wellNested h rfl
  · intro h
    obtain ⟨inner, rest, rfl, hinner, ⟨-, rfl⟩ | ⟨_, _, _, _, h', -⟩⟩ :=
      Nesting.exists_wellNested_of_run h
    · rwa [List.append_nil]
    · cases h'

instance (ts : List Placed) : Decidable (WellNested false ts) :=
  decidable_of_iff _ wellNested_iff_run.symm

/-! ## What has been read nests -/

namespace Grammar

/-- The tokens enclose nothing and are not enclosed. -/
lemma wellNested_of_forall {ts : List Placed} (h : ∀ t ∈ ts, t.token ≠ .endOfText ∧
    openedBy false t.token = none ∧ closedBy false t.token = none) : WellNested false ts := by
  induction ts with
  | nil => exact .nil
  | cons t ts ih =>
    obtain ⟨⟨hend, hopen, hclose⟩, hrest⟩ := List.forall_mem_cons.mp h
    exact .plain hend hopen hclose (ih hrest)

lemma AllSeparators.wellNested {ss : List Placed} (h : AllSeparators ss) : WellNested false ss := by
  refine wellNested_of_forall fun t ht => ?_
  have hsep := h t ht
  cases htoken : t.token <;> simp [htoken, Token.isSeparator] at hsep <;>
    exact ⟨Token.noConfusion, rfl, rfl⟩

lemma wellNested_of_params {heads : List Placed} {params : List String}
    (h : heads.map paramName? = params.map some) : WellNested false heads := by
  refine wellNested_of_forall fun t ht => ?_
  obtain ⟨param, -, hparam⟩ := List.mem_map.mp (h ▸ List.mem_map_of_mem (f := paramName?) ht)
  cases htoken : t.token <;> simp [paramName?, htoken] at hparam
  exact ⟨Token.noConfusion, rfl, rfl⟩

/-- A word that opens something else than a definition. -/
lemma wellNested_word {word : String} {line column : Nat} {us : List Placed}
    (hto : Text.sameLetters word "to" = false) (hend : Text.sameLetters word "end" = false)
    (hus : WellNested false us) : WellNested false (⟨.bare word, line, column⟩ :: us) := by
  refine .plain Token.noConfusion ?_ ?_ hus
  · simp [openedBy, hto]
  · simp [closedBy, hend]

lemma wellNested_opening {word : String} {line column : Nat} {us : List Placed}
    (hword : Opening.ofWord word ≠ .definition ∧ Opening.ofWord word ≠ .stray)
    (hus : WellNested false us) : WellNested false (⟨.bare word, line, column⟩ :: us) := by
  refine wellNested_word ?_ ?_ hus
  · rw [Bool.eq_false_iff, ne_eq, ← ofWord_eq_definition_iff]
    exact hword.1
  · rw [Bool.eq_false_iff, ne_eq, ← ofWord_eq_stray_iff]
    exact hword.2

lemma wellNested_name {name : String} {line column : Nat} {us : List Placed}
    (hname : isKeyword name = false) (hus : WellNested false us) :
    WellNested false (⟨.bare name, line, column⟩ :: us) :=
  wellNested_word (not_sameLetters_of_not_keyword hname (by decide))
    (not_sameLetters_of_not_keyword hname (by decide)) hus

/-- What the token at the end of a sequence closes. -/
def Closer.enclosure? : Closer → Option Enclosure
  | .text => none
  | .paren _ => some .group
  | .definition _ _ => some .definition

/-- The tokens that a reader takes nest, except that a sequence ends with the token that closes
it. -/
def Goal.Nests (goal : Goal) (us : List Placed) : Prop :=
  match goal with
  | .sequence closer =>
    match closer.enclosure? with
    | none => WellNested false us
    | some e => ∃ inner close, us = inner ++ [close] ∧ WellNested false inner ∧
      closedBy false close.token = some e
  | _ => WellNested false us

lemma Goal.Nests.prepend {closer : Closer} {ts us : List Placed} (hts : WellNested false ts)
    (hus : (Goal.sequence closer).Nests us) : (Goal.sequence closer).Nests (ts ++ us) := by
  unfold Goal.Nests at hus ⊢
  cases henclosure : closer.enclosure? with
  | none =>
    simp only [henclosure] at hus ⊢
    exact hts.append hus
  | some e =>
    simp only [henclosure] at hus ⊢
    obtain ⟨inner, close, rfl, hinner, hclose⟩ := hus
    exact ⟨ts ++ inner, close, by rw [List.append_assoc], hts.append hinner, hclose⟩

lemma Goal.Nests.of_closes {closer : Closer} {close : Placed}
    (h : closer.closes close.token = true) : (Goal.sequence closer).Nests [close] := by
  unfold Goal.Nests
  cases htoken : close.token <;> cases closer <;> simp [htoken, Closer.closes] at h
  · exact ⟨[], close, rfl, .nil, by simp [htoken, closedBy, h]⟩
  · exact ⟨[], close, rfl, .nil, by simp [htoken, closedBy]⟩

/-- The tokens of a derivation nest. -/
lemma Derives.nests {goal : Goal} {v w : Vocabulary} {us rest : List Placed} {nodes : List Node}
    (h : Derives goal v us rest nodes w) : goal.Nests us := by
  induction h with
  | expression _ _ ih ih' => exact WellNested.append ih ih'
  | noOperator => exact WellNested.nil
  | operator _ _ _ ih ih' => exact .plain Token.noConfusion rfl rfl (WellNested.append ih ih')
  | number | word | reference => exact WellNested.plain Token.noConfusion rfl rfl .nil
  | truth hword => exact wellNested_opening (by simp [hword]) .nil
  | minus _ ih => exact .plain Token.noConfusion rfl rfl ih
  | list hitems hclose =>
    exact .pair (e := .list) rfl (by rw [hclose]; rfl) hitems.balanced.wellNested .nil
  | enclosed hss hss' hclose _ _ ih =>
    exact .pair (e := .group) rfl (by rw [hclose]; rfl)
      ((hss.wellNested.append ih).append hss'.wellNested) .nil
  | @groupCall name nodes line column l c v w ss us rest hss hkeyword _ _ ih =>
    obtain ⟨inner, close, rfl, hinner, hclose⟩ := ih
    have hcall : WellNested false (ss ++ ⟨.bare name, l, c⟩ :: inner) :=
      hss.wellNested.append (wellNested_name hkeyword hinner)
    have hpair : WellNested false (⟨.openParen, line, column⟩ :: (_ ++ [close])) :=
      .pair rfl hclose hcall .nil
    simpa [Goal.Nests] using hpair
  | definition hword hkeyword _ hheads _ _ ih =>
    obtain ⟨inner, close, rfl, hinner, hclose⟩ := ih
    rw [isKeyword_lower] at hkeyword
    rw [← List.append_assoc, ← List.cons_append]
    exact .pair (e := .definition) (if_pos ((ofWord_eq_definition_iff _).mp hword)) hclose
      (wellNested_name hkeyword ((wellNested_of_params hheads).append hinner)) .nil
  | oneBranch hword _ _ ih ih' =>
    exact wellNested_opening (by simp [hword]) (WellNested.append ih ih')
  | twoBranches hword _ _ _ ih ih' ih'' =>
    exact wellNested_opening (by simp [hword]) ((WellNested.append ih ih').append ih'')
  | call hword _ _ ih => exact wellNested_opening (by simp [hword]) ih
  | ended hss => exact hss.wellNested
  | closed hss hclose => exact .prepend hss.wellNested (.of_closes hclose)
  | item hss _ _ _ ih ih' => exact .prepend (hss.wellNested.append ih) ih'
  | enough | noInput => exact WellNested.nil
  | input _ _ ih ih' => exact WellNested.append ih ih'

end Grammar

/-- The tokens before the mark of the end. -/
def beforeEnd (tokens : List Placed) : List Placed :=
  tokens.takeWhile fun t => t.token != .endOfText

lemma beforeEnd_append {us rest : List Placed} (hus : ∀ t ∈ us, t.token ≠ .endOfText)
    (hrest : Grammar.isEnd rest.head? = true) : beforeEnd (us ++ rest) = us := by
  rw [beforeEnd, List.takeWhile_append_of_pos (by simpa using hus)]
  rcases rest with _ | ⟨t, rest⟩
  · simp
  · replace hrest : (t.token == .endOfText) = true := hrest
    simp [beq_iff_eq.mp hrest]

/-- **The tokens of a program are well nested**, so tokens that are not form no program. -/
theorem wellNested_of_read (tokens : List Placed) (v : Vocabulary) :
    (∀ program w, Program.ofTokens tokens v = (.ok program, w) →
      WellNested false (beforeEnd tokens)) ∧
    (¬ WellNested false (beforeEnd tokens) → ∃ e w, Program.ofTokens tokens v = (.error e, w)) := by
  have hread : ∀ program w, Program.ofTokens tokens v = (.ok program, w) →
      WellNested false (beforeEnd tokens) := by
    intro program w h
    obtain ⟨us, rest, rfl, hend, hderives⟩ := Program.ofTokens_eq_ok_iff.mp h
    have hnests : WellNested false us := hderives.nests
    rwa [beforeEnd_append hnests.ne_endOfText hend]
  refine ⟨hread, fun hnot => ?_⟩
  rcases hresult : Program.ofTokens tokens v with ⟨e | program, w⟩
  · exact ⟨e, w, rfl⟩
  · exact absurd (hread program w hresult) hnot

/-- Parentheses and words between brackets are data; a parenthesis may not be left open around a
definition. -/
theorem wellNested_of_read_definition :
    let tokens : List Placed := [⟨.bare "To", 1, 1⟩, ⟨.bare "f", 1, 4⟩, ⟨.openBracket, 1, 6⟩,
      ⟨.closeParen, 1, 7⟩, ⟨.bare "to", 1, 8⟩, ⟨.closeBracket, 1, 10⟩, ⟨.bare "END", 1, 12⟩,
      ⟨.endOfText, 1, 15⟩, ⟨.closeParen, 1, 15⟩]
    let others : List Placed := [⟨.bare "to", 1, 1⟩, ⟨.bare "f", 1, 4⟩, ⟨.openParen, 1, 6⟩,
      ⟨.bare "end", 1, 8⟩, ⟨.closeParen, 1, 11⟩, ⟨.endOfText, 1, 12⟩]
    let program : Program := [.definition "f" [] [.list [.word ")" 1, .word "to" 1] 1] 1]
    let after := Vocabulary.standard.declare "f" (.fixed 0)
    Program.ofTokens tokens .standard = (.ok program, after) ∧
      WellNested false (beforeEnd tokens) ∧ ¬ WellNested false (beforeEnd others) ∧
      ∃ e w, Program.ofTokens others .standard = (.error e, w) := by
  intro tokens others program after
  have hread : Program.ofTokens tokens .standard = (.ok program, after) := rfl
  have hothers : ¬ WellNested false (beforeEnd others) := by decide +kernel
  exact ⟨hread, (wellNested_of_read tokens .standard).1 program after hread, hothers,
    (wellNested_of_read others .standard).2 hothers⟩

end Logo
