import Logo.Proofs.Reading.EndOfText

/-!
# Headings of definitions

A definition is announced by its heading: the word `to`, a name and the parameters. Where headings
stand can be told from the tokens alone, one after the other, without reading a program. The words
in a list are data, so that only headings outside of brackets count.

This file lists the headings of tokens and those of a program, and says what becomes of a vocabulary
if a list of them is declared.

* `HoldsHeading`: the tokens hold a heading.
* `headings`: the headings that stand in the tokens, in their order.
* `Node.headings`: the headings of the definitions in a syntax tree.
* `Vocabulary.declareAll`: the vocabulary after a list of headings.
-/

namespace Logo

open Likeness Grammar

/-! ## Headings in tokens -/

/-- The heading of a definition. -/
structure Heading where
  /-- The name, in small letters. -/
  name : String
  /-- The number of the parameters. -/
  inputs : Nat

/-- How many brackets are open after a token, if `depth` of them are open before it. -/
def bracketStep (depth : Nat) (t : Placed) : Nat :=
  match t.token with
  | .openBracket => depth + 1
  | .closeBracket => depth - 1
  | _ => depth

/-- How many brackets the tokens leave open. -/
def bracketDepth (ts : List Placed) : Nat := ts.foldl bracketStep 0

/-- Outside of brackets, the tokens hold the word `to`. What follows it are the tokens `later`: the
name, then the parameters `params`, and no further parameter after these. -/
inductive HoldsHeading :
    (tokens : List Placed) → (name : String) → (params later : List Placed) → Prop
  | intro {before params rest : List Placed} {word name : String} {l c l' c' : Nat} :
      bracketDepth before = 0 → Text.lower word = "to" →
      (∀ t ∈ params, (paramName? t).isSome) → (∀ t ∈ rest.head?, paramName? t = none) →
      HoldsHeading (before ++ ⟨.bare word, l, c⟩ :: ⟨.bare name, l', c'⟩ :: (params ++ rest)) name
        params (⟨.bare name, l', c'⟩ :: (params ++ rest))

/-- The heading that the tokens start with. -/
def heading? : List Placed → Option Heading
  | ⟨.bare word, _, _⟩ :: ⟨.bare name, _, _⟩ :: ts =>
    if Text.lower word = "to" then
      some ⟨Text.lower name, (ts.takeWhile fun t => (paramName? t).isSome).length⟩
    else none
  | _ => none

/-- The headings outside of brackets, if `depth` brackets are open. -/
def headingsFrom : (depth : Nat) → List Placed → List Heading
  | _, [] => []
  | depth, t :: ts =>
    (if depth = 0 then (heading? (t :: ts)).toList else []) ++ headingsFrom (bracketStep depth t) ts

/-- The headings that stand in the tokens outside of brackets. -/
def headings (ts : List Placed) : List Heading := headingsFrom 0 ts

section

variable {t : Placed} {ts inner params later : List Placed} {d : Heading} {depth : Nat}
  {word name : String} {l c l' c' : Nat}

/-- The parameters that come next, and the rest. -/
lemma exists_params (ts : List Placed) : ∃ params rest, ts = params ++ rest ∧
    (∀ t ∈ params, (paramName? t).isSome) ∧ ∀ t ∈ rest.head?, paramName? t = none := by
  let isParam (t : Placed) : Bool := (paramName? t).isSome
  refine ⟨ts.takeWhile isParam, ts.dropWhile isParam, (List.takeWhile_append_dropWhile ..).symm,
    fun t ht => List.mem_takeWhile_imp (p := isParam) ht, fun t ht => ?_⟩
  have hnot := List.head?_dropWhile_not isParam ts
  rw [Option.mem_def.mp ht] at hnot
  simpa [isParam] using hnot

lemma takeWhile_params (hparams : ∀ t ∈ params, (paramName? t).isSome)
    (hts : ∀ t ∈ ts.head?, paramName? t = none) :
    (params ++ ts).takeWhile (fun t => (paramName? t).isSome) = params := by
  rw [List.takeWhile_append_of_pos hparams]
  cases ts with
  | nil => simp
  | cons t ts => simp [hts t rfl]

lemma heading?_params (hword : Text.lower word = "to")
    (hparams : ∀ t ∈ params, (paramName? t).isSome)
    (hts : ∀ t ∈ ts.head?, paramName? t = none) :
    heading? (⟨.bare word, l, c⟩ :: ⟨.bare name, l', c'⟩ :: (params ++ ts)) =
      some ⟨Text.lower name, params.length⟩ := by
  rw [heading?, if_pos hword, takeWhile_params hparams hts]

lemma exists_holdsHeading_of_heading? {before : List Placed} (hbefore : bracketDepth before = 0)
    (h : heading? ts = some d) : ∃ name params later,
      HoldsHeading (before ++ ts) name params later ∧ d = ⟨Text.lower name, params.length⟩ := by
  unfold heading? at h
  split at h
  · next word l c name l' c' more =>
    split at h
    · next hword =>
      obtain ⟨params, rest, rfl, hparams, hrest⟩ := exists_params more
      rw [takeWhile_params hparams hrest] at h
      exact ⟨name, params, _, .intro hbefore hword hparams hrest, (Option.some.inj h).symm⟩
    · cases h
  · cases h

/-- A heading stands where the brackets before it are closed. -/
lemma exists_of_mem_headingsFrom (h : d ∈ headingsFrom depth ts) :
    ∃ before rest, ts = before ++ rest ∧ before.foldl bracketStep depth = 0 ∧
      heading? rest = some d := by
  induction ts generalizing depth with
  | nil => cases h
  | cons t ts ih =>
    rw [headingsFrom] at h
    rcases List.mem_append.mp h with h | h
    · split at h
      · next hdepth => exact ⟨[], t :: ts, rfl, hdepth, Option.mem_toList.mp h⟩
      · cases h
    · obtain ⟨before, rest, rfl, hdepth, hheading⟩ := ih h
      exact ⟨t :: before, rest, rfl, hdepth, hheading⟩

lemma exists_holdsHeading (h : d ∈ headings ts) : ∃ name params later,
    HoldsHeading ts name params later ∧ d = ⟨Text.lower name, params.length⟩ := by
  obtain ⟨before, rest, rfl, hdepth, hheading⟩ := exists_of_mem_headingsFrom h
  exact exists_holdsHeading_of_heading? hdepth hheading

lemma exists_headingsFrom_append (depth : Nat) (before ts : List Placed) :
    ∃ ds, headingsFrom depth (before ++ ts) =
      ds ++ headingsFrom (before.foldl bracketStep depth) ts := by
  induction before generalizing depth with
  | nil => exact ⟨[], rfl⟩
  | cons t before ih =>
    obtain ⟨ds, hds⟩ := ih (bracketStep depth t)
    rw [List.cons_append, headingsFrom, hds, ← List.append_assoc]
    exact ⟨_, rfl⟩

/-- A heading that the tokens hold is in the list, with those behind it after it. -/
lemma HoldsHeading.exists_earlier (h : HoldsHeading ts name params later) :
    ∃ earlier, headings ts = earlier ++ ⟨Text.lower name, params.length⟩ :: headings later := by
  cases h with
  | @intro before params rest word name l c l' c' hbefore hword hparams hrest =>
    obtain ⟨earlier, hearlier⟩ := exists_headingsFrom_append 0 before
      (⟨.bare word, l, c⟩ :: ⟨.bare name, l', c'⟩ :: (params ++ rest))
    replace hbefore : before.foldl bracketStep 0 = 0 := hbefore
    rw [hbefore, headingsFrom, heading?_params hword hparams hrest] at hearlier
    exact ⟨earlier, hearlier⟩

/-! ### The headings behind a token -/

/-- The token opens neither a list nor a definition. -/
def IsPlain (token : Token) : Prop :=
  token ≠ .openBracket ∧ ∀ word, token = .bare word → Text.lower word ≠ "to"

lemma lower_eq_to_iff : Text.lower word = "to" ↔ Opening.ofWord word = .definition := by
  rw [Text.lower_eq_iff_sameLetters (plain_of_mem_keywords "to" (by decide)),
    ofWord_eq_definition_iff]

lemma isPlain_word (h : Opening.ofWord word ≠ .definition) : IsPlain (.bare word) := by
  refine ⟨Token.noConfusion, ?_⟩
  rintro _ ⟨⟩ hto
  exact h (lower_eq_to_iff.mp hto)

lemma isPlain_name (h : isKeyword name = false) : IsPlain (.bare name) := by
  refine isPlain_word fun hdefinition => ?_
  rw [ofWord_eq_definition_iff, not_sameLetters_of_not_keyword h (by decide)] at hdefinition
  cases hdefinition

lemma isPlain_of_closes {closer : Closer} {token : Token} (h : closer.closes token = true) :
    IsPlain token := by
  cases closer with
  | text => cases h
  | paren line =>
    cases token <;> simp [Closer.closes] at h
    simp [IsPlain]
  | definition name line =>
    cases token with
    | bare word =>
      refine isPlain_word fun hdefinition => ?_
      replace h : Text.sameLetters word "end" = true := h
      rw [(ofWord_eq_stray_iff word).mpr h] at hdefinition
      cases hdefinition
    | _ => cases h

lemma headings_cons (h : IsPlain t.token) : headings (t :: ts) = headings ts := by
  obtain ⟨token, l, c⟩ := t
  have hnone : heading? (⟨token, l, c⟩ :: ts) = none := by
    unfold heading?
    split
    · next word _ _ _ _ _ _ heq =>
      obtain ⟨ht, -⟩ := List.cons.inj heq
      obtain ⟨rfl, -⟩ := Placed.mk.inj ht
      exact if_neg (h.2 word rfl)
    · rfl
  have hstep : bracketStep 0 ⟨token, l, c⟩ = 0 := by
    cases token with
    | openBracket => exact absurd rfl h.1
    | _ => rfl
  rw [headings, headingsFrom, hnone, hstep]
  rfl

lemma headings_append {plain : List Placed} (h : ∀ t ∈ plain, IsPlain t.token) :
    headings (plain ++ ts) = headings ts := by
  induction plain with
  | nil => rfl
  | cons t plain ih =>
    obtain ⟨ht, hplain⟩ := List.forall_mem_cons.mp h
    rw [List.cons_append, headings_cons ht, ih hplain]

lemma headings_dropSeparators (ts : List Placed) : headings (dropSeparators ts) = headings ts := by
  obtain ⟨ss, hss, hts⟩ := exists_separators ts
  rw [hts, dropSeparators_append hss, dropSeparators_idem, headings_append fun t ht => ?_]
  have hsep := hss t ht
  cases htoken : t.token <;> simp [htoken, Token.isSeparator] at hsep <;> simp [IsPlain]

/-- The heading of a definition, and those behind it. -/
lemma headings_definition (hword : Opening.ofWord word = .definition)
    (hname : isKeyword name = false) (hparams : ∀ t ∈ params, (paramName? t).isSome)
    (hts : ∀ t ∈ ts.head?, paramName? t = none) :
    headings (⟨.bare word, l, c⟩ :: ⟨.bare name, l', c'⟩ :: (params ++ ts)) =
      ⟨Text.lower name, params.length⟩ :: headings ts := by
  have hrest : headings (⟨.bare name, l', c'⟩ :: (params ++ ts)) = headings ts := by
    rw [headings_cons (isPlain_name hname), headings_append fun t ht => ?_]
    have hparam := hparams t ht
    cases htoken : t.token <;> simp [paramName?, htoken] at hparam
    simp [IsPlain]
  rw [headings, headingsFrom, heading?_params (lower_eq_to_iff.mpr hword) hparams hts, if_pos rfl]
  exact congrArg (_ :: ·) hrest

/-! ### Brackets -/

/-- Between brackets there are no headings. -/
lemma headingsFrom_balanced (h : Balanced inner) (depth : Nat) (ts : List Placed) :
    headingsFrom (depth + 1) (inner ++ ts) = headingsFrom (depth + 1) ts := by
  induction h generalizing depth ts with
  | nil => rfl
  | @leaf t inner hleaf _ ih =>
    have hstep : bracketStep (depth + 1) t = depth + 1 := by
      cases htoken : t.token <;> simp [htoken] at hleaf <;> simp [bracketStep, htoken]
    rw [List.cons_append, headingsFrom, hstep, ih]
    rfl
  | @group o c inner more ho hc _ _ ihinner ihmore =>
    have hopen : bracketStep (depth + 1) o = depth + 1 + 1 := by simp [bracketStep, ho]
    have hclose : bracketStep (depth + 1 + 1) c = depth + 1 := by simp [bracketStep, hc]
    rw [List.cons_append, headingsFrom, hopen, List.append_assoc, ihinner, List.cons_append,
      headingsFrom, hclose, ihmore]
    rfl

lemma headings_list {o c : Placed} (ho : o.token = .openBracket) (hc : c.token = .closeBracket)
    (h : Balanced inner) (ts : List Placed) :
    headings (o :: (inner ++ c :: ts)) = headings ts := by
  obtain ⟨token, l, column⟩ := o
  obtain rfl : token = .openBracket := ho
  have hopen : bracketStep 0 ⟨.openBracket, l, column⟩ = 0 + 1 := rfl
  have hclose : bracketStep (0 + 1) c = 0 := by simp [bracketStep, hc]
  rw [headings, headingsFrom, hopen, headingsFrom_balanced h, headingsFrom, hclose]
  rfl

/-- A heading does not reach over a bracket. -/
lemma heading?_append {o : Placed} (ho : o.token = .openBracket) (ts more : List Placed) :
    heading? (ts ++ o :: more) = heading? ts := by
  obtain ⟨token, l, c⟩ := o
  obtain rfl : token = .openBracket := ho
  rcases ts with _ | ⟨⟨token, l', c'⟩, _ | ⟨⟨token', l'', c''⟩, ts⟩⟩
  · rfl
  · cases token <;> rfl
  · have hwhile : (ts ++ ⟨.openBracket, l, c⟩ :: more).takeWhile (fun t => (paramName? t).isSome) =
        ts.takeWhile fun t => (paramName? t).isSome := by
      rw [List.takeWhile_append]
      split
      · next hall =>
        rw [List.takeWhile_cons_of_neg (by simp [paramName?]), List.append_nil]
        exact ((List.takeWhile_prefix _).eq_of_length hall).symm
      · rfl
    cases token with
    | bare word =>
      cases token' with
      | bare name => simp only [List.cons_append, heading?, hwhile]
      | _ => rfl
    | _ => rfl

/-- What stands in a list has no say in the headings. -/
lemma headings_inside {o : Placed} (ho : o.token = .openBracket) (h : Balanced inner)
    (before ts : List Placed) :
    headings (before ++ o :: (inner ++ ts)) = headings (before ++ o :: ts) := by
  have hfrom : ∀ depth, headingsFrom depth (before ++ o :: (inner ++ ts)) =
      headingsFrom depth (before ++ o :: ts) := by
    induction before with
    | nil =>
      intro depth
      have hopen : bracketStep depth o = depth + 1 := by simp [bracketStep, ho]
      have hnone : ∀ more, heading? (o :: more) = none := heading?_append ho []
      rw [List.nil_append, List.nil_append, headingsFrom, headingsFrom, hopen, hnone, hnone,
        headingsFrom_balanced h]
    | cons t before ih =>
      intro depth
      have hheading : heading? (t :: (before ++ o :: (inner ++ ts))) =
          heading? (t :: (before ++ o :: ts)) :=
        (heading?_append ho (t :: before) _).trans (heading?_append ho (t :: before) _).symm
      rw [List.cons_append, List.cons_append, headingsFrom, headingsFrom, hheading, ih]
  exact hfrom 0

end

/-! ## Headings in programs -/

mutual

/-- The headings of the definitions in a syntax tree, at any depth. A list is data and has none. -/
def Node.headings : Node → List Heading
  | .binary _ left right _ => left.headings ++ right.headings
  | .call _ inputs _ => Node.headingsEach inputs
  | .definition name params body _ => ⟨name, params.length⟩ :: Node.headingsEach body
  | .conditional _ condition thenBranch elseBranch _ =>
    condition.headings ++ thenBranch.headings ++ Node.headingsOption elseBranch
  | .number _ _ | .word _ _ | .truth _ _ | .reference _ _ | .list _ _ => []

/-- The headings of the definitions in syntax trees. -/
def Node.headingsEach : List Node → List Heading
  | [] => []
  | node :: nodes => node.headings ++ Node.headingsEach nodes

/-- The headings of the definitions in a syntax tree, if there is one. -/
def Node.headingsOption : Option Node → List Heading
  | none => []
  | some node => node.headings

end

/-! ## Declaring headings -/

namespace Vocabulary

/-- Records the headings one after the other. -/
def declareAll (v : Vocabulary) (ds : List Heading) : Vocabulary :=
  ds.foldl (fun v d => v.declare d.name (.fixed d.inputs)) v

variable {v : Vocabulary} {ds ds' : List Heading} {name : String}

lemma declareAll_append : v.declareAll (ds ++ ds') = (v.declareAll ds).declareAll ds' :=
  List.foldl_append

lemma callables_declareAll : (v.declareAll ds).callables = v.callables := by
  induction ds generalizing v with
  | nil => rfl
  | cons d ds ih => exact ih.trans rfl

lemma arity?_declareAll_of_ne (h : ∀ d ∈ ds, Text.lower d.name ≠ Text.lower name) :
    (v.declareAll ds).arity? name = v.arity? name := by
  induction ds generalizing v with
  | nil => rfl
  | cons d ds ih =>
    obtain ⟨hd, hds⟩ := List.forall_mem_cons.mp h
    refine (ih hds).trans ?_
    rw [arity?_declare, if_neg hd.symm]

/-- The last heading of a name counts. -/
lemma arity?_declareAll_last {d : Heading} (hd : Text.lower d.name = Text.lower name)
    (h : ∀ d' ∈ ds', Text.lower d'.name ≠ Text.lower name) :
    (v.declareAll (ds ++ d :: ds')).arity? name = some (.fixed d.inputs) := by
  rw [declareAll_append]
  refine (arity?_declareAll_of_ne h).trans ?_
  rw [arity?_declare, if_pos hd.symm]

/-- An arity that has changed is that of a heading. -/
lemma exists_heading_of_arity?_ne (h : (v.declareAll ds).arity? name ≠ v.arity? name) :
    ∃ d ∈ ds, Text.lower d.name = Text.lower name ∧
      (v.declareAll ds).arity? name = some (.fixed d.inputs) := by
  induction ds using List.reverseRecOn with
  | nil => exact absurd rfl h
  | append_singleton ds d ih =>
    by_cases hd : Text.lower d.name = Text.lower name
    · exact ⟨d, by simp, hd, arity?_declareAll_last hd (List.forall_mem_nil _)⟩
    · have hsame : (v.declareAll (ds ++ [d])).arity? name = (v.declareAll ds).arity? name := by
        rw [declareAll_append]
        exact arity?_declareAll_of_ne (List.forall_mem_singleton.mpr hd)
      rw [hsame] at h ⊢
      obtain ⟨d', hd', hname, harity⟩ := ih h
      exact ⟨d', List.mem_append_left _ hd', hname, harity⟩

end Vocabulary

end Logo
