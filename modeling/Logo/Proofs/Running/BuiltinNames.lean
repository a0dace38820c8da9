import Logo.Proofs.Running.Contract
import Logo.Proofs.Text.SmallLetters

/-!
# The names of the language

Keywords and the names of built-in procedures belong to the language: no program can change what they
mean. Definitions reach the vocabulary in two places. The reader declares a name after it has found
it to be free; evaluation declares it once more and makes it stand for a procedure, without looking.
The second place is safe because whatever is evaluated has been read: the definitions in all syntax
trees, those stored in procedures included, are of free names. That is the contract of this file.

* `Vocabulary.Intact`: what a program cannot change.
* `Vocabulary.Standing`: the contract, which also speaks of the stored procedures.
* `builtin_names_stay`: sessions that are told what to run keep the vocabulary intact, at every
  moment, and no name that is known is ever lost.
-/

namespace Logo

namespace Vocabulary

/-! ## What belongs to the language -/

/-- The names that belong to the language, in small letters. -/
def reserved : List String := Grammar.keywords ++ builtins.map Prod.fst

/-- The name may be defined by a program. -/
def IsFree (name : String) : Prop := Text.lower name ∉ reserved

/-- The name stands for the built-in procedure and takes as many inputs as the table says. -/
def Offers (v : Vocabulary) (name : String) (b : Builtin) : Prop :=
  v.callable? name = some (.builtin b) ∧ v.arity? name = some (.fixed b.arity)

/-- What a program cannot change about names, in whatever case of their letters. -/
structure Intact (v : Vocabulary) : Prop where
  /-- The names of the table stand for their entries. -/
  table : ∀ b ∈ Builtin.table, ∀ name, Text.lower name = Text.lower b.name → v.Offers name b
  /-- The other names of built-in procedures stand for the entries of their targets. -/
  again : ∀ pair ∈ Builtin.aliases, ∃ b ∈ Builtin.table, b.name = pair.2 ∧
    ∀ name, Text.lower name = Text.lower pair.1 → v.Offers name b
  /-- The words for conditionals have a rule of their own and stand for nothing. -/
  conditional : ∀ (form : ConditionalForm) name, Text.lower name = Text.lower form.keyword →
    v.arity? name = some .special ∧ v.callable? name = none
  /-- The other keywords are not known as names. -/
  keyword : ∀ word ∈ ["to", "end", "true", "false"], ∀ name, Text.lower name = Text.lower word →
    v.arity? name = none ∧ v.callable? name = none
  /-- What stands for something takes a certain number of inputs. -/
  fixed : ∀ name callable, v.callable? name = some callable → ∃ n, v.arity? name = some (.fixed n)

/-- All names that are known in `v` are known in `w`. -/
structure Extends (w v : Vocabulary) : Prop where
  arity : ∀ name, (v.arity? name).isSome → (w.arity? name).isSome
  callable : ∀ name, (v.callable? name).isSome → (w.callable? name).isSome

/-! ## The vocabulary at the start -/

lemma callable?_standard (name : String) :
    standard.callable? name = (builtins.lookup (Text.lower name)).map .builtin :=
  Dictionary.find?_map Callable.builtin ⟨builtins⟩ _

lemma arity?_standard (name : String) :
    standard.arity? name = ((builtins.lookup (Text.lower name)).map (.fixed ·.arity)).or
      ((Builtin.specialForms.map (·, .special)).lookup (Text.lower name)) := by
  have hfixed := Dictionary.find?_map (fun b => Arity.fixed b.arity) ⟨builtins⟩ (Text.lower name)
  exact List.lookup_append.trans (congrArg (Option.or · _) hfixed)

/-- No name is in the table twice. -/
lemma lookup_builtins : ∀ entry ∈ builtins, builtins.lookup entry.1 = some entry.2 := by
  decide +kernel

/-- No keyword is in the table. -/
lemma lookup_keywords : ∀ word ∈ Grammar.keywords, builtins.lookup word = none := by
  decide +kernel

lemma lower_builtins : ∀ entry ∈ builtins, Text.lower entry.1 = entry.1 := by
  decide +kernel

lemma lower_keywords : ∀ word ∈ Grammar.keywords, Text.lower word = word := by
  decide +kernel

lemma mem_builtins_of_alias :
    ∀ pair ∈ Builtin.aliases, ∃ b ∈ Builtin.table, b.name = pair.2 ∧ (pair.1, b) ∈ builtins := by
  decide +kernel

lemma mem_builtins_of_table {b : Builtin} (h : b ∈ Builtin.table) : (b.name, b) ∈ builtins :=
  List.mem_append_left _ (List.mem_map_of_mem h)

/-! ## The contract -/

/-- The names of the language are as they were at the start, and the bodies of procedures define free
names only. -/
structure Standing (v : Vocabulary) : Prop where
  callable : ∀ name, ¬ IsFree name → v.callable? name = standard.callable? name
  arity : ∀ name, ¬ IsFree name → v.arity? name = standard.arity? name
  fixed : ∀ name callable, v.callable? name = some callable → ∃ n, v.arity? name = some (.fixed n)
  bodies : ∀ name p, v.callable? name = some (.procedure p) →
    ∀ node ∈ p.body, node.DefinesOnly IsFree

lemma not_isFree_of_builtin {entry : String × Builtin} (h : entry ∈ builtins) {name : String}
    (hname : Text.lower name = Text.lower entry.1) : ¬ IsFree name := by
  rw [IsFree, not_not, hname, lower_builtins entry h]
  exact List.mem_append_right _ (List.mem_map_of_mem h)

lemma not_isFree_of_keyword {word : String} (h : word ∈ Grammar.keywords) {name : String}
    (hname : Text.lower name = Text.lower word) : ¬ IsFree name := by
  rw [IsFree, not_not, hname, lower_keywords word h]
  exact List.mem_append_left _ h

namespace Standing

variable {v : Vocabulary}

lemma offers (hv : v.Standing) {entry : String × Builtin} (h : entry ∈ builtins) {name : String}
    (hname : Text.lower name = Text.lower entry.1) : v.Offers name entry.2 := by
  have hreserved := not_isFree_of_builtin h hname
  have hlookup : builtins.lookup (Text.lower name) = some entry.2 := by
    rw [hname, lower_builtins entry h, lookup_builtins entry h]
  constructor
  · rw [hv.callable name hreserved, callable?_standard, hlookup]
    rfl
  · rw [hv.arity name hreserved, arity?_standard, hlookup]
    rfl

/-- A keyword stands for nothing, and only the words for conditionals have a rule of their own. -/
lemma keyword (hv : v.Standing) {word : String} (h : word ∈ Grammar.keywords) {name : String}
    (hname : Text.lower name = Text.lower word) : v.callable? name = none ∧
      v.arity? name = (Builtin.specialForms.map (·, .special)).lookup word := by
  have hreserved := not_isFree_of_keyword h hname
  have hlower : Text.lower name = word := by rw [hname, lower_keywords word h]
  rw [hv.callable name hreserved, hv.arity name hreserved, callable?_standard, arity?_standard,
    hlower, lookup_keywords word h]
  exact ⟨rfl, rfl⟩

lemma intact (hv : v.Standing) : v.Intact where
  table b hb name hname := hv.offers (mem_builtins_of_table hb) hname
  again pair hpair := by
    obtain ⟨b, hb, htarget, hmem⟩ := mem_builtins_of_alias pair hpair
    exact ⟨b, hb, htarget, fun name hname => hv.offers hmem hname⟩
  conditional form name hname := by
    have hform : form.keyword ∈ Grammar.keywords := by cases form <;> decide
    obtain ⟨hcallable, harity⟩ := hv.keyword hform hname
    refine ⟨?_, hcallable⟩
    rw [harity]
    cases form <;> decide
  keyword word hword name hname := by
    have hplain : ∀ word ∈ ["to", "end", "true", "false"], word ∈ Grammar.keywords ∧
        (Builtin.specialForms.map (·, Arity.special)).lookup word = none := by decide
    obtain ⟨hcallable, harity⟩ := hv.keyword (hplain word hword).1 hname
    exact ⟨harity.trans (hplain word hword).2, hcallable⟩
  fixed := hv.fixed

lemma standard : standard.Standing where
  callable _ _ := rfl
  arity _ _ := rfl
  fixed name callable h := by
    rw [callable?_standard] at h
    obtain ⟨b, hb, -⟩ := Option.map_eq_some_iff.1 h
    exact ⟨b.arity, by rw [arity?_standard, hb]; rfl⟩
  bodies name p h := by
    rw [callable?_standard] at h
    obtain ⟨b, -, hb⟩ := Option.map_eq_some_iff.1 h
    cases hb

/-- A name that the reader lets a program define is free. -/
lemma isFree (hv : v.Standing) {word : String}
    (hkeyword : Grammar.isKeyword (Text.lower word) = false)
    (hbuiltin : v.isBuiltin (Text.lower word) = false) : IsFree (Text.lower word) := by
  intro hmem
  rw [Text.lower_lower] at hmem
  rcases List.mem_append.1 hmem with hmem | hmem
  · have hany : Grammar.isKeyword (Text.lower word) = true :=
      List.any_eq_true.2 ⟨_, hmem, by simp [Text.sameLetters]⟩
    rw [hany] at hkeyword
    cases hkeyword
  · obtain ⟨entry, hentry, hname⟩ := List.mem_map.1 hmem
    have hcallable := (hv.offers hentry (congrArg Text.lower hname.symm)).1
    simp [Vocabulary.isBuiltin, hcallable] at hbuiltin

/-- A name that is free is none of those that belong to the language. -/
lemma lower_ne {name other : String} (hname : IsFree name) (hother : ¬ IsFree other) :
    Text.lower other ≠ Text.lower name := by
  intro heq
  rw [IsFree, heq] at hother
  exact hother hname

lemma declare (hv : v.Standing) {name : String} (hname : IsFree name) (count : Nat) :
    (v.declare name (.fixed count)).Standing where
  callable other hother := hv.callable other hother
  arity other hother := by
    rw [arity?_declare, if_neg (lower_ne hname hother), hv.arity other hother]
  fixed other callable h := by
    rw [arity?_declare]
    split
    · exact ⟨count, rfl⟩
    · exact hv.fixed other callable h
  bodies := hv.bodies

lemma define (hv : v.Standing) {p : Procedure} (hname : IsFree p.name)
    (hbody : ∀ node ∈ p.body, node.DefinesOnly IsFree) : (v.define p).Standing where
  callable other hother := by
    rw [callable?_define, if_neg (lower_ne hname hother), hv.callable other hother]
  arity other hother := by
    rw [arity?_define, if_neg (lower_ne hname hother), hv.arity other hother]
  fixed other callable h := by
    rw [callable?_define] at h
    rw [arity?_define]
    split
    · exact ⟨_, rfl⟩
    · next hne =>
      rw [if_neg hne] at h
      exact hv.fixed other callable h
  bodies other q h := by
    rw [callable?_define] at h
    split at h
    · cases h
      exact hbody
    · exact hv.bodies other q h

end Standing

/-! ## Names are not lost -/

namespace Extends

variable {v w : Vocabulary}

lemma refl (v : Vocabulary) : v.Extends v := ⟨fun _ h => h, fun _ h => h⟩

lemma declare (h : w.Extends v) (name : String) (arity : Arity) :
    (w.declare name arity).Extends v where
  arity other hother := by
    rw [arity?_declare]
    split
    · rfl
    · exact h.arity other hother
  callable other hother := h.callable other hother

lemma assign (h : w.Extends v) (name : String) (callable : Callable) :
    (w.assign name callable).Extends v where
  arity other hother := h.arity other hother
  callable other hother := by
    rw [callable?_assign]
    split
    · rfl
    · exact h.callable other hother

end Extends

/-- Reading keeps the names of the language. -/
def standingReading : Reader.Contract where
  Inv := Standing
  Free := IsFree
  free hv hkeyword hbuiltin := hv.isFree hkeyword hbuiltin
  declare count hv hname := hv.declare hname count

/-- Reading loses no names. -/
def extendsReading (v : Vocabulary) : Reader.Contract where
  Inv w := w.Extends v
  Free _ := True
  free _ _ _ := trivial
  declare _ hw _ := hw.declare _ _

/-- Evaluation keeps the names of the language, on programs that define free names. -/
def standingContract : Run.Contract :=
  .ofVocabulary Standing (Node.DefinesOnly IsFree) Run.readProgram False
    (fun hnode hpart => hnode.part hpart) (fun hv hname => hv.bodies _ _ hname)
    (fun _ hfit hv => hv.define (hfit.defined rfl) fun _ hnode => hfit.part hnode)
    (standingReading.keeps_readProgram False)

/-- Evaluation loses no names. -/
def extendsContract (v : Vocabulary) : Run.Contract :=
  .ofVocabulary (Extends · v) (fun _ => True) Run.readProgram False
    (fun _ _ => trivial) (fun _ _ _ _ => trivial)
    (fun _ _ hw => (hw.declare _ _).assign _ _)
    (fun text => ((extendsReading v).keeps_readProgram False text).mono fun _ _ _ _ _ => trivial)

lemma standingContract_strict : standingContract.Strict := ⟨rfl, id⟩

lemma extendsContract_strict (v : Vocabulary) : (extendsContract v).Strict := ⟨rfl, id⟩

end Vocabulary

open Vocabulary

lemma Session.Told.standing {m : Machine} (h : Session.Told m) : m.vocabulary.Standing :=
  h.inv standingContract_strict (fun hm => hm) Standing.standard

/-- **No program changes what the names of the language mean.**
* In a session that is told what to run, the vocabulary is intact after each text, whether it has
  succeeded or failed.
* It is intact in between, too: it does not matter what evaluation would do if it were not, at the
  start or at the end of the evaluation of any node.
* Whatever is evaluated, on any machine, no name that had an arity or stood for something loses it.
* The same holds for whatever a session is told. -/
theorem builtin_names_stay :
    (∀ m, Session.Told m → m.vocabulary.Intact) ∧
    (∀ m, Session.Told m → ∀ (input : Session.Input) bound settings beyond,
      input.performBy Run.readProgram
          (evalBy Run.readProgram (Run.guarded (fun m => m.vocabulary.Intact) beyond) bound)
          settings m =
        input.step.perform bound settings m) ∧
    (∀ (entry : Entry) bound settings (m after : Machine),
      (entry.run (eval bound) settings m).after? = some after →
      after.vocabulary.Extends m.vocabulary) ∧
    (∀ (input : Session.Input) bound settings (m after : Machine),
      (input.step.perform bound settings m).after? = some after →
      after.vocabulary.Extends m.vocabulary) := by
  refine ⟨fun m h => h.standing.intact, ?_, ?_, ?_⟩
  · intro m h input bound settings beyond
    exact standingContract_strict.input_guarded input h.standing bound
      (fun _ _ hm => Standing.intact hm) beyond
  · intro entry bound settings m after hafter
    exact (extendsContract_strict m.vocabulary).entry entry (Extends.refl m.vocabulary)
      (fun _ _ => trivial) bound hafter
  · intro input bound settings m after hafter
    exact (extendsContract_strict m.vocabulary).input input (Extends.refl m.vocabulary) bound hafter

/-- A text that defines `print` fails, and `print` is what it was. -/
theorem builtin_names_stay_print :
    let told := (Session.Input.run "to print :x\nend").step.perform 9 .standard .initial
    told.gives (fun _ => true) = false ∧ ∃ m, told.after? = some m ∧
      m.vocabulary.Offers "PRINT" ⟨"print", 1, 0, .command .print⟩ ∧
      m.vocabulary.Extends Vocabulary.standard ∧
      ∀ beyond, (Session.Input.run "print 1").performBy Run.readProgram
          (evalBy Run.readProgram (Run.guarded (fun m => m.vocabulary.Intact) beyond) 9)
          .standard m =
        (Session.Input.run "print 1").step.perform 9 .standard m := by
  intro told
  have hend : told.gives (fun _ => true) = false ∧ told.after?.isSome := by decide +kernel
  obtain ⟨m, hafter⟩ := Option.isSome_iff_exists.1 hend.2
  have hm : Session.Told m := .next _ 9 .standard .initial hafter
  refine ⟨hend.1, m, hafter, ?_, ?_, fun beyond => ?_⟩
  · exact (builtin_names_stay.1 m hm).table _ (by decide +kernel) "PRINT" (by decide +kernel)
  · exact builtin_names_stay.2.2.2 _ 9 .standard .initial m hafter
  · exact builtin_names_stay.2.1 m hm _ 9 .standard beyond

end Logo
