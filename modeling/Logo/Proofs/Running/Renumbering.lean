import Logo.Proofs.Reading.Simulation
import Logo.Proofs.Running.Comparison

/-!
# Evaluation and other line numbers

A line enters a run in one way only: it is counted when a text is read. From then on it is stored in
syntax trees and in the bodies of procedures and named in errors, but nothing is decided by it. So
if all lines are changed by a function, in the syntax tree that is evaluated, in the machine and by
the reader of the texts that are still to come, then the outcome is the same with its lines changed
by that function.

* `Run.readNumbered`: a reader that numbers lines in a way of its own.
* `Program.ofText_mapLines`: what is read does not depend on the lines of stored bodies.
* `renumbering`: the comparison of a run with the same run under other line numbers.
-/

namespace Logo

variable {α β : Type}

/-! ## Reading -/

/-- What reading leads to, with other lines. -/
def Program.mapRead (f : Nat → Nat) :
    Except ParseError Program × Vocabulary → Except ParseError Program × Vocabulary
  | (.ok p, v) => (.ok (Program.mapLines f p), v)
  | (.error e, v) => (.error (e.mapLine f), v)

lemma Program.mapRead_id (result : Except ParseError Program × Vocabulary) :
    Program.mapRead id result = result := by
  rcases result with ⟨e | p, v⟩
  · simp [Program.mapRead]
  · simp [Program.mapRead]

lemma Program.mapRead_mapRead (f g : Nat → Nat)
    (result : Except ParseError Program × Vocabulary) :
    Program.mapRead f (Program.mapRead g result) = Program.mapRead (f ∘ g) result := by
  rcases result with ⟨e | p, v⟩
  · simp only [Program.mapRead, ParseError.mapLine_mapLine]
  · simp only [Program.mapRead, Program.mapLines_mapLines]

/-- The two sides differ in the lines of stored bodies only. -/
def Likeness.stored (f : Nat → Nat) : Likeness where
  left := id
  right := id
  Knows v w := v.mapLines f = w
  Ends ts us := Grammar.isEnd ts.head? = true ∧ ts = us
  lenient := False
  left_mono := monotone_id
  right_mono := monotone_id
  arity_eq := by
    rintro v _ rfl name
    rw [Vocabulary.arity?_mapLines]
  isBuiltin_eq := by
    rintro v _ rfl name
    rw [Vocabulary.isBuiltin_mapLines]
  knows_declare := by
    rintro v _ rfl name arity
    exact v.mapLines_declare name arity
  isEnd_left h := h.1
  isEnd_right := by
    rintro ts _ ⟨hend, rfl⟩
    exact .inl ⟨hend, rfl⟩

lemma Likeness.alike_stored (f : Nat → Nat) (ts : List Placed) :
    (Likeness.stored f).Alike ts ts := by
  induction ts with
  | nil => exact .ended ⟨rfl, rfl⟩
  | cons t ts ih =>
    by_cases ht : t.token = .endOfText
    · exact .ended ⟨isEnd_cons.mpr ht, rfl⟩
    · exact .cons ht rfl rfl ih

/-- What is read does not depend on the lines of stored bodies. -/
lemma Program.ofText_mapLines (f : Nat → Nat) (text : String) (v : Vocabulary) :
    Program.ofText text (v.mapLines f) =
      ((Program.ofText text v).1, (Program.ofText text v).2.mapLines f) := by
  unfold Program.ofText
  cases tokenize text with
  | error e => rfl
  | ok tokens =>
    have hsame := sameRead_ofTokens (k := Likeness.stored f) id (Likeness.alike_stored f tokens)
      (rfl : v.mapLines f = v.mapLines f)
    dsimp only
    revert hsame
    generalize Program.ofTokens tokens v = x, Program.ofTokens tokens (v.mapLines f) = y
    intro hsame
    rcases x with ⟨e | p, v'⟩ <;> rcases y with ⟨e' | p', w'⟩
    · obtain ⟨he, rfl⟩ : e.mapLine id = e'.mapLine id ∧ v'.mapLines f = w' := hsame
      rw [ParseError.mapLine_id, ParseError.mapLine_id] at he
      rw [he]
    · exact absurd hsame id
    · exact absurd hsame id
    · obtain ⟨hp, rfl⟩ : Program.mapLines id p = Program.mapLines id p' ∧ v'.mapLines f = w' :=
        hsame
      rw [Program.mapLines_id, Program.mapLines_id] at hp
      rw [hp]

/-- The program that a text forms, with its lines numbered by `number`. -/
def Run.readNumbered (number : Nat → Nat) (text : String) : Run Program := fun _ m =>
  match Program.mapRead number (Program.ofText text m.vocabulary) with
  | (.ok program, vocabulary) => .done program { m with vocabulary := vocabulary }
  | (.error e, vocabulary) => .failed (.unreadable e) { m with vocabulary := vocabulary }

lemma Run.readNumbered_id : Run.readNumbered id = Run.readProgram := by
  funext text settings m
  unfold Run.readNumbered Run.readProgram
  rcases Program.ofText text m.vocabulary with ⟨e | p, v⟩
  · simp only [Program.mapRead_id]
  · simp only [Program.mapRead_id]

/-! ## Runs under other line numbers -/

/-- The second run is the first one under line numbers that are changed by `f`. -/
def Run.Renumbers (f : Nat → Nat) (r s : Run α) : Prop :=
  ∀ settings m, s settings (m.mapLines f) = (r settings m).mapLines f

namespace Run.Renumbers

variable {f : Nat → Nat}

lemma bind {r s : Run α} {next next' : α → Run β} (h : Renumbers f r s)
    (hnext : ∀ a, Renumbers f (next a) (next' a)) : Renumbers f (r >>= next) (s >>= next') := by
  intro settings m
  show andThen s next' settings (m.mapLines f) = (andThen r next settings m).mapLines f
  unfold andThen
  rw [h settings m]
  cases r settings m with
  | done a after => exact hnext a settings after
  | failed e after => rfl
  | exhausted => rfl

/-- A question that the lines of stored bodies have no say in. -/
lemma ask {question question' : Machine → Except RuntimeError α}
    (h : ∀ m, SameResult f id (question m) (question' (m.mapLines f))) :
    Renumbers f (Run.ask question) (Run.ask question') := by
  intro settings m
  have hsame := h m
  unfold Run.ask
  revert hsame
  generalize question m = x, question' (m.mapLines f) = y
  rintro (a | ⟨he, -⟩)
  · rfl
  · rw [RuntimeError.mapLine_id] at he
    exact congrArg (Outcome.failed · _) he.symm

lemma resolve (name : String) (l : Nat) {next next' : Callable → Run β}
    (hnext : ∀ c, Renumbers f (next c) (next' (c.mapLines f))) :
    Renumbers f (Run.ask (fun m => m.vocabulary.resolve name l) >>= next)
      (Run.ask (fun m => m.vocabulary.resolve name (f l)) >>= next') := by
  intro settings m
  have hmapped : (m.mapLines f).vocabulary.callable? name =
      (m.vocabulary.callable? name).map (Callable.mapLines f) :=
    m.vocabulary.callable?_mapLines name
  show andThen _ next' settings (m.mapLines f) = (andThen _ next settings m).mapLines f
  cases hc : m.vocabulary.callable? name with
  | none => simp only [andThen, Run.ask, Vocabulary.resolve, hmapped, hc, Option.map_none]; rfl
  | some c =>
    simp only [andThen, Run.ask, Vocabulary.resolve, hmapped, hc, Option.map_some]
    exact hnext c settings m

lemma write (text : String) (l : Nat) : Renumbers f (Run.write text l) (Run.write text (f l)) := by
  intro settings m
  unfold Run.write
  cases settings.outputLimit with
  | none => rfl
  | some limit =>
    show (if limit < (m.transcript.append text).bytes then _ else _) =
      Outcome.mapLines f (if limit < (m.transcript.append text).bytes then _ else _)
    split <;> rfl

lemma define (p : Procedure) : Renumbers f (Run.define p) (Run.define (p.mapLines f)) := by
  intro settings m
  unfold Run.define Run.change
  refine congrArg (fun v => Outcome.done () (Machine.mk v m.scopes m.depth m.transcript)) ?_
  rw [Vocabulary.mapLines_assign, Vocabulary.mapLines_declare]
  rfl

/-- The reader on the right numbers lines as the one on the left does, and then changes them. -/
lemma readNumbered (number : Nat → Nat) (text : String) {next next' : Program → Run β}
    (hnext : ∀ p, Renumbers f (next p) (next' (Program.mapLines f p))) :
    Renumbers f (Run.readNumbered number text >>= next)
      (Run.readNumbered (f ∘ number) text >>= next') := by
  intro settings m
  show andThen _ next' settings (m.mapLines f) = (andThen _ next settings m).mapLines f
  unfold andThen Run.readNumbered
  rw [show Program.ofText text (m.mapLines f).vocabulary = _ from
    Program.ofText_mapLines f text m.vocabulary, ← Program.mapRead_mapRead]
  rcases Program.ofText text m.vocabulary with ⟨e | p, v⟩
  · rfl
  · exact hnext (Program.mapLines number p) settings { m with vocabulary := v }

lemma nested {body body' : Run Flow} (h : Renumbers f body body') (l : Nat) :
    Renumbers f (Run.nested l body) (Run.nested (f l) body') := by
  intro settings m
  have hbody : body' settings { m.mapLines f with depth := (m.mapLines f).depth + 1 } =
      (body settings { m with depth := m.depth + 1 }).mapLines f :=
    h settings { m with depth := m.depth + 1 }
  unfold Run.nested
  rw [hbody, show (m.mapLines f).depth = m.depth from rfl]
  split
  · rfl
  · cases body settings _ with
    | done flow after => rfl
    | failed e after => rfl
    | exhausted => rfl

end Run.Renumbers

/-! ## The comparison -/

/-- A run is compared with the same run under line numbers that are changed by `f`. -/
def renumbering (f number : Nat → Nat) : Run.Comparison where
  left := f
  right := id
  read := Run.readNumbered number
  read' := Run.readNumbered (f ∘ number)
  Rel := Run.Renumbers f
  give _ _ _ := rfl
  fail h _ _ _ := by
    rw [RuntimeError.mapLine_id] at h
    exact congrArg (Outcome.failed · _) h.symm
  giveUp _ _ := rfl
  andThen := .bind
  settings h settings m := h settings settings rfl rfl settings m
  resolve name := by
    rintro l _ rfl h
    exact .resolve name l fun c => h c _ (c.mapLines f).mapLines_id.symm
  leave name flow := by
    rintro l _ rfl
    refine .ask fun m => ?_
    show SameResult f id (if m.inProcedure then _ else _) (if m.inProcedure then _ else _)
    split
    · exact .ok flow
    · exact .error rfl rfl
  readVariable frame name := by
    rintro l _ rfl
    refine .ask fun m => ?_
    show SameResult f id (m.scopes.get frame name l) (m.scopes.get frame name (f l))
    unfold Scopes.get
    cases m.scopes.lookup frame name with
    | some v => exact .ok v
    | none => exact .error rfl rfl
  setVariable _ _ _ _ _ := rfl
  write text := by
    rintro l _ rfl
    exact .write text l
  define h := by
    rw [Procedure.mapLines_id] at h
    subst h
    exact .define _
  reading text h := .readNumbered number text fun p => h p _ (Program.mapLines_id _).symm
  openFrame _ _ _ _ := rfl
  nested := by
    rintro l _ body body' rfl h
    exact .nested h l

end Logo
