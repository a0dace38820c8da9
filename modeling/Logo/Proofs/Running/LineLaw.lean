import Logo.Proofs.Reading.Simulation
import Logo.Proofs.Running.Law

/-!
# Lines have no say in what a program does

Lines stand in syntax trees, in the stored bodies of procedures and in errors. Evaluation passes
them on and names them in errors, but never decides anything by them. So two runs of the same
program, or of programs that differ in lines only, on machines that differ only in the lines of
stored bodies, lead to the same flow, the same variables, the same writing and the same errors, up
to lines again.

* `lineLaw`: the law of evaluation that says this.
* `agrees_runTokens`: tokens that are alike do the same when they are run.
-/

namespace Logo

variable {α β : Type}

/-- The machines differ at most in the lines of the bodies of procedures. -/
def Machine.Agrees (m m' : Machine) : Prop := m.mapLines noLine = m'.mapLines noLine

/-- The outcomes differ at most in lines and in values as `Same` allows. -/
inductive Outcome.Agrees (Same : α → α → Prop) : Outcome α → Outcome α → Prop
  | done {a b : α} {m m' : Machine} : Same a b → m.Agrees m' → Agrees Same (.done a m) (.done b m')
  | failed {e e' : RuntimeError} {m m' : Machine} : e.mapLine noLine = e'.mapLine noLine →
      m.Agrees m' → Agrees Same (.failed e m) (.failed e' m')
  | exhausted : Agrees Same .exhausted .exhausted

/-- The runs do the same on machines that agree, up to lines. -/
def Run.Agrees (Same : α → α → Prop) (r s : Run α) : Prop :=
  ∀ settings m m', m.Agrees m' → (r settings m).Agrees Same (s settings m')

/-- Outcomes with the same value agree if they are equal without their lines. -/
lemma Outcome.agrees_iff {o o' : Outcome α} :
    o.Agrees Eq o' ↔ o.mapLines noLine = o'.mapLines noLine := by
  constructor
  · rintro (⟨rfl, hm⟩ | ⟨he, hm⟩ | _)
    · exact congrArg (Outcome.done _) hm
    · exact congrArg₂ Outcome.failed he hm
    · rfl
  · intro h
    cases o <;> cases o' <;> simp only [Outcome.mapLines, Outcome.done.injEq, Outcome.failed.injEq,
      reduceCtorEq] at h
    · exact .done h.1 h.2
    · exact .failed h.1 h.2
    · exact .exhausted

/-! ## Machines that agree -/

/-- Machines that agree differ in their vocabularies only. -/
lemma Machine.Agrees.exists_vocabulary {m m' : Machine} (h : m.Agrees m') :
    ∃ w, m' = { m with vocabulary := w } ∧ m.vocabulary.mapLines noLine = w.mapLines noLine := by
  obtain ⟨v, scopes, depth, transcript⟩ := m
  obtain ⟨w, scopes', depth', transcript'⟩ := m'
  obtain ⟨hv, rfl, rfl, rfl⟩ := Machine.mk.inj h
  exact ⟨w, rfl, hv⟩

lemma Machine.agrees_vocabulary (m : Machine) {v w : Vocabulary}
    (h : v.mapLines noLine = w.mapLines noLine) :
    Machine.Agrees { m with vocabulary := v } { m with vocabulary := w } :=
  congrArg (Machine.mk · m.scopes m.depth m.transcript) h

namespace Run

variable {Same : α → α → Prop} {Same' : β → β → Prop}

lemma Agrees.bind {r s : Run α} {next next' : α → Run β} (h : Agrees Same r s)
    (hnext : ∀ a b, Same a b → Agrees Same' (next a) (next' b)) :
    Agrees Same' (r >>= next) (s >>= next') := by
  intro settings m m' hm
  have hfirst := h settings m m' hm
  show (andThen r next settings m).Agrees Same' (andThen s next' settings m')
  unfold andThen
  revert hfirst
  generalize r settings m = o, s settings m' = o'
  rintro (⟨hab, hm⟩ | ⟨he, hm⟩ | _)
  · exact hnext _ _ hab settings _ _ hm
  · exact .failed he hm
  · exact .exhausted

/-- A question to the machine. -/
lemma agrees_ask {question question' : Machine → Except RuntimeError α}
    (h : ∀ m m', m.Agrees m' → SameResult noLine noLine (question m) (question' m')) :
    Agrees Eq (ask question) (ask question') := by
  intro settings m m' hm
  have hsame := h m m' hm
  unfold ask
  revert hsame
  generalize question m = x, question' m' = y
  rintro (a | ⟨he, -⟩)
  · exact .done rfl hm
  · exact .failed he hm

lemma agrees_resolve (name : String) (l l' : Nat) :
    Agrees (fun c c' => c.mapLines noLine = c'.mapLines noLine)
      (ask fun m => m.vocabulary.resolve name l) (ask fun m => m.vocabulary.resolve name l') := by
  intro settings m m' hm
  obtain ⟨w, rfl, hw⟩ := hm.exists_vocabulary
  have hcallable := congrArg (Vocabulary.callable? · name) hw
  simp only [Vocabulary.callable?_mapLines] at hcallable
  unfold ask Vocabulary.resolve
  dsimp only
  cases hc : m.vocabulary.callable? name with
  | none =>
    obtain hc' : w.callable? name = none := by simpa [hc] using hcallable.symm
    rw [hc']
    exact .failed rfl hm
  | some c =>
    rw [hc] at hcallable
    obtain ⟨c', hc', heq⟩ := Option.map_eq_some_iff.mp hcallable.symm
    rw [hc']
    exact .done heq.symm hm

/-- A change that overlooks lines. -/
lemma agrees_change {change change' : Machine → Machine}
    (h : ∀ m m', m.Agrees m' → (change m).Agrees (change' m')) :
    Agrees Eq (Run.change change) (Run.change change') :=
  fun _ m m' hm => .done rfl (h m m' hm)

lemma agrees_write (text : String) (l l' : Nat) : Agrees Eq (write text l) (write text l') := by
  intro settings m m' hm
  obtain ⟨w, rfl, hw⟩ := hm.exists_vocabulary
  have hafter : ∀ transcript : Transcript, Machine.Agrees { m with transcript := transcript }
      ⟨w, m.scopes, m.depth, transcript⟩ := fun transcript =>
    congrArg (Machine.mk · m.scopes m.depth transcript) hw
  unfold write
  cases settings.outputLimit with
  | none => exact .done rfl (hafter _)
  | some limit =>
    dsimp only
    split
    · exact .failed rfl hm
    · exact .done rfl (hafter _)

lemma agrees_define {p p' : Procedure} (h : p.mapLines noLine = p'.mapLines noLine) :
    Agrees Eq (define p) (define p') := by
  refine agrees_change fun m m' hm => ?_
  obtain ⟨w, rfl, hw⟩ := hm.exists_vocabulary
  obtain ⟨name, params, body, frame⟩ := p
  obtain ⟨name', params', body', frame'⟩ := p'
  obtain ⟨rfl, rfl, -, rfl⟩ := Procedure.mk.inj h
  refine m.agrees_vocabulary ?_
  rw [Vocabulary.mapLines_assign, Vocabulary.mapLines_assign, Vocabulary.mapLines_declare,
    Vocabulary.mapLines_declare, hw]
  exact congrArg (fun p => Vocabulary.assign _ name (.procedure p)) h

lemma agrees_nested {body body' : Run Flow} (h : Agrees Eq body body') (l l' : Nat) :
    Agrees Eq (nested l body) (nested l' body') := by
  intro settings m m' hm
  obtain ⟨w, rfl, hw⟩ := hm.exists_vocabulary
  -- opening or closing a call leaves the vocabulary alone
  have hcount : ∀ {m m' : Machine} (count : Nat → Nat), m.Agrees m' →
      Machine.Agrees { m with depth := count m.depth } { m' with depth := count m'.depth } := by
    intro m m' count hm
    obtain ⟨w, rfl, hw⟩ := hm.exists_vocabulary
    exact congrArg (Machine.mk · m.scopes (count m.depth) m.transcript) hw
  have hbody := h settings _ _ (hcount (· + 1) hm)
  unfold nested
  dsimp only at hbody ⊢
  split
  · exact .failed rfl hm
  · revert hbody
    generalize body settings _ = o, body' settings _ = o'
    rintro (⟨rfl, hafter⟩ | ⟨he, hafter⟩ | _)
    · exact .done rfl (hcount (· - 1) hafter)
    · exact .failed he (hcount (· - 1) hafter)
    · exact .exhausted

/-! ## Reading -/

/-- The program that tokens form. -/
def readTokens (tokens : List Placed) : Run Program := fun _ m =>
  match Program.ofTokens tokens m.vocabulary with
  | (.ok program, vocabulary) => .done program { m with vocabulary := vocabulary }
  | (.error e, vocabulary) => .failed (.unreadable e) { m with vocabulary := vocabulary }

lemma readProgram_of_tokenize {text : String} {tokens : List Placed}
    (h : tokenize text = .ok tokens) : readProgram text = readTokens tokens := by
  funext settings m
  rcases hread : Program.ofTokens tokens m.vocabulary with ⟨_ | _, _⟩ <;>
    simp only [readProgram, readTokens, Program.ofText, h, hread]

lemma readProgram_of_error {text : String} {e : LexError} (h : tokenize text = .error e) :
    readProgram text = fail (.unreadable (.lexical e)) := by
  funext settings m
  simp only [readProgram, Program.ofText, h]
  rfl

lemma mapLine_noLine (e : ParseError) (f : Nat → Nat) :
    (e.mapLine f).mapLine noLine = e.mapLine noLine := by
  cases e <;> rfl

/-- Alike tokens form the same program on machines that agree. -/
lemma agrees_readTokens {f g : Nat → Nat} {hf : Monotone f} {hg : Monotone g} {ts us : List Placed}
    (h : (Likeness.lines f g noLine hf hg).Alike ts us) :
    Agrees (Likeness.lines f g noLine hf hg).SameNodes (readTokens ts) (readTokens us) := by
  intro settings m m' hm
  obtain ⟨w, rfl, hw⟩ := hm.exists_vocabulary
  have hsame := sameRead_ofTokens (k := Likeness.lines f g noLine hf hg) id h hw
  unfold readTokens
  dsimp only
  revert hsame
  generalize Program.ofTokens ts m.vocabulary = x, Program.ofTokens us w = y
  intro hsame
  rcases x with ⟨e | p, v⟩ <;> rcases y with ⟨e' | p', v'⟩
  · refine .failed (congrArg RuntimeError.unreadable ?_) (m.agrees_vocabulary hsame.2)
    rw [← mapLine_noLine e f, ← mapLine_noLine e' g]
    exact congrArg (ParseError.mapLine noLine) hsame.1
  · exact absurd hsame id
  · exact absurd hsame id
  · exact .done hsame.1 (m.agrees_vocabulary hsame.2)

lemma agrees_readProgram (text : String) : Agrees Eq (readProgram text) (readProgram text) := by
  cases htext : tokenize text with
  | error e =>
    rw [readProgram_of_error htext]
    exact fun _ _ _ hm => .failed rfl hm
  | ok tokens =>
    rw [readProgram_of_tokenize htext]
    intro settings m m' hm
    have hread := agrees_readTokens (alike_refl noLine tokens) settings m m' hm
    revert hread
    generalize readTokens tokens settings m = o, readTokens tokens settings m' = o'
    rintro (⟨hp, hm⟩ | ⟨he, hm⟩ | _)
    · refine .done ?_ hm
      simpa only [Likeness.SameNodes, Likeness.lines, Program.mapLines_id] using hp
    · exact .failed he hm
    · exact .exhausted

end Run

/-! ## The law -/

open Run in
/-- Runs do the same on machines that agree, up to lines. -/
def lineLaw : Run.Law where
  lines := noLine
  Rel := Run.Agrees Eq
  give a _ _ _ hm := .done rfl hm
  fail h _ _ _ _ hm := .failed h hm
  giveUp _ _ _ _ := .exhausted
  andThen h hnext := h.bind (by rintro a _ rfl; exact hnext a)
  settings h settings m m' hm := h settings settings rfl rfl settings m m' hm
  resolve {_ _ _} name {l l'} _ h := (agrees_resolve name l l').bind h
  leave name flow {l l'} _ := agrees_ask fun m m' hm => by
    obtain ⟨w, rfl, -⟩ := hm.exists_vocabulary
    unfold Machine.inProcedure
    split
    · exact .ok flow
    · exact .error rfl rfl
  readVariable frame name {l l'} _ := agrees_ask fun m m' hm => by
    obtain ⟨w, rfl, -⟩ := hm.exists_vocabulary
    unfold Scopes.get
    cases m.scopes.lookup frame name with
    | some v => exact .ok v
    | none => exact .error rfl rfl
  setVariable frame name v := agrees_change fun m m' hm => by
    obtain ⟨w, rfl, hw⟩ := hm.exists_vocabulary
    exact congrArg (Machine.mk · _ m.depth m.transcript) hw
  write text {l l'} _ := agrees_write text l l'
  define h := agrees_define h
  readProgram := agrees_readProgram
  openFrame parent bindings settings m m' hm := by
    obtain ⟨w, rfl, hw⟩ := hm.exists_vocabulary
    exact .done rfl (congrArg (Machine.mk · _ m.depth m.transcript) hw)
  nested {l l' body body'} _ h := agrees_nested h l l'

/-- Runs tokens. -/
def Evaluator.runTokens (self : Evaluator) (tokens : List Placed) (frame : FrameId)
    (keepLast : Bool) : Run Flow := do
  let program ← Run.readTokens tokens
  self.execute frame keepLast program

/-- A value is run as the tokens of its text. -/
lemma Evaluator.runValue_of_tokenize (self : Evaluator) {v : Value} {tokens : List Placed}
    (h : tokenize v.printForm = .ok tokens) (frame : FrameId) (keepLast : Bool) :
    self.runValue v frame keepLast = self.runTokens tokens frame keepLast := by
  rw [runValue, runText, Run.readProgram_of_tokenize h]
  rfl

/-- **Alike tokens do the same** when they are run, on machines that agree. -/
theorem agrees_runTokens {ts us : List Placed} {hf hg : Monotone noLine}
    (h : (Likeness.lines noLine noLine noLine hf hg).Alike ts us) (bound : Nat) (frame : FrameId)
    (keepLast : Bool) :
    lineLaw.Rel ((eval bound).runTokens ts frame keepLast)
      ((eval bound).runTokens us frame keepLast) :=
  (Run.agrees_readTokens h).bind fun _ _ hp =>
    Run.Law.execute (lineLaw.eval bound) frame keepLast hp

end Logo
