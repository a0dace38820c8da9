import Logo.Proofs.Reading.Joining
import Logo.Proofs.Running.Bounds
import Logo.Proofs.Running.LineLaw
import Logo.Proofs.Running.Renumbering
import Logo.Proofs.Running.Signals

/-!
# The lines of errors

The line of an error was counted in one of two places: in the source that a session is given, or in
a text that was read while that source ran, which is the text of a list or the content of a file.
Such a text has lines of its own, and counting starts again with it. So if the source is moved down
by some lines, the errors that belong to it move with it, and the others stay where they are.

To tell the two apart, let the source have even line numbers and the texts that are read later odd
ones. Nothing is decided by line numbers, so this one run gives the outcome for all ways of
counting, by a change of line numbers only: the source may be moved down by any number of lines, and
the counting of the other texts may start anywhere.

* `Program.ofText_lineEnds`: what a text forms that is moved down.
* `Session.runCounting`: a run that starts to count the lines of other texts anywhere.
* `error_moves_with_origin`: where an error is reported.
-/

namespace Logo

open Likeness

variable {ts : List Placed} {v : Vocabulary}

/-! ## Texts that are moved down -/

/-- Some line ends. -/
def lineEnds (k : Nat) : String := String.ofList (List.replicate k '\n')

lemma lineEnds_zero (source : String) : lineEnds 0 ++ source = source := by
  rw [← String.toList_inj]
  simp [lineEnds]

lemma lineEnds_succ (k : Nat) (source : String) :
    lineEnds (k + 1) ++ source = "\n" ++ (lineEnds k ++ source) := by
  rw [← String.toList_inj]
  simp [lineEnds, List.replicate_succ]

lemma tokenize_newline (source : String) : tokenize ("\n" ++ source) =
    (Scanned.down 1 (tokenize source)).map (Position.start.place .newline :: ·) := by
  rw [tokenize, String.toList_append]
  exact scan_append_newline (.stop []) source.toList

/-- A line end at the start of a text has no part in what it forms. -/
lemma Program.ofTokens_lineEnd {lineEnd : Placed} (h : lineEnd.token = .newline) :
    Program.ofTokens (lineEnd :: ts) v = Program.ofTokens ts v := by
  have henough := sequence_ne_exhausted (Nat.le_refl (Program.bound (lineEnd :: ts))) .text v
  rw [Program.ofTokens_eq henough, sequence_lineEnd h]
  rw [sequence_lineEnd h] at henough
  exact (Program.ofTokens_eq henough).symm

lemma Program.ofTokens_down (n : Nat) (hts : ∃ t ∈ ts, t.token = .endOfText) :
    Program.ofTokens (ts.map (Placed.mapLine (· + n))) v =
      Program.mapRead (· + n) (Program.ofTokens ts v) := by
  have hsame := sameRead_ofTokens (k := Likeness.down n) id (alike_down n hts)
    (rfl : v.mapLines id = v.mapLines id)
  generalize Program.ofTokens (ts.map _) v = moved at hsame ⊢
  generalize Program.ofTokens ts v = plain at hsame ⊢
  rcases plain with ⟨e | p, w⟩ <;> rcases moved with ⟨e' | p', w'⟩
  · obtain ⟨he, hw⟩ : e.mapLine (· + n) = e'.mapLine id ∧ w.mapLines id = w'.mapLines id := hsame
    rw [ParseError.mapLine_id] at he
    rw [Vocabulary.mapLines_id, Vocabulary.mapLines_id] at hw
    rw [Program.mapRead, he, hw]
  · exact absurd hsame id
  · exact absurd hsame id
  · obtain ⟨hp, hw⟩ : Program.mapLines (· + n) p = Program.mapLines id p' ∧
        w.mapLines id = w'.mapLines id := hsame
    rw [Program.mapLines_id] at hp
    rw [Vocabulary.mapLines_id, Vocabulary.mapLines_id] at hw
    rw [Program.mapRead, hp, hw]

lemma Program.ofText_newline (source : String) (v : Vocabulary) :
    Program.ofText ("\n" ++ source) v = Program.mapRead (· + 1) (Program.ofText source v) := by
  unfold Program.ofText
  rw [tokenize_newline]
  cases htokens : tokenize source with
  | error e => rfl
  | ok tokens =>
    obtain ⟨body, mark, rfl, hmark, -⟩ := tokenize_lexical htokens
    show Program.ofTokens (Position.start.place .newline :: List.map _ _) v = _
    rw [Program.ofTokens_lineEnd rfl]
    exact Program.ofTokens_down 1 ⟨mark, by simp, hmark⟩

/-- A text that is moved down forms the same program, with its lines counted on. -/
lemma Program.ofText_lineEnds (k : Nat) (source : String) (v : Vocabulary) :
    Program.ofText (lineEnds k ++ source) v =
      Program.mapRead (· + k) (Program.ofText source v) := by
  induction k with
  | zero =>
    rw [lineEnds_zero]
    exact (Program.mapRead_id _).symm
  | succ k ih =>
    rw [lineEnds_succ, Program.ofText_newline, ih, Program.mapRead_mapRead]
    rfl

lemma Run.readProgram_lineEnds (k : Nat) (source : String) :
    Run.readProgram (lineEnds k ++ source) = Run.readNumbered (· + k) source := by
  funext settings m
  unfold Run.readProgram Run.readNumbered
  rcases hread : Program.ofText source m.vocabulary with ⟨e | p, v⟩
  · simp only [Program.ofText_lineEnds, hread, Program.mapRead]
  · simp only [Program.ofText_lineEnds, hread, Program.mapRead]

/-! ## Where a line was counted -/

/-- Where a line was counted. -/
inductive Origin where
  /-- In the source that the session was given. -/
  | source
  /-- In a text that was read while the source ran. -/
  | text
deriving DecidableEq

namespace Origin

/-- How far a line is moved if the source is moved by `k` and the other texts by `j`. -/
def offset (k j : Nat) : Origin → Nat
  | source => k
  | text => j

/-- A number that tells a line and its origin. -/
def number : Origin → Nat → Nat
  | source, l => 2 * l
  | text, l => 2 * l + 1

/-- The origin that a number tells. -/
def ofNumber (n : Nat) : Origin := if n % 2 = 0 then .source else .text

/-- The line that a number tells, moved by `k` or `j`. -/
def lineOf (k j n : Nat) : Nat := n / 2 + (ofNumber n).offset k j

lemma ofNumber_number (origin : Origin) (l : Nat) : ofNumber (origin.number l) = origin := by
  cases origin with
  | source => exact if_pos (by simp only [number]; omega)
  | text => exact if_neg (by simp only [number]; omega)

lemma lineOf_number (k j : Nat) (origin : Origin) :
    lineOf k j ∘ origin.number = (· + origin.offset k j) := by
  funext l
  have hline : origin.number l / 2 = l := by
    cases origin <;> simp only [number] <;> omega
  simp only [Function.comp_apply, lineOf, ofNumber_number, hline]

/-- An error is moved according to the origin of its line. -/
lemma mapLine_lineOf (k j : Nat) (e : RuntimeError) : e.mapLine (lineOf k j) =
    (e.mapLine (lineOf 0 0)).mapLine (· + (ofNumber e.line).offset k j) := by
  rw [RuntimeError.mapLine_mapLine]
  refine RuntimeError.mapLine_congr _ ?_
  cases horigin : ofNumber e.line <;> simp [lineOf, horigin, offset]

end Origin

/-! ## Runs that count lines differently -/

namespace Session

/-- Runs a text. In the texts that are read while it runs, lines are counted from `first + 1` on. -/
def runCounting (first bound : Nat) (source : String) : Run Unit :=
  (Input.run source).performBy Run.readProgram (evalBy (Run.readNumbered (· + first)) id bound)

lemma runCounting_zero (bound : Nat) (source : String) :
    runCounting 0 bound source = run bound source := by
  have hread : Run.readNumbered (· + 0) = Run.readProgram := Run.readNumbered_id
  rw [runCounting, hread, evalBy_readProgram]
  rfl

/-- The outcome of a text up to the point where it leaves the evaluator, with line numbers that tell
their origin. -/
def generic (bound : Nat) (source : String) : Run Flow :=
  (evalBy (Run.readNumbered Origin.text.number) id bound).runTextBy
    (Run.readNumbered Origin.source.number) source Machine.globalFrame false

lemma mapLines_initial (f : Nat → Nat) : Machine.initial.mapLines f = Machine.initial := by
  have hbuiltins : Vocabulary.standard.mapLines f = Vocabulary.standard := by
    simp only [Vocabulary.mapLines, Vocabulary.standard, Dictionary.map, List.map_map]
    rfl
  exact congrArg (Machine.mk · Machine.initial.scopes 0 .empty) hbuiltins

/-- One run tells the outcomes for all ways of counting. -/
lemma generic_mapLines (k j bound : Nat) (source : String) (settings : Settings) :
    (evalBy (Run.readNumbered (· + j)) id bound).runTextBy Run.readProgram (lineEnds k ++ source)
        Machine.globalFrame false settings .initial =
      (generic bound source settings .initial).mapLines (Origin.lineOf k j) := by
  have hexecute : ∀ p, Run.Renumbers (Origin.lineOf k j)
      ((evalBy (Run.readNumbered Origin.text.number) id bound).execute Machine.globalFrame false p)
      ((evalBy (Run.readNumbered (Origin.lineOf k j ∘ Origin.text.number)) id bound).execute
        Machine.globalFrame false (Program.mapLines (Origin.lineOf k j) p)) := fun p =>
    Run.Comparison.execute ((renumbering (Origin.lineOf k j) Origin.text.number).evalBy bound) _ _
      (Program.mapLines_id _).symm
  have hrun := Run.Renumbers.readNumbered Origin.source.number source hexecute settings .initial
  rw [Origin.lineOf_number, Origin.lineOf_number, mapLines_initial] at hrun
  rw [Evaluator.runTextBy, Run.readProgram_lineEnds]
  exact hrun

lemma runCounting_of_generic {bound : Nat} {source : String} {settings : Settings}
    {e : RuntimeError} {m : Machine} (h : generic bound source settings .initial = .failed e m)
    (k j : Nat) : runCounting j bound (lineEnds k ++ source) settings .initial =
      .failed (e.mapLine (Origin.lineOf k j)) (m.mapLines (Origin.lineOf k j)) := by
  have htext := generic_mapLines k j bound source settings
  rw [h] at htext
  show Run.andThen _ _ settings .initial = _
  unfold Run.andThen
  rw [htext]
  rfl

/-- An error of a session comes from running the text, since no signal is left over. -/
lemma exists_generic_failed {bound : Nat} {source : String} {settings : Settings}
    {e : RuntimeError} {after : Machine}
    (h : run bound source settings .initial = .failed e after) :
    ∃ e₀ m₀, generic bound source settings .initial = .failed e₀ m₀ := by
  have htext := generic_mapLines 0 0 bound source settings
  have hread : Run.readNumbered (· + 0) = Run.readProgram := Run.readNumbered_id
  rw [hread, lineEnds_zero, evalBy_readProgram] at htext
  change Run.andThen ((eval bound).runText source Machine.globalFrame false) _ settings _ = _ at h
  unfold Run.andThen at h
  rw [show (eval bound).runText source Machine.globalFrame false settings .initial = _ from htext]
    at h
  cases hgeneric : generic bound source settings .initial with
  | failed e₀ m₀ => exact ⟨e₀, m₀, rfl⟩
  | exhausted => simp [hgeneric, Outcome.mapLines] at h
  | done flow m₀ =>
    rw [hgeneric] at htext
    obtain ⟨value, rfl⟩ :=
      isValue_of_entry (.text source Machine.globalFrame false) rfl htext
    rw [hgeneric] at h
    cases h

end Session

/-! ## Where an error is reported -/

open Session in
/-- **An error moves with the text that its line was counted in.** If a source fails on the machine
that a program starts on, then its error is that of a line of the source or of a line of a text that
was read while the source ran. With the source moved down by `k` lines and those texts by `j` lines,
the same is written and the same error is reported, on a line further down by `k` in the one case
and by `j` in the other. So if only the source is moved, the error moves with it or stays where it
is. If the run does not depend on how texts are read while it runs, the line is one of the
source. -/
theorem error_moves_with_origin {source : String} {settings : Settings} {e : RuntimeError}
    {after : Machine}
    (h : Run.Ends (fun bound => run bound source) settings .initial (.failed e after)) :
    ∃ origin : Origin,
      (∀ k j, ∃ final, Run.Ends (fun bound => runCounting j bound (lineEnds k ++ source)) settings
          .initial (.failed (e.mapLine (· + origin.offset k j)) final) ∧
        final.transcript = after.transcript) ∧
      (∀ k, ∃ final, Run.Ends (fun bound => run bound (lineEnds k ++ source)) settings
          .initial (.failed (e.mapLine (· + origin.offset k 0)) final) ∧
        final.transcript = after.transcript) ∧
      ((∀ read bound, (Input.run source).performBy Run.readProgram (evalBy read id bound) settings
          .initial = run bound source settings .initial) → origin = .source) := by
  obtain ⟨-, bound, hrun⟩ := h
  dsimp only at hrun
  obtain ⟨e₀, m₀, hgeneric⟩ := exists_generic_failed hrun
  have hmoved := runCounting_of_generic hgeneric
  have hplain := hmoved 0 0
  rw [lineEnds_zero, runCounting_zero, hrun] at hplain
  obtain ⟨rfl, rfl⟩ := Outcome.failed.inj hplain
  have hall : ∀ k j, ∃ final, runCounting j bound (lineEnds k ++ source) settings .initial =
      .failed ((e₀.mapLine (Origin.lineOf 0 0)).mapLine
        (· + (Origin.ofNumber e₀.line).offset k j)) final ∧
      final.transcript = (m₀.mapLines (Origin.lineOf 0 0)).transcript := by
    intro k j
    rw [← Origin.mapLine_lineOf]
    exact ⟨_, hmoved k j, rfl⟩
  refine ⟨Origin.ofNumber e₀.line, fun k j => ?_, fun k => ?_, fun hsame => ?_⟩
  · obtain ⟨final, hfinal, hwritten⟩ := hall k j
    exact ⟨final, ⟨by simp, bound, hfinal⟩, hwritten⟩
  · obtain ⟨final, hfinal, hwritten⟩ := hall k 0
    rw [runCounting_zero] at hfinal
    exact ⟨final, ⟨by simp, bound, hfinal⟩, hwritten⟩
  · -- otherwise the line would depend on where the counting of the other texts starts
    obtain ⟨final, hfinal, -⟩ := hall 0 1
    rw [lineEnds_zero, show runCounting 1 bound source settings .initial = _ from
      hsame _ bound, hrun] at hfinal
    have hline := congrArg RuntimeError.line (Outcome.failed.inj hfinal).1
    rw [RuntimeError.line_mapLine (· + _)] at hline
    cases horigin : Origin.ofNumber e₀.line with
    | source => rfl
    | text => simp [horigin, Origin.offset] at hline

/-- The error that a run ends with. -/
def Outcome.error? {α : Type} : Outcome α → Option RuntimeError
  | .failed e _ => some e
  | _ => none

lemma Session.exists_ends {bound : Nat} {source : String} {settings : Settings} {e : RuntimeError}
    (h : (Session.run bound source settings .initial).error? = some e) :
    ∃ after, Run.Ends (fun bound => Session.run bound source) settings .initial
      (.failed e after) := by
  cases hrun : Session.run bound source settings .initial with
  | failed e' after =>
    rw [hrun] at h
    obtain rfl := Option.some.inj h
    exact ⟨after, by simp, bound, hrun⟩
  | done a after => simp [hrun, Outcome.error?] at h
  | exhausted => simp [hrun, Outcome.error?] at h

open Session in
/-- A variable without a value is reported on the line of the source that it stands on, wherever the
source starts. In a list that is run it is reported on the first line always. Where the source is
not even read to its end, nothing else is read, and the error is one of the source. -/
theorem error_moves_with_origin_variable :
    (∀ k, ∃ final, Run.Ends (fun bound => run bound (lineEnds k ++ "print :x")) .standard .initial
      (.failed (.undefinedVariable "x" (1 + k)) final)) ∧
    (∀ k, ∃ final, Run.Ends (fun bound => run bound (lineEnds k ++ "run [print :x]")) .standard
      .initial (.failed (.undefinedVariable "x" 1) final)) ∧
    ∀ k, ∃ final, Run.Ends (fun bound => run bound (lineEnds k ++ ".")) .standard .initial
      (.failed (.unreadable (.lexical ⟨.unknownCharacter '.', 1 + k, 1⟩)) final) := by
  -- one line further down it shows where the line was counted
  have hmoves : ∀ source l,
      (run 9 source .standard .initial).error? = some (.undefinedVariable "x" 1) →
      (run 9 (lineEnds 1 ++ source) .standard .initial).error? = some (.undefinedVariable "x" l) →
      ∃ origin : Origin, 1 + origin.offset 1 0 = l ∧
        ∀ k, ∃ final, Run.Ends (fun bound => run bound (lineEnds k ++ source)) .standard .initial
          (.failed (.undefinedVariable "x" (1 + origin.offset k 0)) final) := by
    intro source l hplain hmoved
    obtain ⟨_, hplain⟩ := exists_ends hplain
    obtain ⟨_, hmoved⟩ := exists_ends hmoved
    obtain ⟨origin, -, hall, -⟩ := error_moves_with_origin hplain
    obtain ⟨_, hone, -⟩ := hall 1
    have herror := (Outcome.failed.inj (hone.unique (settles_run _) hmoved)).1
    refine ⟨origin, by simpa [RuntimeError.mapLine] using herror, fun k => ?_⟩
    obtain ⟨final, hfinal, -⟩ := hall k
    exact ⟨final, hfinal⟩
  refine ⟨?_, ?_, ?_⟩
  · obtain ⟨origin, horigin, hall⟩ :=
      hmoves "print :x" 2 (by decide +kernel) (by decide +kernel)
    cases origin with
    | source => exact hall
    | text => simp [Origin.offset] at horigin
  · obtain ⟨origin, horigin, hall⟩ :=
      hmoves "run [print :x]" 1 (by decide +kernel) (by decide +kernel)
    cases origin with
    | source => simp [Origin.offset] at horigin
    | text => exact hall
  · have htokens : tokenize "." = .error ⟨.unknownCharacter '.', 1, 1⟩ := by decide +kernel
    have hread := Run.readProgram_of_error htokens
    have hrun : ∀ read bound, (Input.run ".").performBy Run.readProgram (evalBy read id bound)
        .standard .initial = .failed (.unreadable (.lexical ⟨.unknownCharacter '.', 1, 1⟩))
          .initial := by
      intro read bound
      simp only [Input.performBy, Evaluator.runTextBy, hread]
      rfl
    have hplain : ∀ bound, run bound "." .standard .initial = .failed _ .initial := fun bound =>
      evalBy_readProgram bound ▸ hrun Run.readProgram bound
    obtain ⟨origin, -, hall, hsource⟩ := error_moves_with_origin ⟨by simp, 0, hplain 0⟩
    obtain rfl := hsource fun read bound => (hrun read bound).trans (hplain bound).symm
    intro k
    obtain ⟨final, hfinal, -⟩ := hall k
    exact ⟨final, hfinal⟩

open Session in
/-- Not every error moves down with its source: that of a list that is run does not. -/
theorem not_every_error_moves :
    ¬ ∀ (source : String) (settings : Settings) (k : Nat) (e : RuntimeError) (after : Machine),
      Sequence.occursIn "load" (Text.lower source) = false →
      Run.Ends (fun bound => run bound source) settings .initial (.failed e after) →
      ∃ final, Run.Ends (fun bound => run bound (lineEnds k ++ source)) settings .initial
          (.failed (e.mapLine (· + k)) final) ∧
        final.transcript = after.transcript := by
  intro hmoves
  have hplain : (run 9 "run [print :x]" .standard .initial).error? =
      some (.undefinedVariable "x" 1) := by decide +kernel
  have hmoved : (run 9 (lineEnds 1 ++ "run [print :x]") .standard .initial).error? =
      some (.undefinedVariable "x" 1) := by decide +kernel
  obtain ⟨after, hplain⟩ := exists_ends hplain
  obtain ⟨_, hmoved⟩ := exists_ends hmoved
  obtain ⟨_, hlower, -⟩ := hmoves _ _ 1 _ after (by decide +kernel) hplain
  have herror := (Outcome.failed.inj (hlower.unique (settles_run _) hmoved)).1
  simp [RuntimeError.mapLine] at herror

end Logo
