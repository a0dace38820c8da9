import Logo.Console.Report
import Logo.Proofs.Dialogues

/-!
# The segments of a dialogue

The lines of a dialogue fall into segments: blank lines, lines that are run at once, and definitions
from the line that opens one to the first line that ends one. At the end there may be lines of a
definition that is not finished. Every list of lines is cut in one way only, which does not depend
on how the runs end; one text is run for each segment that is not blank, and no line is lost, taken
twice or moved.

* `Segment`, `Partition`: how lines are cut.
* `Partition.exists_extend`: one more line.
* `Partition.eq`: there is one way only.
* `Turn`, `play`: what a dialogue does with a line, and with all of them.
* `Partition.turns_eq`: the turns of a dialogue are those of its segments.
* `dialogue_partition`: the whole dialogue.
-/

namespace Logo.Console

/-! ## Cutting lines -/

/-- Lines that belong together, with the text that is run for them after the last one. -/
inductive Segment where
  /-- A line that opens no definition. -/
  | single (line : String) (hstart : startsDefinition line = false)
  /-- The lines from one that opens a definition to the first one that ends one. -/
  | definition (body : List String) (last : String)
      (hstart : (body ++ [last]).head?.any startsDefinition = true)
      (hbody : ∀ l ∈ body, endsDefinition l = false) (hlast : endsDefinition last = true)

namespace Segment

/-- The lines of a segment. -/
def lines : Segment → List String
  | single line _ => [line]
  | definition body last _ _ _ => body ++ [last]

/-- The text that is run for a segment. A blank line is left out. -/
def text : Segment → Option String
  | single line _ => if (Text.words line).isEmpty then none else some line
  | definition body last _ _ _ => some (joined (body ++ [last]))

end Segment

/-- The lines of a definition that no line has ended, if there are any. -/
structure IsUnfinished (lines : List String) : Prop where
  start : ∀ first ∈ lines.head?, startsDefinition first = true
  unended : ∀ l ∈ lines, endsDefinition l = false

/-- The lines cut into segments, with a definition that is not finished behind them. -/
@[ext]
structure Partition (lines : List String) where
  /-- The segments, in their order. -/
  segments : List Segment
  /-- The lines of the last definition, if it is not finished. -/
  unfinished : List String
  isUnfinished : IsUnfinished unfinished
  flat : segments.flatMap Segment.lines ++ unfinished = lines

namespace Partition

variable {lines : List String}

/-- No lines. -/
def empty : Partition [] := ⟨[], [], ⟨by simp, by simp⟩, rfl⟩

/-- A segment behind the others. -/
def settle (p : Partition lines) (s : Segment) {line : String}
    (h : s.lines = p.unfinished ++ [line]) : Partition (lines ++ [line]) where
  segments := p.segments ++ [s]
  unfinished := []
  isUnfinished := ⟨by simp, by simp⟩
  flat := by simp [h, ← p.flat]

/-- A line of the definition at the end that does not end it. -/
def collect (p : Partition lines) (line : String)
    (hstart : (p.unfinished ++ [line]).head?.any startsDefinition = true)
    (hline : endsDefinition line = false) : Partition (lines ++ [line]) where
  segments := p.segments
  unfinished := p.unfinished ++ [line]
  isUnfinished := ⟨by simpa [Option.any_eq_true] using hstart,
    List.forall_mem_append.mpr ⟨p.isUnfinished.unended, by simpa using hline⟩⟩
  flat := by simp [← p.flat]

/-- **One more line.** It is a line of the definition at the end, or a segment of its own. -/
lemma exists_extend (p : Partition lines) (line : String) :
    Nonempty (Partition (lines ++ [line])) := by
  cases hstart : (p.unfinished ++ [line]).head?.any startsDefinition with
  | true =>
    cases hline : endsDefinition line with
    | true =>
      exact ⟨p.settle (.definition p.unfinished line hstart p.isUnfinished.unended hline) rfl⟩
    | false => exact ⟨p.collect line hstart hline⟩
  | false =>
    -- no definition is open
    have hnone : p.unfinished = [] := by
      cases hfirst : p.unfinished with
      | nil => rfl
      | cons first rest =>
        have hopens := p.isUnfinished.start first (by simp [hfirst])
        simp [hfirst, hopens] at hstart
    rw [hnone] at hstart
    exact ⟨p.settle (.single line hstart) (by rw [hnone]; rfl)⟩

/-- All lines can be cut. -/
lemma nonempty (lines : List String) : Nonempty (Partition lines) := by
  induction lines using List.reverseRecOn with
  | nil => exact ⟨empty⟩
  | append_singleton lines line ih =>
    obtain ⟨p⟩ := ih
    exact p.exists_extend line

end Partition

/-! ## There is one way only -/

/-- The first line that ends a definition is at one place only. -/
lemma eq_of_first_end {before before' after after' : List String} {line line' : String}
    (hbefore : ∀ l ∈ before, endsDefinition l = false) (hline : endsDefinition line = true)
    (hbefore' : ∀ l ∈ before', endsDefinition l = false) (hline' : endsDefinition line' = true)
    (h : before ++ line :: after = before' ++ line' :: after') :
    before = before' ∧ line = line' ∧ after = after' := by
  have htake := congrArg (List.takeWhile fun l => !endsDefinition l) h
  rw [List.takeWhile_append_of_pos (by simpa using hbefore),
    List.takeWhile_append_of_pos (by simpa using hbefore'),
    List.takeWhile_cons_of_neg (by simp [hline]), List.takeWhile_cons_of_neg (by simp [hline']),
    List.append_nil, List.append_nil] at htake
  subst htake
  obtain ⟨rfl, rfl⟩ := List.cons.inj (List.append_cancel_left h)
  exact ⟨rfl, rfl, rfl⟩

namespace Segment

variable {s s' : Segment} {more more' : List String}

/-- A segment is settled, so that its lines are not the first ones of an unfinished definition. -/
lemma not_isUnfinished (s : Segment) (more : List String) : ¬ IsUnfinished (s.lines ++ more) := by
  rintro ⟨hstart, hunended⟩
  cases s with
  | single line hnone =>
    have hline := hstart line rfl
    rw [hnone] at hline
    cases hline
  | definition body last _ _ hlast =>
    have hline := hunended last (by simp [lines])
    rw [hlast] at hline
    cases hline

/-- A definition does not start like a single line. -/
lemma definition_ne_single {body : List String} {last line : String}
    (hopens : (body ++ [last]).head?.any startsDefinition = true)
    (hline : startsDefinition line = false) : body ++ [last] ++ more ≠ line :: more' := by
  intro h
  have hhead := congrArg List.head? h
  rw [List.head?_append_of_ne_nil _ (by simp)] at hhead
  rw [hhead, List.head?_cons, Option.any_some, hline] at hopens
  cases hopens

/-- **The first segment of some lines is at one place only.** -/
lemma eq_of_append (h : s.lines ++ more = s'.lines ++ more') : s = s' ∧ more = more' := by
  cases s with
  | single line hline =>
    cases s' with
    | single line' =>
      obtain ⟨rfl, rfl⟩ := List.cons.inj h
      exact ⟨rfl, rfl⟩
    | definition body' last' hopens' => exact absurd h.symm (definition_ne_single hopens' hline)
  | definition body last hopens hbody hlast =>
    cases s' with
    | single line' hline' => exact absurd h (definition_ne_single hopens hline')
    | definition body' last' hopens' hbody' hlast' =>
      simp only [lines, List.append_assoc, List.singleton_append] at h
      obtain ⟨rfl, rfl, rfl⟩ := eq_of_first_end hbody hlast hbody' hlast' h
      exact ⟨rfl, rfl⟩

end Segment

lemma segments_unique {segments segments' : List Segment} {unfinished unfinished' : List String}
    (hu : IsUnfinished unfinished) (hu' : IsUnfinished unfinished')
    (h : segments.flatMap Segment.lines ++ unfinished =
      segments'.flatMap Segment.lines ++ unfinished') :
    segments = segments' ∧ unfinished = unfinished' := by
  induction segments generalizing segments' with
  | nil =>
    cases segments' with
    | nil => exact ⟨rfl, h⟩
    | cons s' segments' =>
      rw [List.flatMap_nil, List.nil_append, List.flatMap_cons, List.append_assoc] at h
      exact absurd (h ▸ hu) (s'.not_isUnfinished _)
  | cons s segments ih =>
    rw [List.flatMap_cons, List.append_assoc] at h
    cases segments' with
    | nil =>
      rw [List.flatMap_nil, List.nil_append] at h
      exact absurd (h ▸ hu') (s.not_isUnfinished _)
    | cons s' segments' =>
      rw [List.flatMap_cons, List.append_assoc] at h
      obtain ⟨rfl, hmore⟩ := Segment.eq_of_append h
      obtain ⟨rfl, rfl⟩ := ih hmore
      exact ⟨rfl, rfl⟩

/-- **Lines are cut in one way only.** -/
lemma Partition.eq {lines : List String} (p q : Partition lines) : p = q := by
  obtain ⟨hsegments, hunfinished⟩ :=
    segments_unique p.isUnfinished q.isUnfinished (p.flat.trans q.flat.symm)
  exact Partition.ext hsegments hunfinished

/-! ## Turns -/

/-- What a dialogue does with a line: what it has written before it reads the line, and the text
that it runs after that. -/
structure Turn where
  prompt : String
  text : Option String
deriving DecidableEq

/-- The turns of a dialogue. In the last one there is no line left. -/
def turns (pending : Pending) : List String → List Turn
  | [] => [⟨prompt pending, none⟩]
  | line :: lines => ⟨prompt pending, (feed pending line).2⟩ :: turns (feed pending line).1 lines

/-- The turns for lines that belong together. While they are read, the prompt says so; the text is
run after the last line. -/
def turnsOf (prompt : String) (text : Option String) : List String → List Turn
  | [] => []
  | _ :: lines => ⟨prompt, if lines.isEmpty then text else none⟩ :: turnsOf "> " text lines

/-- The turns of a segment. -/
def Segment.turns (s : Segment) : List Turn := turnsOf "? " s.text s.lines

/-- The prompt behind all lines. -/
def Partition.prompt {lines : List String} (p : Partition lines) : String :=
  if p.unfinished.isEmpty then "? " else "> "

/-- The turns of all segments, those of the unfinished definition, and the last one. -/
def Partition.turns {lines : List String} (p : Partition lines) : List Turn :=
  p.segments.flatMap Segment.turns ++ turnsOf "? " none p.unfinished ++ [⟨p.prompt, none⟩]

/-- Takes the turns one after another. A text is run on the machine that the text before it has
left, whether that has failed or not. -/
def play (bound : ℕ) (settings : Settings) (m : Machine) : List Turn → String × String
  | [] => ("", "")
  | ⟨prompt, none⟩ :: turns =>
    let (output, errors) := play bound settings m turns
    (prompt ++ output, errors)
  | ⟨prompt, some source⟩ :: turns =>
    let (written, complaint, after) := outcome m (Session.run bound source settings m)
    let (output, errors) := play bound settings after turns
    (prompt ++ written ++ output, complaint ++ errors)

variable {pending : Pending} {lines : List String}

/-- **A dialogue takes its turns.** -/
lemma converse_eq_play (bound : ℕ) (settings : Settings) (m : Machine) (pending : Pending)
    (lines : List String) :
    converse bound settings pending m lines = play bound settings m (turns pending lines) := by
  induction lines generalizing pending m with
  | nil => simp [converse, turns, play]
  | cons line lines ih =>
    rw [converse, turns]
    cases htext : (feed pending line).2 with
    | none => simp only [htext, play, ih]
    | some source => simp only [htext, play, ih]

/-- The texts that a dialogue runs are those of its turns. -/
lemma blocks_eq_filterMap : blocks pending lines = (turns pending lines).filterMap Turn.text := by
  induction lines generalizing pending with
  | nil => rfl
  | cons line lines ih =>
    rw [blocks, turns]
    obtain ⟨after, text⟩ := feed pending line
    cases text with
    | none => exact ih
    | some text => exact congrArg (text :: ·) ih

lemma prompt_collected (pending : Pending) (line : String) :
    prompt (pending ++ line ++ "\n") = "> " := by
  have hopen : (pending ++ line ++ "\n").isEmpty = false := by simp [String.isEmpty_eq_false_iff]
  rw [prompt, hopen]
  rfl

/-- The lines of a definition up to the one that ends it. -/
lemma turns_of_open {before more : List String} {line : String}
    (h : Opens pending (before ++ line :: more))
    (hbefore : ∀ l ∈ before, endsDefinition l = false) (hline : endsDefinition line = true) :
    turns pending (before ++ line :: more) =
      turnsOf (prompt pending) (some (pending ++ joined (before ++ [line]))) (before ++ [line]) ++
        turns "" more := by
  induction before generalizing pending with
  | nil =>
    rw [List.nil_append, turns, feed_of_opens h, hline]
    simp [turnsOf, joined, String.append_assoc]
  | cons first before ih =>
    obtain ⟨hfirst, hrest⟩ := List.forall_mem_cons.mp hbefore
    have hlater := ih (opens_collected pending first _) hrest
    have htext : pending ++ first ++ "\n" ++ joined (before ++ [line]) =
        pending ++ joined (first :: before ++ [line]) := by
      rw [List.cons_append, joined_cons, String.append_assoc, String.append_assoc,
        String.append_assoc]
    rw [prompt_collected, htext] at hlater
    rw [List.cons_append, turns, feed_of_opens h, hfirst]
    simpa [turnsOf] using hlater

/-- The lines of a definition that is not finished. -/
lemma turns_of_unended (h : lines = [] ∨ Opens pending lines)
    (hlines : ∀ l ∈ lines, endsDefinition l = false) :
    turns pending lines = turnsOf (prompt pending) none lines ++
      [⟨if lines.isEmpty then prompt pending else "> ", none⟩] := by
  induction lines generalizing pending with
  | nil => rfl
  | cons line lines ih =>
    obtain ⟨hline, hrest⟩ := List.forall_mem_cons.mp hlines
    have hlater := ih (.inr (opens_collected pending line lines)) hrest
    rw [prompt_collected, ite_self] at hlater
    rw [turns, feed_of_opens (h.resolve_left (by simp)), hline]
    simpa [turnsOf] using hlater

/-- **The lines of a segment**, when no definition is open before them. -/
lemma Segment.turns_append (s : Segment) (more : List String) :
    Console.turns "" (s.lines ++ more) = s.turns ++ Console.turns "" more := by
  cases s with
  | single line hline =>
    have hfeed : feed "" line = ("", if (Text.words line).isEmpty then none else some line) := by
      simp [feed, hline]
    show Console.turns "" (line :: more) = _
    rw [Console.turns, hfeed]
    rfl
  | definition body last hstart hbody hlast =>
    have hopens : Opens "" (body ++ last :: more) := by
      refine .inr ?_
      cases body <;> exact hstart
    rw [lines, List.append_assoc, List.singleton_append, turns_of_open hopens hbody hlast,
      String.empty_append]
    rfl

lemma turns_flatMap (segments : List Segment) (more : List String) :
    turns "" (segments.flatMap Segment.lines ++ more) =
      segments.flatMap Segment.turns ++ turns "" more := by
  induction segments with
  | nil => rfl
  | cons s segments ih =>
    rw [List.flatMap_cons, List.flatMap_cons, List.append_assoc, List.append_assoc,
      s.turns_append, ih]

/-- **The turns of a dialogue are those of its segments.** -/
lemma Partition.turns_eq (p : Partition lines) : Console.turns "" lines = p.turns := by
  have hopens : p.unfinished = [] ∨ Opens "" p.unfinished := by
    cases hunfinished : p.unfinished with
    | nil => exact .inl rfl
    | cons first rest => exact .inr (.inr (p.isUnfinished.start first (by simp [hunfinished])))
  conv_lhs => rw [← p.flat]
  rw [turns_flatMap, turns_of_unended hopens p.isUnfinished.unended, ← List.append_assoc]
  rfl

lemma filterMap_turnsOf (prompt : String) (text : Option String) (lines : List String) :
    (turnsOf prompt text lines).filterMap Turn.text =
      if lines.isEmpty then [] else text.toList := by
  induction lines generalizing prompt with
  | nil => rfl
  | cons line lines ih =>
    rw [turnsOf, List.filterMap_cons, ih]
    cases lines <;> cases text <;> rfl

/-- One text is run for each segment that has one. -/
lemma Partition.filterMap_turns (p : Partition lines) :
    p.turns.filterMap Turn.text = p.segments.filterMap Segment.text := by
  have hsegment : ∀ s : Segment, s.turns.filterMap Turn.text = s.text.toList := by
    intro s
    rw [Segment.turns, filterMap_turnsOf]
    cases s with
    | single line => rfl
    | definition body last => simp [Segment.lines]
  have hsegments : (p.segments.flatMap Segment.turns).filterMap Turn.text =
      p.segments.filterMap Segment.text := by
    induction p.segments with
    | nil => rfl
    | cons s segments ih =>
      rw [List.flatMap_cons, List.filterMap_append, hsegment, ih, List.filterMap_cons]
      cases s.text <;> rfl
  rw [turns, List.filterMap_append, List.filterMap_append, hsegments, filterMap_turnsOf]
  simp

lemma turns_ne_nil (pending : Pending) (lines : List String) : turns pending lines ≠ [] := by
  cases lines <;> exact List.cons_ne_nil _ _

/-- The prompt before a line is not changed by that line and the later ones. -/
lemma prompt_turns_take (n : ℕ) :
    ((turns pending lines)[(lines.take n).length]?).map Turn.prompt =
      (turns pending (lines.take n)).getLast?.map Turn.prompt := by
  induction lines generalizing pending n with
  | nil => simp [turns]
  | cons line lines ih =>
    cases n with
    | zero => simp [turns]
    | succ n =>
      rw [List.take_succ_cons, turns, turns, List.length_cons, List.getElem?_cons_succ, ih,
        List.getLast?_cons_of_ne_nil (turns_ne_nil _ _)]

end Logo.Console

namespace Logo

open Console

/-- **A dialogue loses, repeats and moves no line.** Its lines are cut into segments in exactly one
way, which does not depend on what the runs do. The texts that are run are those of the segments in
their order, each on the machine that the one before it has left, whether that has failed or not;
the unfinished definition at the end is dropped. The prompt before a line, and behind the last one,
is the one for definitions exactly if the lines before it end with an unfinished definition. -/
theorem dialogue_partition (lines : List String) :
    ∃ p : Partition lines, (∀ q : Partition lines, q = p) ∧
      blocks "" lines = p.segments.filterMap Segment.text ∧
      p.turns.filterMap Turn.text = p.segments.filterMap Segment.text ∧
      (∀ (bound : ℕ) (settings : Settings) (m : Machine),
        converse bound settings "" m lines = play bound settings m p.turns) ∧
      ∀ (n : ℕ) (q : Partition (lines.take n)),
        (p.turns[(lines.take n).length]?).map Turn.prompt =
          some (if q.unfinished = [] then "? " else "> ") := by
  obtain ⟨p⟩ := Partition.nonempty lines
  refine ⟨p, fun q => q.eq p, ?_, p.filterMap_turns, fun bound settings m => ?_, fun n q => ?_⟩
  · rw [blocks_eq_filterMap, p.turns_eq, p.filterMap_turns]
  · rw [converse_eq_play, p.turns_eq]
  · rw [← p.turns_eq, prompt_turns_take, q.turns_eq, Partition.turns, List.getLast?_concat]
    simp [Partition.prompt]

/-- A definition of two lines, a blank line, a line that is run at once, and an unfinished
definition. -/
example : turns "" ["to f", "print 1 end", "", "f", "to g"] =
    [⟨"? ", none⟩, ⟨"> ", some "to f\nprint 1 end\n"⟩, ⟨"? ", none⟩, ⟨"? ", some "f"⟩,
      ⟨"? ", none⟩, ⟨"> ", none⟩] := by decide +kernel

end Logo
