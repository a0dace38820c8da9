import Logo.Proofs.Running.Bounds
import Logo.Proofs.Running.Supervision

/-!
# The limit only cuts runs short

The settings hold how many procedure calls may be open at a time. A call beyond the limit fails, and
nothing takes that error away again: the run as a whole ends with it. No other part of evaluation
looks at the limit. So with a higher limit a run does the same as with a lower one, step by step, up
to where the lower limit ends it. What it has written until then it has written with the higher
limit, too, and nothing that has been written is ever taken back.

* `Outcome.CutShort`: how the outcomes with two limits compare.
* `limitLaw`: the law of evaluation that says so.
* `limit_only_cuts_short`: the statement for the texts that a session runs.
-/

namespace Logo

variable {α β : Type}

/-! ## What has been written stays -/

/-- All that the transcript holds has been written before the run ends, and nothing before it. -/
def Outcome.Begins (t : Transcript) (o : Outcome α) : Prop :=
  ∀ after ∈ o.after?, t.writes <:+ after.transcript.writes

lemma Outcome.Begins.trans {t t' : Transcript} {o : Outcome α} (h : o.Begins t')
    (ht : t.writes <:+ t'.writes) : o.Begins t :=
  fun after hafter => ht.trans (h after hafter)

/-- A transcript that goes on from another begins with the same text, from any place on. -/
lemma Transcript.exists_textAfter {t t' : Transcript} (h : t.writes <:+ t'.writes) (count : Nat) :
    ∃ more, t'.textAfter count = t.textAfter count ++ more := by
  obtain ⟨added, hadded⟩ := h
  rw [textAfter, textAfter, ← hadded, List.reverse_append, List.drop_append, String.join_append]
  exact ⟨_, rfl⟩

/-- What the first part has written, the whole has written. -/
lemma Run.begins_andThen {r : Run α} {next : α → Run β} {settings : Settings} {m : Machine}
    {t : Transcript} (h : (r settings m).Begins t)
    (hnext : ∀ a after, (next a settings after).Begins after.transcript) :
    (andThen r next settings m).Begins t := by
  unfold andThen
  cases hr : r settings m with
  | done a after =>
    rw [hr] at h
    exact (hnext a after).trans (h after rfl)
  | failed e after =>
    rw [hr] at h
    exact h
  | exhausted => rintro _ ⟨⟩

/-- Leaving a body does not touch the transcript. -/
lemma Run.begins_nested {body : Run Flow} {settings : Settings} {m : Machine} {t : Transcript}
    (hlimit : ¬ settings.maxDepth ≤ m.depth)
    (h : (body settings { m with depth := m.depth + 1 }).Begins t) (line : Nat) :
    (nested line body settings m).Begins t := by
  rw [nested, if_neg hlimit]
  cases hbody : body settings { m with depth := m.depth + 1 } with
  | done flow after =>
    rw [hbody] at h
    rintro _ ⟨⟩
    exact h after rfl
  | failed e after =>
    rw [hbody] at h
    rintro _ ⟨⟩
    exact h after rfl
  | exhausted => rintro _ ⟨⟩

/-- What has been written before a body is entered stays. -/
lemma Run.begins_nested_self {body : Run Flow}
    (h : ∀ settings m, (body settings m).Begins m.transcript) (line : Nat) (settings : Settings)
    (m : Machine) : (nested line body settings m).Begins m.transcript := by
  by_cases hlimit : settings.maxDepth ≤ m.depth
  · rw [nested, if_pos hlimit]
    rintro _ ⟨⟩
    exact List.suffix_refl _
  · exact begins_nested hlimit (h settings { m with depth := m.depth + 1 }) line

/-! ## Two limits -/

/-- The outcomes with a limit and with a higher one: they are the same, or the limit has ended the
run, and what had been written by then is written with the higher limit, too. Nothing is said if the
first run has no answer. -/
inductive Outcome.CutShort (limit : Nat) : Outcome α → Outcome α → Prop
  | done (a : α) (after : Machine) : CutShort limit (.done a after) (.done a after)
  | failed {e : RuntimeError} (after : Machine) : e.isLimit = false →
      CutShort limit (.failed e after) (.failed e after)
  | limited {line : Nat} {after : Machine} {o : Outcome α} : o.Begins after.transcript →
      CutShort limit (.failed (.recursionLimit limit line) after) o
  | exhausted {o : Outcome α} : CutShort limit .exhausted o

/-- With any limit the first run is cut short at most, compared with the second run and a limit that
is not lower. What has been written before the second run stays. -/
structure Run.CutsShort (r s : Run α) : Prop where
  writes : ∀ settings m, (s settings m).Begins m.transcript
  cut : ∀ settings limit m, settings.maxDepth ≤ limit →
    (r settings m).CutShort settings.maxDepth (s { settings with maxDepth := limit } m)

/-- The run gives a value or complains. It may have written something, but has not looked at the
limit. -/
inductive Outcome.Plain (m : Machine) : Outcome α → Prop
  | done {a : α} {after : Machine} : m.transcript.writes <:+ after.transcript.writes →
      Plain m (.done a after)
  | failed {e : RuntimeError} {after : Machine} :
      m.transcript.writes <:+ after.transcript.writes → e.isLimit = false →
      Plain m (.failed e after)
  | exhausted : Plain m .exhausted

namespace Run.CutsShort

/-- A run that does not look at the limit. -/
lemma refl {r : Run α} (hplain : ∀ settings m, (r settings m).Plain m)
    (hsame : ∀ settings limit m, r { settings with maxDepth := limit } m = r settings m) :
    CutsShort r r where
  writes settings m after hafter := by
    have h := hplain settings m
    revert h hafter
    generalize r settings m = o
    rintro hafter (hwrites | ⟨hwrites, -⟩ | _)
    · obtain rfl := Option.some.inj hafter
      exact hwrites
    · obtain rfl := Option.some.inj hafter
      exact hwrites
    · cases hafter
  cut settings limit m _ := by
    have h := hplain settings m
    rw [hsame settings limit m]
    revert h
    generalize r settings m = o
    rintro (_ | ⟨-, hlimit⟩ | _)
    · exact .done _ _
    · exact .failed _ hlimit
    · exact .exhausted

lemma ask {question : Machine → Except RuntimeError α}
    (h : ∀ m e, question m = .error e → e.isLimit = false) :
    CutsShort (Run.ask question) (Run.ask question) := by
  refine refl (fun settings m => ?_) fun settings limit m => ?_
  · unfold Run.ask
    cases hm : question m with
    | ok a => exact .done (List.suffix_refl _)
    | error e => exact .failed (List.suffix_refl _) (h m e hm)
  · unfold Run.ask
    cases question m <;> rfl

lemma write (text : String) (line : Nat) :
    CutsShort (Run.write text line) (Run.write text line) := by
  refine refl (fun settings m => ?_) fun _ _ _ => rfl
  unfold Run.write
  cases settings.outputLimit with
  | none => exact .done (List.suffix_cons _ _)
  | some bytes =>
    dsimp only
    split
    · exact .failed (List.suffix_refl _) rfl
    · exact .done (List.suffix_cons _ _)

lemma readProgram (text : String) : CutsShort (Run.readProgram text) (Run.readProgram text) := by
  refine refl (fun settings m => ?_) fun _ _ _ => rfl
  unfold Run.readProgram
  split
  · exact .done (List.suffix_refl _)
  · exact .failed (List.suffix_refl _) rfl

lemma bind {r s : Run α} {next next' : α → Run β} (h : CutsShort r s)
    (hnext : ∀ a, CutsShort (next a) (next' a)) : CutsShort (r >>= next) (s >>= next') := by
  have hmore : ∀ settings m t, (s settings m).Begins t → (andThen s next' settings m).Begins t :=
    fun settings m t ht => begins_andThen ht fun a => (hnext a).writes settings
  refine ⟨fun settings m => hmore settings m _ (h.writes settings m), ?_⟩
  intro settings limit m hle
  have hcut := h.cut settings limit m hle
  have hbegins := hmore { settings with maxDepth := limit } m
  revert hcut hbegins
  show _ → _ → (andThen r next settings m).CutShort _ (andThen s next' _ m)
  unfold andThen
  generalize r settings m = o, s { settings with maxDepth := limit } m = o'
  rintro (⟨a, after⟩ | ⟨after, hlimit⟩ | ht | _) hbegins
  · exact (hnext a).cut settings limit after hle
  · exact .failed after hlimit
  · exact .limited (hbegins _ ht)
  · exact .exhausted

/-- A body that is entered and left. Where the lower limit lets it be entered, so does the higher
one. -/
lemma nested {body body' : Run Flow} (h : CutsShort body body') (line : Nat) :
    CutsShort (Run.nested line body) (Run.nested line body') := by
  have hwrites := begins_nested_self h.writes line
  refine ⟨hwrites, fun settings limit m hle => ?_⟩
  by_cases hlimit : settings.maxDepth ≤ m.depth
  · rw [Run.nested, if_pos hlimit]
    exact .limited (hwrites { settings with maxDepth := limit } m)
  · have hlimit' : ¬ limit ≤ m.depth := fun hle' => hlimit (Nat.le_trans hle hle')
    have hcut := h.cut settings limit { m with depth := m.depth + 1 } hle
    have hbegins : ∀ t, (body' { settings with maxDepth := limit }
        { m with depth := m.depth + 1 }).Begins t →
        (Run.nested line body' { settings with maxDepth := limit } m).Begins t :=
      fun t ht => begins_nested hlimit' ht line
    revert hcut hbegins
    simp only [Run.nested, if_neg hlimit, if_neg hlimit']
    generalize body settings { m with depth := m.depth + 1 } = o,
      body' { settings with maxDepth := limit } { m with depth := m.depth + 1 } = o'
    rintro (⟨a, after⟩ | ⟨after, he⟩ | ht | _) hbegins
    · exact .done _ _
    · exact .failed _ he
    · exact .limited (hbegins _ ht)
    · exact .exhausted

end Run.CutsShort

open Run in
/-- The limit only cuts runs short. -/
def limitLaw : Run.Law where
  lines := id
  Rel := CutsShort
  give _ := .refl (fun _ _ => .done (List.suffix_refl _)) fun _ _ _ => rfl
  fail h hlimit := by
    rw [RuntimeError.mapLine_id, RuntimeError.mapLine_id] at h
    subst h
    exact .refl (fun _ _ => .failed (List.suffix_refl _) hlimit) fun _ _ _ => rfl
  giveUp := .refl (fun _ _ => .exhausted) fun _ _ _ => rfl
  andThen := CutsShort.bind
  settings h :=
    ⟨fun settings m => (h settings settings rfl rfl).writes settings m,
      fun settings limit m hle =>
        (h settings { settings with maxDepth := limit } rfl rfl).cut settings limit m hle⟩
  resolve := by
    rintro _ _ _ name l _ rfl h
    refine (CutsShort.ask fun m e he => ?_).bind fun c => h c c rfl
    unfold Vocabulary.resolve at he
    split at he
    · cases he
    · cases he
      rfl
  leave := by
    rintro name flow l _ rfl
    refine CutsShort.ask fun m e he => ?_
    split at he
    · cases he
    · cases he
      rfl
  readVariable := by
    rintro frame name l _ rfl
    refine CutsShort.ask fun m e he => ?_
    unfold Scopes.get at he
    split at he
    · cases he
    · cases he
      rfl
  setVariable _ _ _ := .refl (fun _ _ => .done (List.suffix_refl _)) fun _ _ _ => rfl
  write := by
    rintro text l _ rfl
    exact .write text l
  define h := by
    rw [Procedure.mapLines_id, Procedure.mapLines_id] at h
    subst h
    exact .refl (fun _ _ => .done (List.suffix_refl _)) fun _ _ _ => rfl
  readProgram text := .readProgram text
  openFrame _ _ := .refl (fun _ _ => .done (List.suffix_refl _)) fun _ _ _ => rfl
  nested := by
    rintro l _ body body' rfl h
    exact h.nested l

/-! ## Sessions -/

/-- A higher limit changes nothing about a run, except that it may go on where the limit has ended
it. -/
structure Run.OnlyCutShort (r : Nat → Run α) : Prop where
  /-- The run ends in one way only. -/
  unique : ∀ settings m o o', Ends r settings m o → Ends r settings m o' → o = o'
  /-- If the limit has not ended the run, a higher one leads to the same outcome: the same value or
  error, and the same names, variables and writing. -/
  same : ∀ settings limit m o, settings.maxDepth ≤ limit → Ends r settings m o →
    (∀ depth line after, o ≠ .failed (.recursionLimit depth line) after) →
    Ends r { settings with maxDepth := limit } m o
  /-- If the limit has ended the run, it says so with its own value, and what has been written since
  any moment is written with a higher limit, too, if the run ends with that at all. -/
  limited : ∀ settings limit m depth line after, settings.maxDepth ≤ limit →
    Ends r settings m (.failed (.recursionLimit depth line) after) → depth = settings.maxDepth ∧
      ∀ o after', Ends r { settings with maxDepth := limit } m o → o.after? = some after' →
        ∀ count, ∃ more,
          after'.transcript.textAfter count = after.transcript.textAfter count ++ more

/-- Runs that obey the two laws. -/
lemma Run.OnlyCutShort.of_laws {r : Nat → Run α} (hbound : Settles r)
    (hlimit : ∀ bound, CutsShort (r bound) (r bound)) : OnlyCutShort r where
  unique settings m o o' h h' := h.unique hbound h'
  same settings limit m o hle h hother := by
    obtain ⟨hend, bound, hrun⟩ := h
    refine ⟨hend, bound, ?_⟩
    have hcut := (hlimit bound).cut settings limit m hle
    rw [hrun] at hcut
    generalize r bound { settings with maxDepth := limit } m = o' at hcut
    cases hcut with
    | done a after => rfl
    | failed after _ => rfl
    | limited _ => exact absurd rfl (hother _ _ _)
    | exhausted => exact absurd rfl hend
  limited settings limit m depth line after hle h := by
    obtain ⟨bound, hrun⟩ := h.exists_bound hbound
    have hcut : ∀ bound', bound ≤ bound' → depth = settings.maxDepth ∧
        (r bound' { settings with maxDepth := limit } m).Begins after.transcript := by
      intro bound' hbound'
      have hcut := (hlimit bound').cut settings limit m hle
      rw [hrun bound' hbound'] at hcut
      generalize r bound' { settings with maxDepth := limit } m = o at hcut ⊢
      cases hcut with
      | failed _ hother => cases hother
      | limited hbegins => exact ⟨rfl, hbegins⟩
    refine ⟨(hcut bound (Nat.le_refl bound)).1, fun o after' ho hafter count => ?_⟩
    -- both runs have ended with a bound that is large enough for both
    obtain ⟨bound', hrun'⟩ := ho.exists_bound hbound
    have hbegins := (hcut (max bound bound') (Nat.le_max_left ..)).2
    rw [hrun' (max bound bound') (Nat.le_max_right ..)] at hbegins
    exact Transcript.exists_textAfter (hbegins after' hafter) count

/-- **The limit only cuts runs short**, for all texts that a session runs, with all settings and on
all machines. -/
theorem limit_only_cuts_short (source : String) :
    Run.OnlyCutShort (fun bound => Session.run bound source) ∧
      Run.OnlyCutShort (fun bound => Session.evaluate bound source) :=
  ⟨.of_laws (Session.settles_run source) fun bound =>
      Run.Law.sessionRun (limitLaw.eval bound) source,
    .of_laws (Session.settles_evaluate source) fun bound =>
      Run.Law.sessionEvaluate (limitLaw.eval bound) source⟩

/-- A procedure that writes something and calls itself ends at every limit, and writes more with a
higher one. A text that does not reach the limit does the same with both. -/
theorem limit_only_cuts_short_recursive :
    let p : Procedure := ⟨"f", [], [.call "print" [.word "a" 1] 1, .call "f" [] 1], 0⟩
    let m : Machine := { Machine.initial with vocabulary :=
      (Vocabulary.standard.declare "f" (.fixed 0)).assign "f" (.procedure p) }
    let low : Settings := { Settings.standard with maxDepth := 1 }
    let high : Settings := { low with maxDepth := 2 }
    (∃ after after', Run.Ends (fun bound => Session.run bound "f") low m
        (.failed (.recursionLimit 1 1) after) ∧
      Run.Ends (fun bound => Session.run bound "f") high m
        (.failed (.recursionLimit 2 1) after') ∧
      ∃ more, after'.transcript.text = after.transcript.text ++ more) ∧
    ∃ after, Run.Ends (fun bound => Session.evaluate bound "\"a") low m
        (.done (.list [.word "a"]) after) ∧
      Run.Ends (fun bound => Session.evaluate bound "\"a") high m
        (.done (.list [.word "a"]) after) := by
  intro p m low high
  obtain ⟨after, hlow⟩ : ∃ after, Session.run 5 "f" low m =
      .failed (.recursionLimit 1 1) after := ⟨_, rfl⟩
  obtain ⟨after', hhigh⟩ : ∃ after', Session.run 5 "f" high m =
      .failed (.recursionLimit 2 1) after' := ⟨_, rfl⟩
  have hends : Run.Ends (fun bound => Session.run bound "f") low m
      (.failed (.recursionLimit 1 1) after) := ⟨by simp, 5, hlow⟩
  have hends' : Run.Ends (fun bound => Session.run bound "f") high m
      (.failed (.recursionLimit 2 1) after') := ⟨by simp, 5, hhigh⟩
  obtain ⟨-, hbegins⟩ :=
    (limit_only_cuts_short "f").1.limited low 2 m 1 1 after (Nat.le_succ 1) hends
  refine ⟨⟨after, after', hends, hends', hbegins _ after' hends' rfl 0⟩, ?_⟩
  obtain ⟨after, hdone⟩ : ∃ after, Session.evaluate 5 "\"a" low m =
      .done (.list [.word "a"]) after := ⟨_, rfl⟩
  have hends : Run.Ends (fun bound => Session.evaluate bound "\"a") low m
      (.done (.list [.word "a"]) after) := ⟨by simp, 5, hdone⟩
  exact ⟨after, hends, (limit_only_cuts_short "\"a").2.same low 2 m _ (Nat.le_succ 1) hends
    (by simp)⟩

end Logo
