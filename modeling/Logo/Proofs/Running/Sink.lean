import Logo.Proofs.Running.Limit

/-!
# A sink that is full

The settings may limit how many bytes a program writes. A text that does not fit is refused as a
whole, and the refusal is an error that nothing takes away again. So with a limit a run does the
same as without, step by step, up to the first text that does not fit, and does nothing after that.

What happens *after* the refusal cannot be read off the outcomes. It is stated with supervised
evaluation: whenever the evaluation of a node is ended by a refusal, the supervisor compares the
machine with the one that the whole run ends on. Only the number of open calls may differ, since the
calls around the node are closed on the way out.

* `Outcome.Truncated`: how the outcomes without and with a limit compare.
* `sinkLaw`: the law of evaluation that says so.
* `refusalLaw`: the law that a refusal ends a run on the spot.
* `sink_only_truncates`: the statement for the texts that a session runs.
-/

namespace Logo

variable {α β : Type}

/-! ## Transcripts within a limit -/

namespace Transcript

variable {limit : Nat} {t t' t'' : Transcript}

lemma bytes_congr (h : t.writes = t'.writes) : t.bytes = t'.bytes := by
  rw [t.bytes_eq, t'.bytes_eq, h]

/-- The bytes are those of all that has been written. -/
lemma bytes_eq_utf8ByteSize (t : Transcript) : t.bytes = t.text.utf8ByteSize := by
  rw [t.bytes_eq, text, textAfter, List.drop_zero]
  induction t.writes with
  | nil => rfl
  | cons text texts ih =>
    rw [List.foldr_cons, ih, List.reverse_cons, String.join_append, String.utf8ByteSize_append,
      String.join_cons, String.join_nil, String.append_empty, Nat.add_comm]

/-- The text from any place on takes up at most the bytes of the whole. -/
lemma utf8ByteSize_textAfter_le (t : Transcript) (count : Nat) :
    (t.textAfter count).utf8ByteSize ≤ t.bytes := by
  have hsplit : t.text = String.join (t.writes.reverse.take count) ++ t.textAfter count := by
    rw [text, textAfter, textAfter, ← String.join_append, List.take_append_drop, List.drop_zero]
  rw [bytes_eq_utf8ByteSize, hsplit, String.utf8ByteSize_append]
  exact Nat.le_add_left ..

lemma bytes_le_of_suffix (h : t.writes <:+ t'.writes) : t.bytes ≤ t'.bytes := by
  obtain ⟨more, hmore⟩ := exists_textAfter h 0
  rw [bytes_eq_utf8ByteSize, bytes_eq_utf8ByteSize, text, text, hmore, String.utf8ByteSize_append]
  exact Nat.le_add_right ..

/-- All texts that have been written from `t` to `t'` have been within the limit. -/
def Within (limit : Nat) (t t' : Transcript) : Prop := t'.writes = t.writes ∨ t'.bytes ≤ limit

lemma Within.refl (limit : Nat) (t : Transcript) : t.Within limit t := .inl rfl

lemma Within.trans (h : t.Within limit t') (h' : t'.Within limit t'') : t.Within limit t'' := by
  rcases h' with hsame | hle
  · rcases h with hsame' | hle
    · exact .inl (hsame.trans hsame')
    · exact .inr (bytes_congr hsame ▸ hle)
  · exact .inr hle

/-- What has been written within the limit is not longer than it. -/
lemma Within.utf8ByteSize_le (h : t.Within limit t') :
    (t'.textAfter t.writes.length).utf8ByteSize ≤ limit := by
  rcases h with hsame | hle
  · have hdrop : t'.writes.reverse.drop t.writes.length = [] :=
      List.drop_eq_nil_of_le (by simp [hsame])
    rw [textAfter, hdrop]
    exact Nat.zero_le limit
  · exact Nat.le_trans (t'.utf8ByteSize_textAfter_le _) hle

/-- A text that is past the limit has not been written within it. -/
lemma not_within_of_suffix {text : String} (h : t.writes <:+ t'.writes)
    (hlimit : limit < (t'.append text).bytes) (h' : (t'.append text).writes <:+ t''.writes) :
    ¬ t.Within limit t'' := by
  rintro (hsame | hle)
  · have hlength := h.length_le
    have hlength' := h'.length_le
    rw [hsame, append, List.length_cons] at hlength'
    omega
  · exact absurd (bytes_le_of_suffix h') (by omega)

end Transcript

/-! ## With a limit and without -/

/-- The outcomes without a limit and with one, after a start with the transcript `t`: they are the
same and all has been within the limit, or `text` was refused. It would have taken the transcript
past the limit, and it is what the run without a limit has written next. -/
inductive Outcome.Truncated (limit : Nat) (t : Transcript) : Outcome α → Outcome α → Prop
  | whole {o : Outcome α} : (∀ after ∈ o.after?, t.Within limit after.transcript) →
      Truncated limit t o o
  | refused {o : Outcome α} {text : String} {line : Nat} {final : Machine} :
      t.Within limit final.transcript → limit < (final.transcript.append text).bytes →
      o.Begins (final.transcript.append text) →
      Truncated limit t o (.failed (.outputFailed "sink full" line) final)

lemma Outcome.Truncated.start {limit : Nat} {t t' : Transcript} {o o' : Outcome α}
    (h : o.Truncated limit t' o') (ht : t.Within limit t') : o.Truncated limit t o' := by
  cases h with
  | whole hwithin => exact .whole fun after hafter => ht.trans (hwithin after hafter)
  | refused hwithin hlimit hbegins => exact .refused (ht.trans hwithin) hlimit hbegins

/-- The second run with a limit is the first one without, truncated. What has been written before
the first run stays. -/
structure Run.Truncates (r s : Run α) : Prop where
  writes : ∀ settings m, (r settings m).Begins m.transcript
  truncated : ∀ (settings : Settings) limit m,
    (r { settings with outputLimit := none } m).Truncated limit m.transcript
      (s { settings with outputLimit := some limit } m)

namespace Run.Truncates

/-- A run that does not write. -/
lemma refl {r : Run α}
    (hsilent : ∀ settings m, ∀ after ∈ (r settings m).after?, after.transcript = m.transcript)
    (hsame : ∀ (settings : Settings) limit m,
      r { settings with outputLimit := limit } m = r settings m) :
    Truncates r r where
  writes settings m after hafter :=
    ⟨[], congrArg Transcript.writes (hsilent settings m after hafter).symm⟩
  truncated settings limit m := by
    rw [hsame settings none m, hsame settings (some limit) m]
    refine .whole fun after hafter => ?_
    rw [hsilent settings m after hafter]
    exact .refl limit _

lemma ask (question : Machine → Except RuntimeError α) :
    Truncates (Run.ask question) (Run.ask question) := by
  refine refl (fun settings m => ?_) fun settings limit m => ?_
  · unfold Run.ask
    cases question m <;> rintro _ ⟨⟩ <;> rfl
  · unfold Run.ask
    cases question m <;> rfl

/-- The one action that looks at the limit. -/
lemma write (text : String) (line : Nat) :
    Truncates (Run.write text line) (Run.write text line) where
  writes := (CutsShort.write text line).writes
  truncated settings limit m := by
    simp only [Run.write]
    split
    case isTrue hlimit =>
      refine .refused (.refl limit _) hlimit ?_
      rintro _ ⟨⟩
      exact List.suffix_refl _
    case isFalse hlimit =>
      refine .whole ?_
      rintro _ ⟨⟩
      exact .inr (Nat.le_of_not_lt hlimit)

lemma readProgram (text : String) : Truncates (Run.readProgram text) (Run.readProgram text) := by
  refine refl (fun settings m => ?_) fun _ _ _ => rfl
  unfold Run.readProgram
  split <;> rintro _ ⟨⟩ <;> rfl

lemma bind {r s : Run α} {next next' : α → Run β} (h : Truncates r s)
    (hnext : ∀ a, Truncates (next a) (next' a)) : Truncates (r >>= next) (s >>= next') := by
  have hmore : ∀ settings m t, (r settings m).Begins t → (andThen r next settings m).Begins t :=
    fun settings m t ht => begins_andThen ht fun a => (hnext a).writes settings
  refine ⟨fun settings m => hmore settings m _ (h.writes settings m), fun settings limit m => ?_⟩
  have htruncated := h.truncated settings limit m
  have hbegins := hmore { settings with outputLimit := none } m
  revert htruncated hbegins
  show _ → _ → (andThen r next _ m).Truncated _ _ (andThen s next' _ m)
  unfold andThen
  generalize r { settings with outputLimit := none } m = o,
    s { settings with outputLimit := some limit } m = o'
  rintro (hwithin | ⟨hwithin, hlimit, ht⟩) hbegins
  · cases o with
    | done a after =>
      have hafter := hwithin after rfl
      -- the second part starts within the limit, or where the first part started
      exact ((hnext a).truncated settings limit after).start hafter
    | failed e after => exact .whole hwithin
    | exhausted => exact .whole hwithin
  · exact .refused hwithin hlimit (hbegins _ ht)

/-- A body that is entered and left. -/
lemma nested {body body' : Run Flow} (h : Truncates body body') (line : Nat) :
    Truncates (Run.nested line body) (Run.nested line body') := by
  refine ⟨begins_nested_self h.writes line, fun settings limit m => ?_⟩
  by_cases hdepth : settings.maxDepth ≤ m.depth
  · simp only [Run.nested, if_pos hdepth]
    refine .whole ?_
    rintro _ ⟨⟩
    exact .refl limit _
  · have htruncated := h.truncated settings limit { m with depth := m.depth + 1 }
    have hdepth' : ¬ ({ settings with outputLimit := none } : Settings).maxDepth ≤ m.depth := hdepth
    have hbegins : ∀ t, (body { settings with outputLimit := none }
        { m with depth := m.depth + 1 }).Begins t →
        (Run.nested line body { settings with outputLimit := none } m).Begins t :=
      fun t ht => begins_nested hdepth' ht line
    revert htruncated hbegins
    simp only [Run.nested, if_neg hdepth]
    generalize body { settings with outputLimit := none } { m with depth := m.depth + 1 } = o,
      body' { settings with outputLimit := some limit } { m with depth := m.depth + 1 } = o'
    rintro (hwithin | ⟨hwithin, hlimit, ht⟩) hbegins
    · refine .whole ?_
      cases o with
      | done flow after =>
        rintro _ ⟨⟩
        exact hwithin after rfl
      | failed e after =>
        rintro _ ⟨⟩
        exact hwithin after rfl
      | exhausted => rintro _ ⟨⟩
    · exact .refused hwithin hlimit (hbegins _ ht)

end Run.Truncates

/-- The machines hold the same names, variables and writing. -/
def Machine.SameState (m m' : Machine) : Prop := { m with depth := 0 } = { m' with depth := 0 }

/-- If the run has been ended by a refusal, it was on a machine with the state of `final`. -/
def Outcome.RefusedOnlyOn (final : Machine) (o : Outcome α) : Prop :=
  ∀ cause line after, o = .failed (.outputFailed cause line) after → after.SameState final

open Classical in
/-- The run, unless a refusal ends it on a machine with another state than `final`; then it is
`beyond`. -/
noncomputable def Run.refusedOnlyOn (final : Machine) (beyond r : Run α) : Run α :=
  fun settings m =>
    if (r settings m).RefusedOnlyOn final then r settings m else beyond settings m

/-- The second run does the same as the first, if that is not refused on another machine. -/
def Run.AgreesOn (final : Machine) (r s : Run α) : Prop :=
  ∀ settings m, (r settings m).RefusedOnlyOn final → s settings m = r settings m

namespace Run.AgreesOn

variable {final : Machine}

lemma refl (r : Run α) : AgreesOn final r r := fun _ _ _ => rfl

lemma bind {r s : Run α} {next next' : α → Run β} (h : AgreesOn final r s)
    (hnext : ∀ a, AgreesOn final (next a) (next' a)) :
    AgreesOn final (r >>= next) (s >>= next') := by
  intro settings m
  have hfirst := h settings m
  revert hfirst
  show _ → (andThen r next settings m).RefusedOnlyOn final →
    andThen s next' settings m = andThen r next settings m
  unfold andThen
  cases hr : r settings m with
  | done a after =>
    intro hfirst hrefused
    rw [hfirst (by rintro _ _ _ ⟨⟩)]
    exact hnext a settings after hrefused
  | failed e after =>
    -- the error of the first part is the error of the whole
    intro hfirst hrefused
    rw [hfirst (by rintro cause line _ ⟨⟩; exact hrefused cause line after rfl)]
  | exhausted =>
    intro hfirst _
    rw [hfirst (by rintro _ _ _ ⟨⟩)]

/-- Closing a call leaves the state as it is. -/
lemma nested {body body' : Run Flow} (h : AgreesOn final body body') (line : Nat) :
    AgreesOn final (Run.nested line body) (Run.nested line body') := by
  intro settings m
  by_cases hdepth : settings.maxDepth ≤ m.depth
  · simp only [Run.nested, if_pos hdepth, implies_true]
  · have hbody := h settings { m with depth := m.depth + 1 }
    revert hbody
    simp only [Run.nested, if_neg hdepth]
    cases hr : body settings { m with depth := m.depth + 1 } with
    | done flow after =>
      intro hbody _
      rw [hbody (by rintro _ _ _ ⟨⟩)]
    | failed e after =>
      intro hbody hrefused
      have hafter : (Outcome.failed e after : Outcome Flow).RefusedOnlyOn final := by
        rintro cause line _ ⟨⟩
        exact hrefused cause line { after with depth := after.depth - 1 } rfl
      rw [hbody hafter]
    | exhausted =>
      intro hbody _
      rw [hbody (by rintro _ _ _ ⟨⟩)]

end Run.AgreesOn

/-- A limit on what is written changes nothing about a run, except that it ends where a text does
not fit. The run with another evaluator is `rBy`. -/
structure Run.OnlyTruncated (r : Nat → Run α) (rBy : Evaluator → Run α) : Prop where
  /-- The run is the one with ordinary evaluation. -/
  plain : ∀ bound, rBy (eval bound) = r bound
  /-- The run ends in one way only. -/
  unique : ∀ settings m o o', Ends r settings m o → Ends r settings m o' → o = o'
  /-- If the run without a limit ends, so does the one with a limit. What it has written are the
  first texts that are written without a limit, as wholes and not more than the limit. -/
  accepted : ∀ (settings : Settings) limit m o after,
    Ends r { settings with outputLimit := none } m o → o.after? = some after →
    ∃ o' after', Ends r { settings with outputLimit := some limit } m o' ∧
      o'.after? = some after' ∧ m.transcript.writes <:+ after'.transcript.writes ∧
      after'.transcript.writes <:+ after.transcript.writes ∧
      (∀ count, ∃ more,
        after.transcript.textAfter count = after'.transcript.textAfter count ++ more) ∧
      (after'.transcript.textAfter m.transcript.writes.length).utf8ByteSize ≤ limit
  /-- If all texts fit, the outcome is the same: the same value or error, and the same names,
  variables and writing. -/
  same : ∀ (settings : Settings) limit m o after,
    Ends r { settings with outputLimit := none } m o → o.after? = some after →
    m.transcript.Within limit after.transcript →
    Ends r { settings with outputLimit := some limit } m o
  /-- Otherwise the run with a limit is ended by the refusal of the first text that does not fit,
  and wherever the evaluation of a node is ended by a refusal, the machine holds what it holds at
  the end. -/
  refused : ∀ (settings : Settings) limit m o after,
    Ends r { settings with outputLimit := none } m o → o.after? = some after →
    ¬ m.transcript.Within limit after.transcript →
    ∃ text line final, Ends r { settings with outputLimit := some limit } m
        (.failed (.outputFailed "sink full" line) final) ∧
      m.transcript.Within limit final.transcript ∧
      limit < (final.transcript.append text).bytes ∧
      (final.transcript.append text).writes <:+ after.transcript.writes ∧
      ∀ bound beyond, r bound { settings with outputLimit := some limit } m ≠ .exhausted →
        rBy (evalBy readProgram (refusedOnlyOn final beyond) bound)
            { settings with outputLimit := some limit } m =
          .failed (.outputFailed "sink full" line) final

/-- Runs that obey the laws. -/
lemma Run.OnlyTruncated.of_laws {r : Nat → Run α} {rBy : Evaluator → Run α}
    (hplain : ∀ bound, rBy (eval bound) = r bound) (hbound : Settles r)
    (hsink : ∀ bound, Truncates (r bound) (r bound))
    (hrefusal : ∀ final beyond bound,
      AgreesOn final (r bound) (rBy (evalBy readProgram (refusedOnlyOn final beyond) bound))) :
    OnlyTruncated r rBy := by
  -- with the bound of the first run the second one has ended, too
  have hcases : ∀ (settings : Settings) limit m o,
      Ends r { settings with outputLimit := none } m o →
      ∃ o', Ends r { settings with outputLimit := some limit } m o' ∧
        (∀ after' ∈ o'.after?, m.transcript.writes <:+ after'.transcript.writes) ∧
        o.Truncated limit m.transcript o' := by
    rintro settings limit m _ ⟨hend, bound, rfl⟩
    have htruncated := (hsink bound).truncated settings limit m
    refine ⟨_, ⟨?_, bound, rfl⟩, (hsink bound).writes _ m, htruncated⟩
    intro hexhausted
    rw [hexhausted] at htruncated
    generalize r bound { settings with outputLimit := none } m = o at hend htruncated
    cases htruncated
    exact hend rfl
  refine ⟨hplain, fun settings m o o' h h' => h.unique hbound h', ?_, ?_, ?_⟩
  · intro settings limit m o after hends hafter
    obtain ⟨o', hends', hbegins, htruncated⟩ := hcases settings limit m o hends
    cases htruncated with
    | whole hwithin =>
      exact ⟨o, after, hends', hafter, hbegins after hafter, List.suffix_refl _,
        fun count => ⟨"", String.append_empty.symm⟩, (hwithin after hafter).utf8ByteSize_le⟩
    | @refused text line final hwithin _ ht =>
      have hsuffix : final.transcript.writes <:+ after.transcript.writes :=
        (List.suffix_cons text _).trans (ht after hafter)
      exact ⟨_, final, hends', rfl, hbegins final rfl, hsuffix,
        Transcript.exists_textAfter hsuffix, hwithin.utf8ByteSize_le⟩
  · intro settings limit m o after hends hafter hfits
    obtain ⟨o', hends', hbegins, htruncated⟩ := hcases settings limit m o hends
    cases htruncated with
    | whole _ => exact hends'
    | refused _ hlimit ht =>
      exact absurd hfits
        (Transcript.not_within_of_suffix (hbegins _ rfl) hlimit (ht after hafter))
  · intro settings limit m o after hends hafter hfits
    obtain ⟨o', hends', -, htruncated⟩ := hcases settings limit m o hends
    cases htruncated with
    | whole hwithin => exact absurd (hwithin after hafter) hfits
    | @refused text line final hwithin hlimit ht =>
      refine ⟨text, line, final, hends', hwithin, hlimit, ht after hafter, ?_⟩
      intro bound beyond hend
      have hrun := Ends.unique hbound ⟨hend, bound, rfl⟩ hends'
      rw [← hrun]
      refine hrefusal final beyond bound _ m ?_
      rw [hrun]
      rintro _ _ _ ⟨⟩
      exact rfl

end Logo
