import Logo.Proofs.Running.Law

/-!
# The bound on the recursion

Evaluation takes a bound on the depth of its recursion, which a program cannot see. A run that ends
with one bound ends in the same way with every larger one, so that it makes sense to say how a run
ends without naming a bound.

* `boundLaw`: the law of evaluation that says this.
* `Run.Ends`: the run ends with an outcome, with some bound.
* `Run.Ends.unique`: there is at most one such outcome.
-/

namespace Logo

variable {α β : Type}

/-! ## The law of the bound -/

/-- The second run ends as the first one does, if that ends. -/
def Run.Outlasts (r s : Run α) : Prop :=
  ∀ settings m, r settings m = .exhausted ∨ s settings m = r settings m

namespace Run.Outlasts

lemma refl (r : Run α) : Outlasts r r := fun _ _ => .inr rfl

lemma bind {r s : Run α} {next next' : α → Run β} (h : Outlasts r s)
    (hnext : ∀ a, Outlasts (next a) (next' a)) : Outlasts (r >>= next) (s >>= next') := by
  intro settings m
  show andThen r next settings m = _ ∨ andThen s next' settings m = andThen r next settings m
  unfold andThen
  rcases h settings m with hr | hs
  · exact .inl (by rw [hr])
  · rw [hs]
    cases r settings m with
    | done a after => exact hnext a settings after
    | failed e after => exact .inr rfl
    | exhausted => exact .inl rfl

lemma nested {body body' : Run Flow} (h : Outlasts body body') (line : Nat) :
    Outlasts (Run.nested line body) (Run.nested line body') := by
  intro settings m
  unfold Run.nested
  split
  · exact .inr rfl
  · rcases h settings { m with depth := m.depth + 1 } with hr | hs
    · exact .inl (by rw [hr])
    · exact .inr (by rw [hs])

end Run.Outlasts

open Run in
/-- What ends with a bound ends in the same way with a larger one. -/
def boundLaw : Run.Law where
  lines := id
  Rel := Outlasts
  give _ := .refl _
  fail h _ := by
    rw [RuntimeError.mapLine_id, RuntimeError.mapLine_id] at h
    subst h
    exact .refl _
  giveUp := .refl _
  andThen := Outlasts.bind
  settings h := fun settings m => h settings settings rfl rfl settings m
  resolve := by
    rintro _ _ _ name l _ rfl h
    exact (Outlasts.refl _).bind fun c => h c c rfl
  leave := by
    rintro name flow l _ rfl
    exact .refl _
  readVariable := by
    rintro frame name l _ rfl
    exact .refl _
  setVariable _ _ _ := .refl _
  write := by
    rintro text l _ rfl
    exact .refl _
  define h := by
    rw [Procedure.mapLines_id, Procedure.mapLines_id] at h
    subst h
    exact .refl _
  readProgram _ := .refl _
  openFrame _ _ := .refl _
  nested := by
    rintro l _ body body' rfl h
    exact h.nested l

/-- A larger bound keeps what evaluation leads to. -/
lemma outlasts_eval {bound bound' : Nat} (hle : bound ≤ bound') :
    boundLaw.Evaluators (eval bound) (eval bound') := by
  induction bound generalizing bound' with
  | zero => exact fun _ _ _ _ _ _ => .inl rfl
  | succ bound ih =>
    cases bound' with
    | zero => cases hle
    | succ bound' => exact Run.Law.step (ih (Nat.le_of_succ_le_succ hle))

/-! ## How a run ends -/

/-- Larger bounds keep the outcome. -/
def Run.Settles (r : Nat → Run α) : Prop :=
  ∀ ⦃bound bound'⦄, bound ≤ bound' → Outlasts (r bound) (r bound')

/-- The run ends with the outcome, with some bound. -/
def Run.Ends (r : Nat → Run α) (settings : Settings) (m : Machine) (o : Outcome α) : Prop :=
  o ≠ .exhausted ∧ ∃ bound, r bound settings m = o

lemma Session.settles_run (source : String) : Run.Settles fun bound => Session.run bound source :=
  fun _ _ hle => Run.Law.sessionRun (outlasts_eval hle) source

lemma Session.settles_evaluate (source : String) :
    Run.Settles fun bound => Session.evaluate bound source :=
  fun _ _ hle => Run.Law.sessionEvaluate (outlasts_eval hle) source

namespace Run.Ends

variable {r : Nat → Run α} {settings : Settings} {m : Machine} {o o' : Outcome α}

/-- A run that ends does so with all large enough bounds. -/
lemma exists_bound (hr : Settles r) (h : Ends r settings m o) :
    ∃ bound, ∀ bound', bound ≤ bound' → r bound' settings m = o := by
  obtain ⟨hend, bound, hbound⟩ := h
  refine ⟨bound, fun bound' hle => ?_⟩
  rcases hr hle settings m with hexhausted | hsame
  · exact absurd (hbound.symm.trans hexhausted) hend
  · exact hsame.trans hbound

/-- A run ends in one way only. -/
theorem unique (hr : Settles r) (h : Ends r settings m o) (h' : Ends r settings m o') : o = o' := by
  obtain ⟨bound, hbound⟩ := h.exists_bound hr
  obtain ⟨bound', hbound'⟩ := h'.exists_bound hr
  rw [← hbound (max bound bound') (Nat.le_max_left ..),
    hbound' (max bound bound') (Nat.le_max_right ..)]

end Run.Ends

end Logo
