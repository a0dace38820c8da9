import Logo.Text.Case
import Mathlib.Tactic.Common

/-!
# Small letters stay small

Names are compared after `lower`, and what the reader stores of a name has already been put in small
letters once. This file shows that a second time changes nothing: the small form of a letter is no
capital letter again. For that, each run of the table `lowerRuns` is led past all runs of the table.
Mostly it is led to another range; where it is not, two alternating alphabets take turns in one range
and the run is led to the places between the capital letters.

* `lower_lower`: a text in small letters is its own small form.
-/

namespace Logo.Text

/-! ## Runs that lead past a table -/

/-- The code points from `lo` to `hi` meet no run of the sorted table. If `turns` holds, only every
other code point is meant. -/
def avoids (lo hi : Nat) (turns : Bool) : List CaseRun → Bool
  | [] => true
  | r :: rs =>
    Nat.blt hi r.first ||
      ((Nat.blt r.last lo || (turns && r.step == 2 && (lo + r.first) % 2 == 1)) &&
        avoids lo hi turns rs)

/-- Where the run begins after it is led away. -/
def CaseRun.start (r : CaseRun) : Nat := (r.first + r.offset).toNat

/-- Where the run ends after it is led away. -/
def CaseRun.stop (r : CaseRun) : Nat := (r.last + r.offset).toNat

/-- The run is led past all runs of the sorted table. -/
def CaseRun.leadsPast (table : List CaseRun) (r : CaseRun) : Bool :=
  decide (0 ≤ r.first + r.offset) && avoids r.start r.stop (r.step == 2 || r.first == r.last) table

lemma counterpart_of_avoids {lo hi d : Nat} {turns : Bool} {table : List CaseRun}
    (h : avoids lo hi turns table = true) (hlo : lo ≤ d) (hhi : d ≤ hi)
    (hturns : turns = true → d % 2 = lo % 2) : counterpart table d = d := by
  induction table with
  | nil => rfl
  | cons r rs ih =>
    simp only [avoids, Nat.blt_eq, Bool.or_eq_true, Bool.and_eq_true, beq_iff_eq] at h
    rw [counterpart]
    split
    · rfl
    rcases h with h | ⟨h, hrest⟩
    · omega
    · have hcontains : r.contains d = false := by
        rw [CaseRun.contains, Bool.eq_false_iff]
        simp only [ne_eq, Bool.and_eq_true, decide_eq_true_eq, beq_iff_eq]
        rintro ⟨⟨hfirst, hlast⟩, hstep⟩
        rcases h with h | ⟨⟨ht, htwo⟩, hodd⟩
        · omega
        · have hd := hturns ht
          rw [htwo] at hstep
          omega
      rw [hcontains]
      exact ih hrest

/-- A member of a run that is led past a table is led to a code point that the table leaves alone. -/
lemma CaseRun.counterpart_led {r : CaseRun} {table : List CaseRun} (h : r.leadsPast table = true)
    {c : Nat} (hc : r.contains c = true) :
    counterpart table (c + r.offset).toNat = (c + r.offset).toNat := by
  simp only [leadsPast, Bool.and_eq_true, decide_eq_true_eq] at h
  simp only [contains, Bool.and_eq_true, decide_eq_true_eq, beq_iff_eq] at hc
  obtain ⟨hstart, havoids⟩ := h
  obtain ⟨⟨hfirst, hlast⟩, hstep⟩ := hc
  refine counterpart_of_avoids havoids ?_ ?_ ?_
  · rw [start]
    omega
  · rw [stop]
    omega
  · intro hturns
    simp only [Bool.or_eq_true, beq_iff_eq] at hturns
    rw [start]
    rcases hturns with htwo | hone
    · rw [htwo] at hstep
      omega
    · have : c = r.first := by omega
      rw [this]

/-- The dotted capital I, which the table of small forms leaves out, as a table of its own. -/
def dottedI : List CaseRun := [⟨304, 304, 1, 1⟩]

/-- No capital letter is led to a capital letter. -/
lemma lowerRuns_leadPast :
    ∀ r ∈ lowerRuns, r.leadsPast lowerRuns = true ∧ r.leadsPast dottedI = true := by
  decide +kernel

/-! ## Letters that stay as they are -/

/-- The counterpart of a code point is the point itself, or a run of the table leads to it. -/
lemma counterpart_cases (table : List CaseRun) (c : Nat) :
    counterpart table c = c ∨
      ∃ r ∈ table, r.contains c = true ∧ counterpart table c = (c + r.offset).toNat := by
  induction table with
  | nil => exact .inl rfl
  | cons r rs ih =>
    rw [counterpart]
    split
    · exact .inl rfl
    split
    · next h => exact .inr ⟨r, List.mem_cons_self, h, rfl⟩
    · rcases ih with h | ⟨s, hs, hc, h⟩
      · exact .inl h
      · exact .inr ⟨s, List.mem_cons_of_mem r hs, hc, h⟩

/-- The letter is its own small form, in all places of a word. -/
def Settled (c : Char) : Prop := c ≠ 'Σ' ∧ lowerChar c = [c]

lemma settled_of_counterpart {c : Char} (hc : c ≠ 'İ')
    (h : counterpart lowerRuns c.toNat = c.toNat) :
    Settled c := by
  refine ⟨?_, ?_⟩
  · rintro rfl
    exact absurd h (by decide)
  · rw [lowerChar, if_neg hc, h, Char.ofNat_toNat]

/-- A run of the table leads to a settled letter. -/
lemma settled_led {r : CaseRun} (hr : r ∈ lowerRuns) {c : Nat} (hc : r.contains c = true) :
    Settled (Char.ofNat (c + r.offset).toNat) := by
  obtain ⟨hpast, hdotted⟩ := lowerRuns_leadPast r hr
  have hled := r.counterpart_led hpast hc
  have hne : (c + r.offset).toNat ≠ 304 := by
    intro h
    have hsame := r.counterpart_led hdotted hc
    rw [h] at hsame
    exact absurd hsame (by decide)
  by_cases hvalid : (c + r.offset).toNat.isValidChar
  · have htoNat : (Char.ofNat (c + r.offset).toNat).toNat = (c + r.offset).toNat := by
      rw [Char.ofNat, dif_pos hvalid]
      rfl
    refine settled_of_counterpart ?_ (by rw [htoNat, hled])
    intro h
    rw [h] at htoNat
    exact hne htoNat.symm
  · have hzero : Char.ofNat (c + r.offset).toNat = Char.ofNat 0 := by
      rw [Char.ofNat, dif_neg hvalid]
      rfl
    rw [hzero]
    exact settled_of_counterpart (by decide) (by decide)

/-- The small form of a letter is settled. -/
lemma settled_of_mem_lowerChar {c d : Char} (h : d ∈ lowerChar c) : Settled d := by
  rw [lowerChar] at h
  split at h
  · rcases List.mem_cons.mp h with rfl | h
    · exact ⟨by decide, by decide⟩
    · obtain rfl := List.mem_singleton.mp h
      exact ⟨by decide, by decide +kernel⟩
  · next hc =>
    obtain rfl := List.mem_singleton.mp h
    rcases counterpart_cases lowerRuns c.toNat with hsame | ⟨r, hr, hcontains, hled⟩
    · rw [hsame, Char.ofNat_toNat]
      exact settled_of_counterpart hc hsame
    · rw [hled]
      exact settled_led hr hcontains

/-! ## Whole texts -/

lemma settled_of_mem_lowerFrom {before cs : List Char} {d : Char} (h : d ∈ lowerFrom before cs) :
    Settled d := by
  induction cs generalizing before with
  | nil => simp [lowerFrom] at h
  | cons c cs ih =>
    rw [lowerFrom, List.mem_append] at h
    rcases h with h | h
    · split at h
      · -- a capital sigma has one of two small forms
        obtain rfl := List.mem_singleton.mp h
        split
        · exact ⟨by decide, by decide +kernel⟩
        · exact ⟨by decide, by decide +kernel⟩
      · exact settled_of_mem_lowerChar h
    · exact ih h

lemma lowerFrom_of_settled {before cs : List Char} (h : ∀ c ∈ cs, Settled c) :
    lowerFrom before cs = cs := by
  induction cs generalizing before with
  | nil => rfl
  | cons c cs ih =>
    obtain ⟨hsigma, hlower⟩ := h c List.mem_cons_self
    rw [lowerFrom, if_neg hsigma, hlower, ih fun d hd => h d (List.mem_cons_of_mem c hd)]
    rfl

/-- **A text in small letters is its own small form.** -/
@[simp] theorem lower_lower (s : String) : lower (lower s) = lower s := by
  rw [lower, lower, String.toList_ofList]
  exact congrArg String.ofList (lowerFrom_of_settled fun _ hc => settled_of_mem_lowerFrom hc)

end Logo.Text
