import Logo.Program.Grammar
import Logo.Proofs.Text.SmallLetters

/-!
# Keywords in any case

A word is told to be a keyword in two ways: by its small form, which knows the letters of all
alphabets, and by comparing letters in a way that overlooks the case of the basic alphabet and
nothing else. The two differ on some words, because the Kelvin sign is a `k` to the first and not to
the second. No keyword has that letter, and no other foreign letter has a small form in the basic
alphabet, so for keywords the two ways are the same.

* `lower_eq_iff_sameLetters`: the two ways agree on words without a `k`.
* `Grammar.isKeyword_iff`: a word is a keyword if its small form is one.
* `Grammar.ofWord_eq_definition_iff`, `Grammar.ofWord_eq_stray_iff`: the words `to` and `end`.
-/

namespace Logo

namespace Text

/-- The small letters of the basic alphabet that are the small form of no foreign letter. -/
def plainLetters : List Char := "abcdefghijlmnopqrstuvwxyz".toList

/-! ## Single letters -/

/-- What is computed for some characters. There are finitely many characters, so that `decide` by
itself might go through all of them. -/
lemma forall_mem_of_all {cs : List Char} {P : Char → Prop} [DecidablePred P]
    (h : cs.all (fun c => decide (P c)) = true) : ∀ c ∈ cs, P c := by
  intro c hc
  exact of_decide_eq_true (List.all_eq_true.mp h c hc)

/-- Only the basic alphabet leads to a plain letter. -/
lemma offset_of_leads_to_plain : ∀ d ∈ plainLetters, ∀ r ∈ lowerRuns,
    r.contains (d.toNat - r.offset).toNat = true → r.offset = 32 :=
  forall_mem_of_all (by decide +kernel)

lemma plain_facts : ∀ d ∈ plainLetters, d.toLower = d ∧ 64 < d.toNat ∧
    (Char.ofNat (d.toNat - 32)).toLower = d ∧ d ≠ 'Σ' ∧ Char.ofNat (d.toNat - 32) ≠ 'Σ' ∧
    lowerChar d = [d] ∧ lowerChar (Char.ofNat (d.toNat - 32)) = [d] :=
  forall_mem_of_all (by decide +kernel)

/-- A letter has a case to change, or it stays. -/
lemma toLower_cases (c : Char) : c.toLower = c ∨ c.toLower.toNat = c.toNat + 32 := by
  unfold Char.toLower
  split
  · next h =>
    right
    have hle : c.val.toNat ≤ 90 := UInt32.le_iff_toNat_le.mp h.2
    show (c.val + ('a'.val - 'A'.val)).toNat = c.val.toNat + 32
    have hoffset : ('a'.val - 'A'.val).toNat = 32 := by decide
    rw [UInt32.toNat_add, hoffset, Nat.mod_eq_of_lt (by omega)]
  · exact .inl rfl

/-- A code point is that of the letter it stands for, unless it stands for none. -/
lemma eq_toNat_of_ofNat {n : Nat} {d : Char} (h : Char.ofNat n = d) (hd : d.toNat ≠ 0) :
    n = d.toNat := by
  by_cases hvalid : n.isValidChar
  · rw [← h, Char.ofNat, dif_pos hvalid]
    rfl
  · rw [Char.ofNat, dif_neg hvalid] at h
    exact absurd (congrArg Char.toNat h).symm hd

lemma toLower_of_lowerChar {c d : Char} (hd : d ∈ plainLetters) (h : lowerChar c = [d]) :
    c.toLower = d := by
  obtain ⟨hsame, hlarge, hcapital, -⟩ := plain_facts d hd
  rw [lowerChar] at h
  split at h
  · simp at h
  · have hcode := eq_toNat_of_ofNat (List.singleton_inj.mp h) (by omega)
    rcases counterpart_cases lowerRuns c.toNat with hc | ⟨r, hr, hcontains, hc⟩
    · have hcd : c = d := by rw [← Char.ofNat_toNat c, ← Char.ofNat_toNat d, ← hcode, hc]
      rw [hcd, hsame]
    · -- the run that leads to a plain letter is that of the basic capital letters
      rw [hc] at hcode
      have hback : (d.toNat - r.offset).toNat = c.toNat := by omega
      have hoffset := offset_of_leads_to_plain d hd r hr (by rw [hback]; exact hcontains)
      have hcd : c = Char.ofNat (d.toNat - 32) := by
        rw [← Char.ofNat_toNat c]
        congr 1
        omega
      rw [hcd, hcapital]

lemma lowerChar_of_toLower {c d : Char} (hd : d ∈ plainLetters) (h : c.toLower = d) :
    c ≠ 'Σ' ∧ lowerChar c = [d] := by
  obtain ⟨-, -, -, hsigma, hsigma', hlower, hlower'⟩ := plain_facts d hd
  rcases toLower_cases c with hc | hc
  · obtain rfl : c = d := hc.symm.trans h
    exact ⟨hsigma, hlower⟩
  · have hcd : c = Char.ofNat (d.toNat - 32) := by
      rw [← h, hc, Nat.add_sub_cancel, Char.ofNat_toNat]
    exact hcd ▸ ⟨hsigma', hlower'⟩

/-! ## Words -/

lemma lowerFrom_eq_iff {ds : List Char} (hds : ∀ d ∈ ds, d ∈ plainLetters)
    (before cs : List Char) :
    lowerFrom before cs = ds ↔ cs.map Char.toLower = ds := by
  induction cs generalizing before ds with
  | nil => simp [lowerFrom]
  | cons c cs ih =>
    have hsigma : ∀ b : Bool, (if b then 'ς' else 'σ') ∉ plainLetters := by decide
    rw [lowerFrom, List.map_cons]
    constructor
    · intro h
      split at h
      · rw [← h] at hds
        exact absurd (hds _ List.mem_cons_self) (hsigma _)
      · next hc =>
        -- the dotted capital I is the one letter with two characters, the second of them not plain
        by_cases hdotted : c = 'İ'
        · rw [← h, hdotted] at hds
          have hmark : '\u0307' ∈ lowerChar 'İ' := by decide
          exact absurd (hds _ (List.mem_append_left _ hmark)) (by decide)
        · obtain ⟨d, hd⟩ : ∃ d, lowerChar c = [d] := ⟨_, if_neg hdotted⟩
          rw [hd, List.singleton_append] at h
          rw [← h] at hds
          obtain ⟨hplain, hrest⟩ := List.forall_mem_cons.mp hds
          rw [toLower_of_lowerChar hplain hd, (ih hrest _).mp rfl, h]
    · intro h
      rw [← h] at hds
      obtain ⟨hplain, hrest⟩ := List.forall_mem_cons.mp hds
      obtain ⟨hc, hlower⟩ := lowerChar_of_toLower hplain rfl
      rw [if_neg hc, hlower, (ih hrest _).mpr rfl, ← h, List.singleton_append]

/-- **A word is in small letters what it is up to the case of the basic alphabet**, if that has no
`k`. -/
theorem lower_eq_iff_sameLetters {keyword : String} (h : ∀ d ∈ keyword.toList, d ∈ plainLetters)
    (word : String) : lower word = keyword ↔ sameLetters word keyword = true := by
  have hsmall : keyword.toList.map Char.toLower = keyword.toList :=
    (List.map_congr_left fun d hd => (plain_facts d (h d hd)).1).trans (List.map_id _)
  rw [sameLetters, beq_iff_eq, hsmall, ← lowerFrom_eq_iff h [], lower]
  constructor
  · rintro rfl
    rw [String.toList_ofList]
  · intro heq
    rw [heq, String.ofList_toList]

lemma sameLetters_comm (s t : String) : sameLetters s t = sameLetters t s := by
  rw [sameLetters, sameLetters, Bool.eq_iff_iff, beq_iff_eq, beq_iff_eq]
  exact eq_comm

end Text

namespace Grammar

/-! ## Keywords -/

lemma plain_of_mem_keywords :
    ∀ keyword ∈ keywords, ∀ d ∈ keyword.toList, d ∈ Text.plainLetters := by
  have hall : ∀ keyword ∈ keywords,
      keyword.toList.all (fun d => decide (d ∈ Text.plainLetters)) = true := by decide
  intro keyword hkeyword
  exact Text.forall_mem_of_all (hall keyword hkeyword)

/-- The small form decides whether a word is a keyword. -/
theorem isKeyword_iff (word : String) : isKeyword word = true ↔ Text.lower word ∈ keywords := by
  rw [isKeyword, List.any_eq_true]
  constructor
  · rintro ⟨keyword, hmem, hsame⟩
    rw [Text.sameLetters_comm] at hsame
    rwa [(Text.lower_eq_iff_sameLetters (plain_of_mem_keywords keyword hmem) word).mpr hsame]
  · intro hmem
    refine ⟨Text.lower word, hmem, ?_⟩
    rw [Text.sameLetters_comm]
    exact (Text.lower_eq_iff_sameLetters (plain_of_mem_keywords _ hmem) word).mp rfl

@[simp] lemma isKeyword_lower (word : String) : isKeyword (Text.lower word) = isKeyword word := by
  rw [Bool.eq_iff_iff, isKeyword_iff, isKeyword_iff, Text.lower_lower]

/-- A word that opens a call is no keyword. -/
lemma isKeyword_of_call {word : String} (h : Opening.ofWord word = .call) :
    isKeyword word = false := by
  rw [Bool.eq_false_iff, ne_eq, isKeyword_iff]
  intro hmem
  simp only [keywords, List.mem_cons, List.not_mem_nil, or_false] at hmem
  rcases hmem with hword | hword | hword | hword | hword | hword <;>
    simp [Opening.ofWord, hword] at h

/-- The word `to`, in any case of its letters, opens a definition. -/
lemma ofWord_eq_definition_iff (word : String) :
    Opening.ofWord word = .definition ↔ Text.sameLetters word "to" = true := by
  rw [← Text.lower_eq_iff_sameLetters (plain_of_mem_keywords "to" (by decide))]
  constructor
  · intro h
    unfold Opening.ofWord at h
    split at h
    case h_1 hword => exact hword
    all_goals cases h
  · intro h
    simp [Opening.ofWord, h]

/-- The word `end`, in any case of its letters, is the one that opens nothing. -/
lemma ofWord_eq_stray_iff (word : String) :
    Opening.ofWord word = .stray ↔ Text.sameLetters word "end" = true := by
  rw [← Text.lower_eq_iff_sameLetters (plain_of_mem_keywords "end" (by decide))]
  constructor
  · intro h
    unfold Opening.ofWord at h
    split at h
    case h_6 hword => exact hword
    all_goals cases h
  · intro h
    simp [Opening.ofWord, h]

lemma not_sameLetters_of_not_keyword {word keyword : String} (h : isKeyword word = false)
    (hmem : keyword ∈ keywords) : Text.sameLetters word keyword = false := by
  rw [isKeyword, List.any_eq_false] at h
  rw [Text.sameLetters_comm]
  exact Bool.eq_false_iff.mpr (h keyword hmem)

end Grammar

end Logo
