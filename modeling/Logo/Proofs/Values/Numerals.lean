import Logo.Proofs.Lexing.MaximalMunch
import Logo.Proofs.Text.BasicLetters
import Logo.Proofs.Values.Doubles
import Logo.Value

/-!
# Words that spell numbers

The text of a finite double is that of a number token, perhaps behind a minus, so it is a word that
spells a number. In the other direction, what a word spells is always a number: the name for what is
none has letters that no numeral has.

* `isSome_spelledNumber?_text`: the text of a finite double spells a number.
* `isNaN_of_spelledNumber?`: what a word spells is a number.
-/

namespace Logo

open Number

/-! ## Texts of doubles -/

lemma isDigit_of_mem_toDigits {n : Nat} {c : Char} (h : c ∈ Nat.toDigits 10 n) :
    c.isDigit = true := Nat.isDigit_of_mem_toDigits (by decide) (by decide) h

/-- A decimal is written like a number in a program. -/
lemma Number.Decimal.toList_text_mem (d : Decimal) : d.text.toList ∈ Pattern.number.language := by
  have hdigits : ∀ c ∈ Nat.toDigits 10 d.digits, c.isDigit = true :=
    fun c hc => isDigit_of_mem_toDigits hc
  have hzeros : ∀ n, ∀ c ∈ List.replicate n '0', c.isDigit = true := by
    intro n c hc
    rw [List.eq_of_mem_replicate hc]
    rfl
  have hne : Nat.toDigits 10 d.digits ≠ [] := Nat.toDigits_ne_nil
  rw [Decimal.text, String.toList_ofList, mem_number]
  split
  · refine .inl ⟨by simp [hne], fun c hc => ?_⟩
    rcases List.mem_append.1 hc with hc | hc
    · exact hdigits c hc
    · exact hzeros _ c hc
  split
  · next hplaces =>
    refine .inr ⟨_, _, rfl, .inl ?_, fun c hc => hdigits c (List.mem_of_mem_take hc),
      fun c hc => hdigits c (List.mem_of_mem_drop hc)⟩
    rw [Ne, List.take_eq_nil_iff, not_or]
    exact ⟨by omega, hne⟩
  · refine .inr ⟨['0'], _, rfl, .inl (by simp), hzeros 1, fun c hc => ?_⟩
    rcases List.mem_append.1 hc with hc | hc
    · exact hzeros _ c hc
    · exact hdigits c hc

lemma isNumeral_of_mem_number {l : List Char} (hl : l ∈ Pattern.number.language) :
    ∀ c ∈ l, Value.isNumeral c = true := by
  intro c hc
  have hchar := digits_of_mem_number hl c hc
  unfold Value.isNumeral
  rcases Bool.or_eq_true_iff.1 hchar with h | h <;> simp [h]

/-- A number as it stands in a program is spelled by its letters, also behind a minus. -/
lemma isSome_spelledNumber? {l : List Char} (hl : l ∈ Pattern.number.language) (negative : Bool) :
    (Value.spelledNumber? (if negative then "-" ++ String.ofList l else String.ofList l)).isSome =
      true := by
  have hall : l.all Value.isNumeral = true := List.all_eq_true.2 (isNumeral_of_mem_number hl)
  cases negative with
  | false =>
    show (Value.spelledNumber? (String.ofList l)).isSome = true
    rw [Value.spelledNumber?, String.toList_ofList, if_pos hall]
    exact isSome_read?_number hl
  | true =>
    have hminus : ("-" ++ String.ofList l).toList = '-' :: l := by simp
    have hnumeral : ('-' :: l).all Value.isNumeral = true := by
      rw [List.all_cons, hall]
      decide
    show (Value.spelledNumber? ("-" ++ String.ofList l)).isSome = true
    rw [Value.spelledNumber?, hminus, if_pos hnumeral, Number.read?, hminus]
    obtain ⟨x, hx⟩ := Option.isSome_iff_exists.1 (isSome_readDigits?_number hl)
    simp [splitSign, hx]

/-- The text of a finite double spells a number. -/
lemma isSome_spelledNumber?_text {x : Float} {b : Binary} (h : parts x = .finite b) :
    (Value.spelledNumber? (Number.text x)).isSome = true := by
  have htext : ∃ l ∈ Pattern.number.language, Number.text x =
      if b.negative then "-" ++ String.ofList l else String.ofList l := by
    by_cases hzero : b.mantissa = 0
    · have hmem : ['0'] ∈ Pattern.number.language :=
        mem_number.2 (.inl ⟨by simp, List.forall_mem_singleton.2 rfl⟩)
      exact ⟨['0'], hmem, by simp [Number.text, h, hzero]⟩
    · have hmem := b.shortest.toList_text_mem
      exact ⟨_, hmem, by simp [Number.text, h, hzero]⟩
  obtain ⟨l, hl, htext⟩ := htext
  rw [htext]
  exact isSome_spelledNumber? hl b.negative

lemma Number.text_ne_empty (x : Float) : Number.text x ≠ "" := by
  intro hempty
  cases hparts : parts x with
  | notANumber => simp [Number.text, hparts] at hempty
  | infinite negative => cases negative <;> simp [Number.text, hparts] at hempty
  | finite b =>
    have hspelled := isSome_spelledNumber?_text hparts
    rw [hempty] at hspelled
    exact absurd hspelled (by decide)

/-! ## What words spell -/

/-- Reading digits gives a number. -/
lemma isNaN_of_readDigits? {l : List Char} {x : Float} (h : readDigits? l = some x) :
    x.isNaN = false := by
  have hdecimal : ∀ digits exponent, (ofDecimal digits exponent).isNaN = false := by
    intro digits exponent
    unfold ofDecimal
    dsimp only
    split
    · decide +kernel
    split
    · decide +kernel
    · exact isNaN_ofScientific _ _ _
  simp only [readDigits?, Option.ite_none_left_eq_some, Option.map_eq_some_iff] at h
  obtain ⟨-, e, -, rfl⟩ := h
  exact hdecimal _ _

/-- The names of the values without digits have letters that no numeral has. -/
lemma readName?_of_numerals {l : List Char} (h : ∀ c ∈ l, Value.isNumeral c = true) :
    readName? l = none := by
  have hletters : ∀ c, Value.isNumeral c = true → c.toLower ≠ 'n' := by
    intro c hc
    rcases Text.toLower_eq_or_mem c with heq | hcapital
    · rw [heq]
      rintro rfl
      exact absurd hc (by decide)
    · have hall : Text.basicCapitals.all fun c => !Value.isNumeral c || c.toLower != 'n' := by
        decide +kernel
      simpa [hc] using List.all_eq_true.1 hall c hcapital
  have hname : ∀ name : String, 'n' ∈ name.toList.map Char.toLower →
      Text.sameLetters (String.ofList l) name = false := by
    intro name hname
    rw [Text.sameLetters, String.toList_ofList, beq_eq_false_iff_ne]
    intro heq
    rw [← heq] at hname
    obtain ⟨c, hc, hlower⟩ := List.mem_map.1 hname
    exact hletters c (h c hc) hlower
  simp [readName?, hname "inf" (by decide), hname "infinity" (by decide), hname "nan" (by decide)]

/-- What a word spells is a number. -/
lemma isNaN_of_spelledNumber? {text : String} {x : Float}
    (h : Value.spelledNumber? text = some x) : x.isNaN = false := by
  unfold Value.spelledNumber? at h
  split at h
  · next hall =>
    rcases hsplit : splitSign text.toList with ⟨negative, size⟩
    have hsize : ∀ c ∈ size, Value.isNumeral c = true := by
      intro c hc
      refine List.all_eq_true.1 hall c ?_
      unfold splitSign at hsplit
      split at hsplit <;> simp_all
    rw [Number.read?, hsplit] at h
    obtain ⟨y, hy, rfl⟩ := Option.map_eq_some_iff.1 h
    have hnumber : y.isNaN = false := by
      rw [readName?_of_numerals hsize] at hy
      exact isNaN_of_readDigits? (l := size) (by simpa using hy)
    split
    · exact isNaN_neg hnumber
    · exact hnumber
  · cases h

end Logo
