import Logo.Proofs.Values.Shortest

/-!
# Whole numbers among the doubles

A double is exactly a whole number if its parts multiply out to it. Such a double is taken for that
number wherever a whole number is asked for, as long as the number has at most 64 bits.

* `IsExactly`: the double is the whole number.
* `toInteger_of_isExactly`, `toInteger_eq_ok_iff`: the whole number that is taken from it.
* `Value.asInteger_of_isExactly`, `Value.asInteger_eq_ok_iff`: inputs that have to be whole numbers.
-/

namespace Logo.Number

/-- The rational number that a finite double is. -/
def Binary.value (b : Binary) : ℚ :=
  (if b.negative then -1 else 1) * (b.mantissa * 2 ^ b.exponent)

/-- The double is exactly the whole number `i`. -/
def IsExactly (x : Float) (i : ℤ) : Prop := ∃ b, parts x = .finite b ∧ b.value = i

namespace Binary

variable {b : Binary}

/-- If the size is whole, nothing is lost by leaving out its fraction. -/
lemma wholeSize_eq {n : ℕ} (h : (b.mantissa : ℚ) * 2 ^ b.exponent = n) :
    b.wholeSize = n ∧ b.isWhole = true := by
  have hscaled : b.mantissa * 2 ^ b.exponent.toNat = n * 2 ^ (-b.exponent).toNat := by
    have hcast : (b.mantissa : ℚ) * 2 ^ b.exponent.toNat = n * 2 ^ (-b.exponent).toNat := by
      rw [← h, mul_assoc, zpow_mul_toNat two_ne_zero]
    exact_mod_cast hcast
  constructor
  · show b.mantissa * 2 ^ b.exponent.toNat / 2 ^ (-b.exponent).toNat = n
    rw [hscaled, Nat.mul_div_cancel _ (by positivity)]
  · have hmod : b.mantissa % 2 ^ (-b.exponent).toNat = 0 := by
      rcases le_total 0 b.exponent with hexponent | hexponent
      · rw [Int.toNat_of_nonpos (by omega), pow_zero, Nat.mod_one]
      · rw [Int.toNat_of_nonpos hexponent, pow_zero, mul_one] at hscaled
        rw [hscaled, Nat.mul_mod_left]
    exact beq_iff_eq.mpr hmod

lemma whole_eq {i : ℤ} (h : b.value = i) : b.whole = i ∧ b.isWhole = true := by
  have hsize : (0 : ℚ) ≤ b.mantissa * 2 ^ b.exponent := by positivity
  unfold value at h
  cases hsign : b.negative with
  | false =>
    rw [hsign, if_neg Bool.false_ne_true, one_mul] at h
    have hi : 0 ≤ i := by
      rw [h] at hsize
      exact_mod_cast hsize
    obtain ⟨n, rfl⟩ := Int.eq_ofNat_of_zero_le hi
    obtain ⟨hn, hwhole⟩ := wholeSize_eq (h.trans (Int.cast_natCast n))
    exact ⟨by rw [whole, hsign, if_neg Bool.false_ne_true, hn], hwhole⟩
  | true =>
    rw [hsign, if_pos rfl, neg_one_mul, neg_eq_iff_eq_neg] at h
    have hi : 0 ≤ -i := by
      rw [h] at hsize
      exact_mod_cast hsize
    obtain ⟨n, hneg⟩ := Int.eq_ofNat_of_zero_le hi
    obtain rfl : i = -n := by omega
    obtain ⟨hn, hwhole⟩ := wholeSize_eq (n := n) (by rw [h]; push_cast; rw [neg_neg])
    exact ⟨by rw [whole, hsign, if_pos rfl, hn], hwhole⟩

/-- What is left of a whole number without its fraction is the number. -/
lemma value_of_isWhole (h : b.isWhole = true) : b.value = b.whole := by
  have hdvd : 2 ^ (-b.exponent).toNat ∣ b.mantissa := Nat.dvd_of_mod_eq_zero (beq_iff_eq.mp h)
  have hsize : (b.wholeSize : ℚ) = b.mantissa * 2 ^ b.exponent := by
    show ((b.mantissa * 2 ^ b.exponent.toNat / 2 ^ (-b.exponent).toNat : ℕ) : ℚ) = _
    rw [Nat.cast_div (hdvd.mul_right _) (by positivity)]
    push_cast
    rw [mul_div_assoc, ← zpow_natCast, ← zpow_natCast, ← zpow_sub₀ two_ne_zero]
    congr 2
    omega
  unfold value whole
  split
  · rw [neg_one_mul, ← hsize, Int.cast_neg, Int.cast_natCast]
  · rw [one_mul, ← hsize, Int.cast_natCast]

end Binary

/-- A whole number is taken as it is, unless it needs more than 64 bits. -/
lemma toInteger_of_isExactly {x : Float} {i : ℤ} (h : IsExactly x i) :
    toInteger x = if -2 ^ 63 ≤ i ∧ i < 2 ^ 63 then .ok i else .error .outOfRange := by
  obtain ⟨b, hparts, hvalue⟩ := h
  obtain ⟨hwhole, hisWhole⟩ := Binary.whole_eq hvalue
  have hpow : Int.pow 2 63 = 2 ^ 63 := rfl
  simp only [toInteger, hparts, hwhole, hisWhole, hpow, if_true]
  by_cases hrange : -2 ^ 63 ≤ i ∧ i < 2 ^ 63
  · rw [if_pos hrange, if_neg (by omega)]
  · rw [if_neg hrange, if_pos (by omega)]

/-- The whole numbers of 64 bits that doubles are taken for. -/
lemma toInteger_eq_ok_iff {x : Float} {i : ℤ} :
    toInteger x = .ok i ↔ IsExactly x i ∧ -2 ^ 63 ≤ i ∧ i < 2 ^ 63 := by
  constructor
  · intro h
    simp only [toInteger] at h
    split at h
    case h_1 b hparts =>
      split at h
      case isTrue => cases h
      case isFalse hrange =>
        split at h
        case isTrue hwhole =>
          obtain rfl := Except.ok.inj h
          have hpow : Int.pow 2 63 = 2 ^ 63 := rfl
          exact ⟨⟨b, hparts, Binary.value_of_isWhole hwhole⟩, by omega⟩
        case isFalse => cases h
    case h_2 => cases h
  · rintro ⟨hi, hrange⟩
    rw [toInteger_of_isExactly hi, if_pos hrange]

end Logo.Number

namespace Logo

open Number

/-- An input that is exactly a whole number is taken for it, unless it needs more than 64 bits. -/
lemma Value.asInteger_of_isExactly {v : Value} {x : Float} {i : ℤ} (hx : v.number? = some x)
    (hi : IsExactly x i) (name : String) (line : Nat) : v.asInteger name line =
      if -2 ^ 63 ≤ i ∧ i < 2 ^ 63 then .ok i else .error (.literalTooLarge line) := by
  simp only [asInteger, asNumber, hx, integer, toInteger_of_isExactly hi]
  by_cases hrange : -2 ^ 63 ≤ i ∧ i < 2 ^ 63
  · rw [if_pos hrange, if_pos hrange]
  · rw [if_neg hrange, if_neg hrange]

/-- An input is a whole number if it is a number and that is whole. -/
lemma Value.asInteger_eq_ok_iff {v : Value} {name : String} {line : ℕ} {i : ℤ} :
    v.asInteger name line = .ok i ↔ ∃ x, v.number? = some x ∧ toInteger x = .ok i := by
  simp only [asInteger, asNumber]
  cases hx : v.number? with
  | none => simp
  | some x =>
    simp only [integer]
    cases hi : toInteger x with
    | ok j => simp [hi]
    | error e => cases e <;> simp [hi]

end Logo
