import Logo.Proofs.Values.Numerals
import Logo.Proofs.Values.Rounding

/-!
# The text of a double is read back

The text of a double is written with few digits, but with enough of them: they lie in the interval
of the numbers that round to the double. This file follows the digits from the search for the
shortest decimal to the text, and back from the text to the decimal that is read.

* `Binary.holds_shortest`: the shortest decimal lies in the interval.
* `read?_text`: the text of a double that is not negative is read as that double.
-/

namespace Logo.Number

open Float.Model Float.Model.UnpackedFloat

/-! ## Parts -/

/-- The parts of a finite double are those that it is computed with. -/
lemma unpack_of_finite {x : Float} {b : Binary} (h : parts x = .finite b) :
    b.mantissa = 0 ∧ x.toModel.unpack = .zero (signOf b.negative) ∨
      ∃ hb : b.IsNormal, b.exponent ≤ 971 ∧
        x.toModel.unpack = .finite (signOf b.negative) b.mantissa b.exponent hb.pos := by
  have hones := unpackExponent_eq_neg_one_iff x.toBits.toBitVec
  have hexponent := toNat_unpackExponent x.toBits.toBitVec
  have hmantissa := toNat_unpackMantissa x.toBits.toBitVec
  have hsign := ofBitVec_unpackSign x.toBits.toBitVec
  have hfraction : x.toBits.toNat % Nat.pow 2 52 < 2 ^ 52 := Nat.mod_lt _ (by decide)
  have hfield : x.toBits.toNat / Nat.pow 2 52 % Nat.pow 2 11 < 2 ^ 11 := Nat.mod_lt _ (by decide)
  have hunpack : x.toModel.unpack = UnpackedFloat.unpack Format.binary64 x.toBits.toBitVec := rfl
  rw [hunpack]
  unfold UnpackedFloat.unpack
  simp only [parts] at h
  split at h
  case isTrue hspecial => split at h <;> cases h
  case isFalse hspecial =>
    rw [if_neg (mt hones.1 hspecial)]
    split at h
    case isTrue hzero =>
      obtain rfl := Parts.finite.inj h
      have hzero' : @unpackExponent Format.binary64 x.toBits.toBitVec = 0#11 := by
        rw [← BitVec.toNat_inj, hexponent]
        exact hzero
      rw [if_pos hzero']
      split
      case isTrue hnone =>
        refine .inl ⟨?_, congrArg UnpackedFloat.zero hsign⟩
        rw [← BitVec.toNat_inj, hmantissa] at hnone
        exact hnone
      case isFalse hsome =>
        have hpos : 0 < x.toBits.toNat % Nat.pow 2 52 := by
          rw [← BitVec.toNat_inj, hmantissa] at hsome
          exact Nat.pos_of_ne_zero hsome
        refine .inr ⟨⟨hpos, ?_, le_rfl, .inr rfl⟩, by simp, ?_⟩
        · exact hfraction.trans (by norm_num)
        · simp only [hsign, hmantissa, hzero']
          rfl
    case isFalse hnormal =>
      obtain rfl := Parts.finite.inj h
      have hnormal' : @unpackExponent Format.binary64 x.toBits.toBitVec ≠ 0#11 := by
        rw [Ne, ← BitVec.toNat_inj, hexponent]
        exact hnormal
      rw [if_neg hnormal']
      have hbits : (1#1 ++ @unpackMantissa Format.binary64 x.toBits.toBitVec).toNat =
          Nat.pow 2 52 + x.toBits.toNat % Nat.pow 2 52 := by
        exact (toNat_withLeadingOne _).trans (congrArg (Nat.pow 2 52 + ·) hmantissa)
      refine .inr ⟨⟨?_, ?_, ?_, .inl ?_⟩, ?_, ?_⟩
      · exact Nat.add_pos_left (by decide) _
      · show 2 ^ 52 + x.toBits.toNat % Nat.pow 2 52 < 2 ^ 53
        omega
      · dsimp only
        omega
      · exact Nat.le_add_right _ _
      · dsimp only
        omega
      · simp only [hsign, hbits, hexponent]
        rfl

/-! ## Decimals in the interval of a double -/

/-- The number that a decimal stands for. -/
def Decimal.value (d : Decimal) : ℚ := d.digits * 10 ^ d.exponent

namespace Decimal

variable (d : Decimal) (n : ℕ) (j : ℤ)

/-- The two whole numbers that are compared instead of a decimal and a binary fraction. -/
lemma exists_scale : ∃ scale : ℚ, 0 < scale ∧
    ((d.digits * Nat.pow 10 d.exponent.toNat * Nat.pow 2 (-j).toNat : ℕ) : ℚ) =
      d.value * scale ∧
    ((n * Nat.pow 2 j.toNat * Nat.pow 10 (-d.exponent).toNat : ℕ) : ℚ) = n * 2 ^ j * scale := by
  refine ⟨10 ^ (-d.exponent).toNat * 2 ^ (-j).toNat, by positivity, ?_, ?_⟩
  · have hten := zpow_mul_toNat (show (10 : ℚ) ≠ 0 by norm_num) d.exponent
    simp only [Nat.pow_eq]
    push_cast
    rw [← hten, value]
    ring
  · have htwo := zpow_mul_toNat (show (2 : ℚ) ≠ 0 by norm_num) j
    simp only [Nat.pow_eq]
    push_cast
    rw [← htwo]
    ring

lemma compareBinary_eq : d.compareBinary n j = compare d.value (n * 2 ^ j) := by
  obtain ⟨scale, hscale, hleft, hright⟩ := d.exists_scale n j
  unfold compareBinary
  generalize d.digits * Nat.pow 10 d.exponent.toNat * Nat.pow 2 (-j).toNat = left,
    n * Nat.pow 2 j.toNat * Nat.pow 10 (-d.exponent).toNat = right at hleft hright
  rcases lt_trichotomy d.value (n * 2 ^ j) with h | h | h
  · have hlt : (left : ℚ) < right := by
      rw [hleft, hright]
      gcongr
    rw [compare_lt_iff_lt.mpr h, compare_lt_iff_lt.mpr (by exact_mod_cast hlt)]
  · have heq : (left : ℚ) = right := by rw [hleft, hright, h]
    rw [compare_eq_iff_eq.mpr h, compare_eq_iff_eq.mpr (by exact_mod_cast heq)]
  · have hgt : (right : ℚ) < left := by
      rw [hleft, hright]
      gcongr
    rw [compare_gt_iff_gt.mpr h, compare_gt_iff_gt.mpr (by exact_mod_cast hgt)]

end Decimal

namespace Binary

variable {b : Binary} {d : Decimal}

/-- The lower end of the interval, in quarters of the last bit. -/
lemma low_eq (hb : b.IsNormal) :
    ((4 * b.mantissa - (if b.mantissa == Nat.pow 2 52 && b.exponent > -1074 then 1 else 2) : ℕ) :
      ℚ) = 4 * (b.mantissa - b.gapBelow) := by
  have hpos := hb.pos
  have hdense : (b.mantissa == Nat.pow 2 52 && b.exponent > -1074) = true ↔
      b.mantissa = 2 ^ 52 ∧ -1074 < b.exponent := by
    simp
  unfold gapBelow
  by_cases h : b.mantissa = 2 ^ 52 ∧ -1074 < b.exponent
  · rw [if_pos (hdense.mpr h), if_pos h, Nat.cast_sub (by omega)]
    push_cast
    ring
  · rw [if_neg (mt hdense.mp h), if_neg h, Nat.cast_sub (by omega)]
    push_cast
    ring

/-- A decimal that reads back lies in the interval. -/
lemma holds_of_readsBack (hb : b.IsNormal) (h : b.readsBack d = true) : b.Holds d.value := by
  have hpow : (0 : ℚ) < 2 ^ b.exponent := zpow_pos two_pos _
  have hquarter : (2 : ℚ) ^ (b.exponent - 2) = 2 ^ b.exponent / 4 := by
    rw [zpow_sub₀ two_ne_zero]
    norm_num
  have hlow : 4 * ((b.mantissa : ℚ) - b.gapBelow) * 2 ^ (b.exponent - 2) =
      (b.mantissa - b.gapBelow) * 2 ^ b.exponent := by
    rw [hquarter]
    ring
  have hhigh : ((4 * b.mantissa + 2 : ℕ) : ℚ) * 2 ^ (b.exponent - 2) =
      (b.mantissa + 1 / 2) * 2 ^ b.exponent := by
    rw [hquarter]
    push_cast
    ring
  simp only [readsBack, Decimal.compareBinary_eq, low_eq hb, hlow, hhigh] at h
  simp only [Bool.and_eq_true, Bool.or_eq_true, beq_iff_eq, compare_gt_iff_gt, compare_lt_iff_lt,
    compare_eq_iff_eq] at h
  unfold Holds Between
  rw [lt_div_iff₀ hpow, div_lt_iff₀ hpow, eq_div_iff hpow.ne', div_eq_iff hpow.ne']
  exact ⟨h.1.imp_right fun ⟨heven, heq⟩ => ⟨heven, heq.symm⟩, h.2⟩

/-- The double itself lies in its interval. -/
lemma holds_self (b : Binary) : b.Holds (b.mantissa * 2 ^ b.exponent) := by
  have hpow : (2 : ℚ) ^ b.exponent ≠ 0 := zpow_ne_zero _ two_ne_zero
  have hgap : 0 < b.gapBelow := by
    unfold gapBelow
    split <;> norm_num
  unfold Holds Between
  rw [mul_div_cancel_right₀ _ hpow]
  exact ⟨.inl (by linarith), .inl (by linarith)⟩

lemma value_exactDecimal (b : Binary) : b.exactDecimal.value = b.mantissa * 2 ^ b.exponent := by
  unfold Decimal.value exactDecimal
  simp only [Nat.pow_eq]
  push_cast
  rcases le_total 0 b.exponent with h | h
  · have hplaces : (-b.exponent).toNat = 0 := by omega
    rw [min_eq_right h, hplaces, ← zpow_natCast, Int.toNat_of_nonneg h]
    simp
  · have hwhole : b.exponent.toNat = 0 := by omega
    have hfive := zpow_mul_toNat (show (5 : ℚ) ≠ 0 by norm_num) b.exponent
    rw [hwhole, pow_zero] at hfive
    rw [min_eq_left h, hwhole, show (10 : ℚ) = 5 * 2 by norm_num, mul_zpow, pow_zero, mul_one]
    linear_combination (b.mantissa : ℚ) * 2 ^ b.exponent * hfive

/-- A decimal that is found on a grid reads back. -/
lemma readsBack_of_onGrid {place : ℤ} (h : b.onGrid place = some d) : b.readsBack d = true := by
  unfold onGrid at h
  dsimp only at h
  split at h
  case h_1 hdown hup =>
    split at h
    · rwa [← Option.some.inj h]
    · rwa [← Option.some.inj h]
  case h_2 hdown _ => rwa [← Option.some.inj h]
  case h_3 _ hup => rwa [← Option.some.inj h]
  case h_4 => cases h

end Binary

/-- Zeros are moved without a change of the number. -/
lemma Decimal.value_dropZeros (count : ℕ) (d : Decimal) : (d.dropZeros count).value = d.value := by
  induction count generalizing d with
  | zero => rfl
  | succ count ih =>
    unfold dropZeros
    split
    case isTrue h =>
      rw [ih]
      have hten : ((d.digits / 10 : ℕ) : ℚ) * 10 = d.digits := by
        exact_mod_cast Nat.div_mul_cancel (Nat.dvd_of_mod_eq_zero h.2)
      show ((d.digits / 10 : ℕ) : ℚ) * 10 ^ (d.exponent + 1) = d.digits * 10 ^ d.exponent
      rw [zpow_add_one₀ (by norm_num), ← hten]
      ring
    case isFalse => rfl

/-- **The shortest decimal lies in the interval.** -/
theorem Binary.holds_shortest {b : Binary} (hb : b.IsNormal) : b.Holds b.shortest.value := by
  unfold shortest
  rw [Decimal.value_dropZeros]
  cases hfound : (List.range 17).findSome? fun (n : ℕ) => b.onGrid (b.pointPosition - (n + 1)) with
  | none =>
    rw [Option.getD_none, value_exactDecimal]
    exact b.holds_self
  | some d =>
    obtain ⟨_, -, hgrid⟩ := List.exists_of_findSome?_eq_some hfound
    exact holds_of_readsBack hb (readsBack_of_onGrid hgrid)

/-! ## Digits -/

section Digits

variable {l : List Char}

lemma ofDigits_concat (l : List Char) (c : Char) :
    ofDigits (l ++ [c]) = 10 * ofDigits l + (c.toNat - '0'.toNat) := by
  simp [ofDigits]

lemma ofDigits_zero_cons (l : List Char) : ofDigits ('0' :: l) = ofDigits l := rfl

lemma ofDigits_zeros_append (k : ℕ) (l : List Char) :
    ofDigits (List.replicate k '0' ++ l) = ofDigits l := by
  induction k with
  | zero => rfl
  | succ k ih => rw [List.replicate_succ, List.cons_append, ofDigits_zero_cons, ih]

/-- Zeros in front do not count. -/
lemma ofDigits_dropWhile (l : List Char) : ofDigits (l.dropWhile (· == '0')) = ofDigits l := by
  induction l with
  | nil => rfl
  | cons c l ih =>
    rw [List.dropWhile_cons]
    split
    case isTrue h =>
      obtain rfl : c = '0' := eq_of_beq h
      rw [ih, ofDigits_zero_cons]
    case isFalse => rfl

/-- Zeros at the end make a power of ten. -/
lemma ofDigits_append_zeros (l : List Char) (k : ℕ) :
    ofDigits (l ++ List.replicate k '0') = ofDigits l * 10 ^ k := by
  induction k with
  | zero => simp
  | succ k ih =>
    rw [List.replicate_succ', ← List.append_assoc, ofDigits_concat, ih, pow_succ]
    simp
    ring

lemma ofDigits_toDigits (n : ℕ) : ofDigits (Nat.toDigits 10 n) = n :=
  Nat.ofDigitChars_ten_toDigits

lemma digit_bounds {c : Char} (h : c.isDigit = true) :
    '0'.toNat ≤ c.toNat ∧ c.toNat ≤ '0'.toNat + 9 := by
  have hbounds : (decide (48 ≤ c.val) && decide (c.val ≤ 57)) = true := h
  rw [Bool.and_eq_true, decide_eq_true_eq, decide_eq_true_eq] at hbounds
  exact ⟨UInt32.le_iff_toNat_le.mp hbounds.1, UInt32.le_iff_toNat_le.mp hbounds.2⟩

lemma ofDigits_lt (h : ∀ c ∈ l, c.isDigit = true) : ofDigits l < 10 ^ l.length := by
  induction l using List.reverseRecOn with
  | nil => simp [ofDigits]
  | append_singleton l c ih =>
    have hdigit := (digit_bounds (h c (by simp))).2
    have hrest := ih fun d hd => h d (by simp [hd])
    rw [ofDigits_concat, List.length_append, List.length_singleton, pow_succ]
    omega

/-- The first digit counts, if it is no zero. -/
lemma le_ofDigits (h : ∀ c ∈ l, c.isDigit = true) (hne : l ≠ []) (hhead : l.head? ≠ some '0') :
    10 ^ l.length ≤ 10 * ofDigits l := by
  induction l using List.reverseRecOn with
  | nil => exact absurd rfl hne
  | append_singleton l c ih =>
    rw [ofDigits_concat, List.length_append, List.length_singleton, pow_succ]
    rcases l with _ | ⟨d, l⟩
    · have hfirst : c.toNat ≠ '0'.toNat := by
        intro heq
        exact hhead (congrArg some (Char.toNat_inj.mp heq))
      have hdigit := (digit_bounds (h c (by simp))).1
      simp only [List.length_nil, pow_zero]
      omega
    · have hrest := ih (fun d hd => h d (List.mem_append_left _ hd)) (by simp)
        (by simpa using hhead)
      omega

/-- A number has no more digits than bits. -/
lemma length_le_log2 (h : ∀ c ∈ l, c.isDigit = true) (hhead : l.head? ≠ some '0')
    (hpos : 0 < ofDigits l) : l.length ≤ (ofDigits l).log2 + 1 := by
  rcases l with _ | ⟨c, l⟩
  · simp
  have hle := le_ofDigits h (by simp) hhead
  rw [List.length_cons, pow_succ] at hle
  have hbits : 2 ^ l.length ≤ ofDigits (c :: l) :=
    (Nat.pow_le_pow_left (by norm_num) l.length).trans (by omega : 10 ^ l.length ≤ _)
  exact Nat.succ_le_succ ((Nat.le_log2 hpos.ne').mpr hbits)

end Digits

/-! ## Reading -/

/-- The numbers that round to a double are not too small and not too large. -/
lemma Binary.bounds_of_holds {b : Binary} (hb : b.IsNormal) (hlarge : b.exponent ≤ 971) {v : ℚ}
    (hv : b.Holds v) : 2 ^ (-1075 : ℤ) ≤ v ∧ v < 2 ^ (1024 : ℤ) := by
  have hpow : (0 : ℚ) < 2 ^ b.exponent := zpow_pos two_pos _
  obtain ⟨hlow, hhigh⟩ := Between.le hv
  have hgap := b.gapBelow_le
  have hpos : (1 : ℚ) ≤ b.mantissa := by exact_mod_cast hb.pos
  have hlt : (b.mantissa : ℚ) + 1 ≤ 2 ^ 53 := by exact_mod_cast hb.lt
  rw [le_div_iff₀ hpow] at hlow
  rw [div_le_iff₀ hpow] at hhigh
  constructor
  · calc (2 : ℚ) ^ (-1075 : ℤ) ≤ 2 ^ (b.exponent - 1) :=
          zpow_le_zpow_right₀ one_le_two (by have := hb.least; omega)
      _ = 1 / 2 * 2 ^ b.exponent := by rw [zpow_sub_one₀ two_ne_zero]; ring
      _ ≤ (b.mantissa - b.gapBelow) * 2 ^ b.exponent := by gcongr; linarith
      _ ≤ v := hlow
  · calc v ≤ (b.mantissa + 1 / 2) * 2 ^ b.exponent := hhigh
      _ < 2 ^ 53 * 2 ^ b.exponent := by gcongr; linarith
      _ = 2 ^ (53 + b.exponent) := by rw [zpow_add₀ two_ne_zero]; norm_num
      _ ≤ 2 ^ (1024 : ℤ) := zpow_le_zpow_right₀ one_le_two (by omega)

lemma least_power : (10 : ℚ) ^ (-330 : ℤ) < 2 ^ (-1075 : ℤ) := by
  have hnat : 2 ^ 1075 < 10 ^ 330 := by decide +kernel
  have hrat : (2 : ℚ) ^ 1075 < 10 ^ 330 := by exact_mod_cast hnat
  rw [zpow_neg, zpow_neg]
  exact inv_strictAnti₀ (by positivity) (by exact_mod_cast hrat)

lemma greatest_power : (2 : ℚ) ^ (1024 : ℤ) < 10 ^ (310 : ℤ) := by
  have hnat : 2 ^ 1024 < 10 ^ 310 := by decide +kernel
  have hrat : (2 : ℚ) ^ 1024 < 10 ^ 310 := by exact_mod_cast hnat
  exact_mod_cast hrat

section Reading

variable {x : Float} {b : Binary} {cs : List Char} {e : ℤ}

/-- The leading digit of a decimal that rounds to a double stands at a place where there are
doubles. -/
lemma magnitude_bounds (hb : b.IsNormal) (hlarge : b.exponent ≤ 971)
    (hdigits : ∀ c ∈ cs, c.isDigit = true) (hne : cs ≠ []) (hhead : cs.head? ≠ some '0')
    (hv : b.Holds (ofDigits cs * 10 ^ e)) :
    -330 < (cs.length : ℤ) + e ∧ (cs.length : ℤ) + e ≤ 310 := by
  have hten : (1 : ℚ) < 10 := by norm_num
  have hpow : (0 : ℚ) < 10 ^ e := zpow_pos (by norm_num) _
  obtain ⟨hlow, hhigh⟩ := Binary.bounds_of_holds hb hlarge hv
  have hscale : (10 : ℚ) ^ ((cs.length : ℤ) + e) = 10 ^ cs.length * 10 ^ e := by
    rw [zpow_add₀ (by norm_num), zpow_natCast]
  constructor
  · have hlt : (ofDigits cs : ℚ) < 10 ^ cs.length := by exact_mod_cast ofDigits_lt hdigits
    have hbound : (10 : ℚ) ^ (-330 : ℤ) < 10 ^ ((cs.length : ℤ) + e) := by
      calc (10 : ℚ) ^ (-330 : ℤ) < 2 ^ (-1075 : ℤ) := least_power
        _ ≤ ofDigits cs * 10 ^ e := hlow
        _ < 10 ^ cs.length * 10 ^ e := by gcongr
        _ = 10 ^ ((cs.length : ℤ) + e) := hscale.symm
    exact (zpow_lt_zpow_iff_right₀ hten).mp hbound
  · have hle : (10 : ℚ) ^ cs.length ≤ 10 * ofDigits cs := by
      exact_mod_cast le_ofDigits hdigits hne hhead
    have hbound : (10 : ℚ) ^ ((cs.length : ℤ) + e) < 10 ^ (311 : ℤ) := by
      calc (10 : ℚ) ^ ((cs.length : ℤ) + e) = 10 ^ cs.length * 10 ^ e := hscale
        _ ≤ 10 * ofDigits cs * 10 ^ e := by gcongr
        _ = 10 * (ofDigits cs * 10 ^ e) := by ring
        _ < 10 * 10 ^ (310 : ℤ) := by gcongr; exact hhigh.trans greatest_power
        _ = 10 ^ (311 : ℤ) := by rw [← zpow_one_add₀ (by norm_num)]; norm_num
    have hexponent := (zpow_lt_zpow_iff_right₀ hten).mp hbound
    omega

/-- **Digits are read as a double if the decimal lies in its interval.** -/
theorem ofDecimal_eq (hb : b.IsNormal) (hlarge : b.exponent ≤ 971)
    (hx : x.toModel.unpack = .finite .positive b.mantissa b.exponent hb.pos)
    (hdigits : ∀ c ∈ cs, c.isDigit = true) (hexponent : e ≤ 0)
    (hv : b.Holds (ofDigits cs * 10 ^ e)) : ofDecimal cs e = x := by
  obtain ⟨hlow, -⟩ := Binary.bounds_of_holds hb hlarge hv
  have hpos : 0 < ofDigits cs := by
    rcases Nat.eq_zero_or_pos (ofDigits cs) with hzero | hpos
    · rw [hzero, Nat.cast_zero, zero_mul] at hlow
      exact absurd hlow (not_le.mpr (zpow_pos two_pos _))
    · exact hpos
  rw [← ofDigits_dropWhile] at hv hpos
  have hsignificant : ∀ c ∈ cs.dropWhile (· == '0'), c.isDigit = true := fun c hc =>
    hdigits c ((List.dropWhile_sublist _).subset hc)
  have hhead : (cs.dropWhile (· == '0')).head? ≠ some '0' := by
    intro hzero
    have hfirst := List.head?_dropWhile_not (· == '0') cs
    rw [hzero] at hfirst
    simp at hfirst
  have hne : cs.dropWhile (· == '0') ≠ [] := by
    intro hnil
    rw [hnil] at hpos
    exact absurd hpos (by decide)
  obtain ⟨hleast, hgreatest⟩ := magnitude_bounds hb hlarge hsignificant hne hhead hv
  have hempty : ((cs.dropWhile (· == '0')).isEmpty ||
      decide (((cs.dropWhile (· == '0')).length : ℤ) + e < -330)) = false := by
    simp [hne]
    omega
  unfold ofDecimal
  dsimp only
  rw [hempty, if_neg (by simp), if_neg (by omega)]
  refine ofScientific_eq hb hx hpos hv (by omega) ?_
  have hbits : (cs.dropWhile (· == '0')).length ≤ (ofDigits (cs.dropWhile (· == '0'))).log2 + 1 :=
    length_le_log2 hsignificant hhead hpos
  omega

end Reading

/-- Digits without a point. -/
lemma readDigits?_whole {whole : List Char} (hne : whole ≠ [])
    (hwhole : ∀ c ∈ whole, c.isDigit = true) :
    readDigits? whole = some (ofDecimal whole 0) := by
  have htake : whole.takeWhile Char.isDigit = whole := List.takeWhile_eq_self_iff.mpr hwhole
  have hdrop : whole.dropWhile Char.isDigit = [] := List.dropWhile_eq_nil_iff.mpr hwhole
  simp [readDigits?, htake, hdrop, hne, readExponent?]

/-- Digits with a point among them. -/
lemma readDigits?_point {whole places : List Char} (hne : whole ≠ [])
    (hwhole : ∀ c ∈ whole, c.isDigit = true) (hplaces : ∀ c ∈ places, c.isDigit = true) :
    readDigits? (whole ++ '.' :: places) = some (ofDecimal (whole ++ places) (-places.length)) := by
  have htake : (whole ++ '.' :: places).takeWhile Char.isDigit = whole := by
    rw [List.takeWhile_append_of_pos hwhole]
    simp
  have hdrop : (whole ++ '.' :: places).dropWhile Char.isDigit = '.' :: places := by
    rw [List.dropWhile_append_of_pos hwhole]
    simp
  have htake' : places.takeWhile Char.isDigit = places := List.takeWhile_eq_self_iff.mpr hplaces
  have hdrop' : places.dropWhile Char.isDigit = [] := List.dropWhile_eq_nil_iff.mpr hplaces
  simp [readDigits?, htake, hdrop, htake', hdrop', hne, readExponent?]

/-- **The text of a decimal in the interval of a double is read as that double.** -/
theorem readDigits?_text {x : Float} {b : Binary} (hb : b.IsNormal) (hlarge : b.exponent ≤ 971)
    (hx : x.toModel.unpack = .finite .positive b.mantissa b.exponent hb.pos) {d : Decimal}
    (hv : b.Holds d.value) : readDigits? d.text.toList = some x := by
  have hdigits : ∀ c ∈ Nat.toDigits 10 d.digits, c.isDigit = true :=
    fun c hc => isDigit_of_mem_toDigits hc
  have hzeros : ∀ n, ∀ c ∈ List.replicate n '0', c.isDigit = true := by
    intro n c hc
    rw [List.eq_of_mem_replicate hc]
    rfl
  have hne : Nat.toDigits 10 d.digits ≠ [] := Nat.toDigits_ne_nil
  rw [Decimal.text, String.toList_ofList]
  split
  case isTrue hwhole =>
    have hall : ∀ c ∈ Nat.toDigits 10 d.digits ++ List.replicate d.exponent.toNat '0',
        c.isDigit = true := List.forall_mem_append.mpr ⟨hdigits, hzeros _⟩
    rw [readDigits?_whole (by simp [hne]) hall]
    refine congrArg some (ofDecimal_eq hb hlarge hx hall le_rfl ?_)
    have hvalue : d.value = ((ofDigits (Nat.toDigits 10 d.digits ++
        List.replicate d.exponent.toNat '0') : ℕ) : ℚ) * 10 ^ (0 : ℤ) := by
      rw [ofDigits_append_zeros, ofDigits_toDigits, Decimal.value, zpow_zero, mul_one]
      push_cast
      rw [← zpow_natCast, Int.toNat_of_nonneg hwhole]
    rwa [← hvalue]
  case isFalse hplaces =>
    -- with a point among the digits or before them, the digits are the same
    have hread : ∀ {cs : List Char} {count : ℕ}, (∀ c ∈ cs, c.isDigit = true) →
        ofDigits cs = d.digits → (count : ℤ) = -d.exponent → ofDecimal cs (-count) = x := by
      intro cs count hall hsame hcount
      refine ofDecimal_eq hb hlarge hx hall (by omega) ?_
      rwa [hsame, hcount, neg_neg]
    split
    case isTrue hfew =>
      rw [readDigits?_point _ (fun c hc => hdigits c (List.mem_of_mem_take hc))
        (fun c hc => hdigits c (List.mem_of_mem_drop hc)), List.take_append_drop]
      · refine congrArg some (hread hdigits (ofDigits_toDigits _) ?_)
        rw [List.length_drop]
        omega
      · rw [Ne, List.take_eq_nil_iff, not_or]
        exact ⟨by omega, hne⟩
    case isFalse hmany =>
      have hall : ∀ c ∈ List.replicate ((-d.exponent).toNat - (Nat.toDigits 10 d.digits).length)
          '0' ++ Nat.toDigits 10 d.digits, c.isDigit = true :=
        List.forall_mem_append.mpr ⟨hzeros _, hdigits⟩
      refine (readDigits?_point (by simp) (hzeros 1) hall).trans (congrArg some (hread ?_ ?_ ?_))
      · exact List.forall_mem_append.mpr ⟨hzeros 1, hall⟩
      · rw [ofDigits_zeros_append, ofDigits_zeros_append, ofDigits_toDigits]
      · rw [List.length_append, List.length_replicate]
        omega

/-- Without a sign, the text of a double is that of its size. -/
lemma text_of_not_negative {x : Float} {b : Binary} (hx : parts x = .finite b)
    (hsign : b.negative = false) :
    text x = if b.mantissa = 0 then "0" else b.shortest.text := by
  simp only [text, hx, hsign, Bool.false_eq_true, if_false]

/-- Without a sign, the text of a double is that of a number in a program. -/
lemma toList_text_mem {x : Float} {b : Binary} (hx : parts x = .finite b)
    (hsign : b.negative = false) : (text x).toList ∈ Pattern.number.language := by
  rw [text_of_not_negative hx hsign]
  split
  · exact mem_number.mpr (.inl ⟨by simp, by simp⟩)
  · exact Decimal.toList_text_mem _

/-- The positive zero. -/
lemma eq_zero_of_unpack {x : Float} (h : x.toModel.unpack = .zero .positive) : x = 0.0 := by
  have hparts : parts 0.0 = .finite ⟨false, 0, -1074⟩ := by decide +kernel
  have hzero : (0.0 : Float).toModel.unpack = .zero .positive := by
    obtain ⟨-, hzero⟩ | ⟨hb, -⟩ := unpack_of_finite hparts
    · exact hzero
    · exact absurd hb.pos (by simp)
  have hbits : x.toBits.toBitVec = (0.0 : Float).toBits.toBitVec :=
    (unpack_inj_of_valid x.toModel.valid (0.0 : Float).toModel.valid).1 (h.trans hzero.symm)
  exact Float.toBits_inj.1 (UInt64.toBitVec_inj.1 hbits)

/-- **The text of a double that is not negative is read as that double.** -/
theorem read?_text {x : Float} {b : Binary} (hx : parts x = .finite b)
    (hsign : b.negative = false) : read? (text x) = some x := by
  have hmem := toList_text_mem hx hsign
  rw [← String.ofList_toList (s := text x)]
  refine read?_of_readDigits? hmem ?_
  rw [text_of_not_negative hx hsign]
  obtain ⟨hmantissa, hunpack⟩ | ⟨hb, hlarge, hunpack⟩ := unpack_of_finite hx
  · rw [if_pos hmantissa]
    rw [hsign] at hunpack
    rw [eq_zero_of_unpack hunpack]
    rfl
  · rw [if_neg hb.pos.ne']
    rw [hsign] at hunpack
    exact readDigits?_text hb hlarge hunpack (Binary.holds_shortest hb)

end Logo.Number
