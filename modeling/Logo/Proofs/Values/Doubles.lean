import Logo.Number.Binary
import Mathlib

/-!
# Doubles and what they stand for

A double is an infinity, a zero with a sign, another number, or no number at all. This file tells
the kinds apart by the parts of a double, says which doubles equal an infinity, and shows that
reading a decimal never leads to a double that is no number.

* `unpack_of_parts`: the parts of a double tell its kind.
* `parts_of_beq_infinite`, `beq_of_infinite`: what equals an infinity.
* `isNaN_ofScientific`: a decimal is a number.
-/

namespace Logo.Number

open Float.Model Float.Model.UnpackedFloat

variable {x y : Float}

/-! ## Kinds -/

/-- The sign of a double, as whether it is a minus. -/
def signOf (negative : Bool) : Sign := if negative then .negative else .positive

lemma toNat_unpackExponent (b : BitVec 64) :
    (@unpackExponent Format.binary64 b).toNat = b.toNat / Nat.pow 2 52 % Nat.pow 2 11 := by
  simp [unpackExponent, Nat.shiftRight_eq_div_pow]

lemma toNat_unpackMantissa (b : BitVec 64) :
    (@unpackMantissa Format.binary64 b).toNat = b.toNat % Nat.pow 2 52 := by
  simp [unpackMantissa]

lemma ofBitVec_unpackSign (b : BitVec 64) :
    Sign.ofBitVec (@unpackSign Format.binary64 b) = signOf (decide (Nat.pow 2 63 ≤ b.toNat)) := by
  have hlt : b.toNat < Nat.pow 2 64 := b.isLt
  have hsign : @unpackSign Format.binary64 b = 0#1 ↔ ¬ Nat.pow 2 63 ≤ b.toNat := by
    rw [← BitVec.toNat_inj]
    simp [unpackSign, Nat.shiftRight_eq_div_pow]
    omega
  unfold Sign.ofBitVec signOf
  by_cases h : Nat.pow 2 63 ≤ b.toNat
  · rw [if_neg (not_not_intro h ∘ hsign.1), decide_eq_true h]
    rfl
  · rw [if_pos (hsign.2 h), decide_eq_false h]
    rfl

/-- An exponent of all ones marks the infinities and what is no number. -/
lemma unpackExponent_eq_neg_one_iff (b : BitVec 64) :
    @unpackExponent Format.binary64 b = -1#11 ↔ b.toNat / Nat.pow 2 52 % Nat.pow 2 11 = 2047 := by
  rw [← BitVec.toNat_inj, toNat_unpackExponent]
  rfl

lemma unpackMantissa_eq_zero_iff (b : BitVec 64) :
    @unpackMantissa Format.binary64 b = 0#52 ↔ b.toNat % Nat.pow 2 52 = 0 := by
  rw [← BitVec.toNat_inj, toNat_unpackMantissa]
  rfl

/-- The parts of a double tell what it is. -/
lemma unpack_of_parts (x : Float) :
    match parts x with
    | .notANumber => x.toModel.unpack = .notANumber
    | .infinite negative => x.toModel.unpack = .infinity (signOf negative)
    | .finite _ => x.toModel.unpack.isFinite = true := by
  have hexponent := unpackExponent_eq_neg_one_iff x.toBits.toBitVec
  have hmantissa := unpackMantissa_eq_zero_iff x.toBits.toBitVec
  have hsign := ofBitVec_unpackSign x.toBits.toBitVec
  show match parts x with
    | .notANumber => UnpackedFloat.unpack Format.binary64 x.toBits.toBitVec = .notANumber
    | .infinite negative =>
      UnpackedFloat.unpack Format.binary64 x.toBits.toBitVec = .infinity (signOf negative)
    | .finite _ => (UnpackedFloat.unpack Format.binary64 x.toBits.toBitVec).isFinite = true
  unfold UnpackedFloat.unpack
  by_cases hfield : x.toBits.toNat / Nat.pow 2 52 % Nat.pow 2 11 = 2047
  · rw [if_pos (hexponent.2 hfield)]
    by_cases hfraction : x.toBits.toNat % Nat.pow 2 52 = 0
    · have hparts : parts x = .infinite (decide (Nat.pow 2 63 ≤ x.toBits.toNat)) := by
        rw [parts, if_pos hfield, if_pos hfraction]
      rw [hparts, if_pos (hmantissa.2 hfraction), hsign]
      rfl
    · have hparts : parts x = .notANumber := by
        rw [parts, if_pos hfield, if_neg hfraction]
      rw [hparts, if_neg (mt hmantissa.1 hfraction)]
  · have hparts : ∃ b, parts x = .finite b := by
      rw [parts, if_neg hfield]
      split
      · exact ⟨_, rfl⟩
      · exact ⟨_, rfl⟩
    obtain ⟨b, hparts⟩ := hparts
    rw [hparts, if_neg (mt hexponent.1 hfield)]
    dsimp only
    split
    · split <;> rfl
    · rfl

lemma parts_eq_notANumber_iff : parts x = .notANumber ↔ x.isNaN = true := by
  have hkind := unpack_of_parts x
  show _ ↔ x.toModel.unpack.isNaN = true
  cases hparts : parts x with
  | notANumber =>
    rw [hparts] at hkind
    simp [hkind, UnpackedFloat.isNaN]
  | infinite negative =>
    rw [hparts] at hkind
    simp [hkind, UnpackedFloat.isNaN]
  | finite b =>
    rw [hparts] at hkind
    revert hkind
    cases x.toModel.unpack <;> simp [UnpackedFloat.isFinite, UnpackedFloat.isNaN]

lemma parts_eq_infinite_iff {negative : Bool} :
    parts x = .infinite negative ↔ x.toModel.unpack = .infinity (signOf negative) := by
  have hkind := unpack_of_parts x
  have hsigns : ∀ {p q : Bool}, signOf p = signOf q ↔ p = q := by
    intro p q
    cases p <;> cases q <;> simp [signOf]
  cases hparts : parts x with
  | notANumber =>
    rw [hparts] at hkind
    simp [hkind]
  | infinite other =>
    rw [hparts] at hkind
    simp [hkind, hsigns]
  | finite b =>
    rw [hparts] at hkind
    revert hkind
    cases x.toModel.unpack <;> simp [UnpackedFloat.isFinite]

lemma exists_parts_of_isFinite (h : x.isFinite = true) : ∃ b, parts x = .finite b := by
  have hkind := unpack_of_parts x
  have hfinite : x.toModel.unpack.isFinite = true := h
  cases hparts : parts x with
  | finite b => exact ⟨b, rfl⟩
  | notANumber =>
    rw [hparts] at hkind
    simp [hkind, UnpackedFloat.isFinite] at hfinite
  | infinite negative =>
    rw [hparts] at hkind
    simp [hkind, UnpackedFloat.isFinite] at hfinite

lemma isNaN_of_isFinite (h : x.isFinite = true) : x.isNaN = false := by
  obtain ⟨b, hb⟩ := exists_parts_of_isFinite h
  simpa only [hb, reduceCtorEq, false_iff, Bool.not_eq_true] using
    parts_eq_notANumber_iff (x := x)

lemma isInf_of_isFinite (h : x.isFinite = true) : x.isInf = false := by
  have hfinite : x.toModel.unpack.isFinite = true := h
  show x.toModel.unpack.isInf = false
  revert hfinite
  cases x.toModel.unpack <;> simp [UnpackedFloat.isFinite, UnpackedFloat.isInf]

/-! ## Equality -/

/-- What equals a double is a number. -/
lemma isNaN_of_beq (h : (x == y) = true) : x.isNaN = false := by
  obtain ⟨hx, -⟩ := Float.beq_iff_ne_nan_and_eq.1 h
  rw [Float.isNaN_eq_decide_eq_nan, decide_eq_false hx]

lemma beq_self (x : Float) : (x == x) = !x.isNaN := by
  rw [Bool.eq_iff_iff, Float.beq_self_iff, Float.isNaN_eq_decide_eq_nan, Bool.not_eq_true',
    decide_eq_false_iff_not]

/-- A double that equals an infinity is the same infinity. -/
lemma parts_of_beq_infinite {negative : Bool} (hx : parts x = .infinite negative)
    (h : (x == y) = true) : parts y = .infinite negative := by
  obtain ⟨-, -, rfl | ⟨rfl, -⟩ | ⟨rfl, -⟩⟩ := Float.beq_iff_ne_nan_and_eq.1 h
  · exact hx
  all_goals exact absurd hx (by cases negative <;> decide +kernel)

lemma beq_of_infinite {negative : Bool} (hx : parts x = .infinite negative)
    (hy : parts y = .infinite negative) : (x == y) = true := by
  have hnan : x.isNaN = false := by
    simpa only [hx, reduceCtorEq, false_iff, Bool.not_eq_true] using
      parts_eq_notANumber_iff (x := x)
  rw [parts_eq_infinite_iff] at hx hy
  have hbits : x.toBits.toBitVec = y.toBits.toBitVec :=
    (unpack_inj_of_valid x.toModel.valid y.toModel.valid).1 (hx.trans hy.symm)
  obtain rfl : x = y := Float.toBits_inj.1 (UInt64.toBitVec_inj.1 hbits)
  rw [beq_self, hnan]
  rfl

/-! ## Decimals are numbers -/

lemma isNaN_unpack_packComponents {sign : Sign} {exponent : BitVec 11} {mantissa : BitVec 52}
    (h : exponent = -1#11 → mantissa = 0#52) :
    (UnpackedFloat.unpack Format.binary64
      (packComponents Format.binary64 sign exponent mantissa)).isNaN = false := by
  unfold UnpackedFloat.unpack
  simp only [unpackExponent_packComponents, unpackMantissa_packComponents]
  split
  · next hexponent => rw [if_pos (h hexponent)]; rfl
  · split
    · split <;> rfl
    · rfl

/-- What is rounded to a double stays a number. -/
lemma isNaN_pack {u : UnpackedFloat} (h : u.isNaN = false) :
    (Float.Model.pack u).isNaN = false := by
  show (UnpackedFloat.unpack Format.binary64 (UnpackedFloat.pack Format.binary64 u)).isNaN = false
  fun_cases UnpackedFloat.pack Format.binary64 u with
  | case1 => cases h
  | case2 s => exact isNaN_unpack_packComponents fun _ => rfl
  | case3 s => exact isNaN_unpack_packComponents fun _ => rfl
  | case4 s m e hm biased hlarge => exact isNaN_unpack_packComponents fun _ => rfl
  | case5 s m e hm bits biased hsmall hnormal =>
    refine isNaN_unpack_packComponents fun heq => ?_
    have hlt : biased < 2047 := by
      have hsmall : ¬ 2048 ≤ biased + 1 := hsmall
      omega
    have hnat : biased % 2048 = 2047 := congrArg BitVec.toNat heq
    rw [Nat.mod_eq_of_lt (by omega)] at hnat
    omega
  | case6 s m e hm bits biased hsmall hsubnormal =>
    refine isNaN_unpack_packComponents fun heq => ?_
    exact absurd heq (by decide)

lemma isNaN_roundWithAccuracy (sign : Sign) (mantissa : Nat) (exponent : Int)
    (accuracy : Accuracy) :
    (roundWithAccuracy Format.binary64 sign mantissa exponent accuracy).isNaN = false := by
  unfold roundWithAccuracy
  dsimp only
  split <;> rfl

lemma isNaN_ofNat (n : Nat) : (UnpackedFloat.ofNat Format.binary64 n).isNaN = false := by
  unfold UnpackedFloat.ofNat UnpackedFloat.ofInt UnpackedFloat.normalize UnpackedFloat.round
  split
  · exact isNaN_roundWithAccuracy _ _ _ _
  · rfl
  · exact isNaN_roundWithAccuracy _ _ _ _

section Scaling

variable {u : UnpackedFloat} (h : u.isNaN = false) {sign : Sign} {mantissa : Nat} {exponent : Int}
  (hpos : 0 < mantissa)
include h

lemma isNaN_mul_finite :
    (mul Format.binary64 u (.finite sign mantissa exponent hpos)).isNaN = false := by
  cases u with
  | notANumber => cases h
  | finite s m e hm => exact isNaN_roundWithAccuracy _ _ _ _
  | _ => rfl

lemma isNaN_div_finite :
    (div Format.binary64 u (.finite sign mantissa exponent hpos)).isNaN = false := by
  cases u with
  | notANumber => cases h
  | finite s m e hm => exact isNaN_roundWithAccuracy _ _ _ _
  | _ => rfl

end Scaling

/-- The double is neither zero nor an infinity, and it is a number. -/
def isPlain : UnpackedFloat → Bool
  | .finite _ _ _ _ => true
  | _ => false

lemma isPlain_power (e : Fin 23) :
    isPlain (Float.exactlyRepresentablePowersOfTen[e]).toModel.unpack = true := by
  revert e
  decide +kernel

/-- Multiples and fractions of a number by a power of ten are numbers. -/
lemma isNaN_scaled (hx : x.isNaN = false) (hy : isPlain y.toModel.unpack = true) :
    (x * y).isNaN = false ∧ (x / y).isNaN = false := by
  have hmul : (x * y).isNaN =
      (Float.Model.pack (mul Format.binary64 x.toModel.unpack y.toModel.unpack)).isNaN := rfl
  have hdiv : (x / y).isNaN =
      (Float.Model.pack (div Format.binary64 x.toModel.unpack y.toModel.unpack)).isNaN := rfl
  rw [hmul, hdiv]
  revert hy
  cases y.toModel.unpack with
  | finite s m e hm => exact fun _ => ⟨isNaN_pack (isNaN_mul_finite hx hm),
      isNaN_pack (isNaN_div_finite hx hm)⟩
  | _ => intro hy; cases hy

lemma isNaN_unpacked_ofScientific (m : Nat) (e : Int) :
    (UnpackedFloat.ofScientific Format.binary64 m e).isNaN = false := by
  unfold UnpackedFloat.ofScientific
  split
  · rfl
  split
  · rfl
  split
  · rfl
  split
  · apply isNaN_mul_finite
    rfl
  · apply isNaN_div_finite
    rfl

/-- A decimal is a number. -/
lemma isNaN_ofScientific (m : Nat) (s : Bool) (e : Nat) :
    (Float.ofScientific m s e).isNaN = false := by
  unfold Float.ofScientific
  split
  · next hsmall =>
    have hm : m.toUInt64.toFloat.isNaN = false := isNaN_pack (isNaN_ofNat _)
    have hpower := isPlain_power ⟨e, by omega⟩
    obtain ⟨hmul, hdiv⟩ := isNaN_scaled hm hpower
    cases s with
    | true => exact hdiv
    | false => exact hmul
  · exact isNaN_pack (isNaN_unpacked_ofScientific m _)

/-- The negative of a number is a number. -/
lemma isNaN_neg (hx : x.isNaN = false) : (-x).isNaN = false := by
  refine isNaN_pack ?_
  have hunpack : x.toModel.unpack.isNaN = false := hx
  revert hunpack
  cases x.toModel.unpack <;> exact id

end Logo.Number
