import Logo.Operation.Apply
import Mathlib.Data.Rat.Floor

/-!
# Shifts are exact

A shift up multiplies by a power of two, as far as the word has room, and a shift down divides by
one and rounds down. A count is a whole number of 64 bits, so that the power may be far out of
reach. Counts are cut down to distances of 32 bits, and distances of 64 and more are settled without
a shift. None of this can be seen in the result.

* `toNat_size`, `toNat_distance`: what a count is cut down to.
* `toInt_up`, `toInt_down`, `toNat_downUnsigned`: the three moves, for every count.
* `shifts_exact`: both shifts, for every number and every count.
-/

namespace Logo

namespace Bits

variable (n count : Int64)

/-! ## Distances -/

/-- The size of a count fits into 64 bits without a sign, also that of the least count. -/
lemma toNat_size : count.abs.toUInt64.toNat = count.toInt.natAbs := by
  have hbits : count.abs.toUInt64.toNat = count.toBitVec.abs.toNat := rfl
  have hlt : count.toBitVec.toNat < 2 ^ 64 := count.toBitVec.isLt
  rw [hbits, BitVec.toNat_abs, ← Int64.toInt_toBitVec, BitVec.toInt_eq_msb_cond]
  split <;> omega

/-- A size that does not fit into 32 bits becomes the largest that does. -/
lemma toNat_distance : (distance count).toNat = min count.toInt.natAbs (2 ^ 32 - 1) := by
  have hpow : Nat.pow 2 32 = 2 ^ 32 := rfl
  simp only [distance, toNat_size, hpow]
  split
  case isTrue h =>
    rw [UInt64.toNat_toUInt32, toNat_size]
    omega
  case isFalse h =>
    have hlargest : (-1 : UInt32).toNat = 2 ^ 32 - 1 := rfl
    omega

/-- A distance is smaller than the word exactly if the count is, and then it is the count's size. -/
lemma distance_cases : distance count < 64 ∧ (distance count).toNat = count.toInt.natAbs ∨
    ¬ distance count < 64 ∧ 64 ≤ count.toInt.natAbs := by
  have hdistance := toNat_distance count
  rw [UInt32.lt_iff_toNat_lt]
  show (distance count).toNat < 64 ∧ _ ∨ ¬ (distance count).toNat < 64 ∧ _
  omega

/-! ## Single moves -/

/-- A distance that is smaller than the word is taken as it is. -/
lemma smod_distance {k : UInt32} (h : k < 64) :
    (k.toUInt64.toInt64.toBitVec.smod 64).toNat = k.toNat := by
  have hk : k.toNat < 64 := UInt32.lt_iff_toNat_lt.mp h
  have hbits : k.toUInt64.toInt64.toBitVec.toNat = k.toNat := UInt32.toNat_toUInt64 k
  have hmsb : k.toUInt64.toInt64.toBitVec.msb = false := by
    rw [BitVec.msb_eq_decide, hbits, decide_eq_false_iff_not]
    omega
  rw [BitVec.smod_eq, hmsb, show (64 : BitVec 64).msb = false from rfl]
  dsimp only
  rw [BitVec.umod_eq, BitVec.toNat_umod, hbits]
  exact Nat.mod_eq_of_lt hk

variable {k : UInt32}

lemma toInt_shiftLeft (h : k < 64) :
    (n <<< k.toUInt64.toInt64).toInt = (n.toInt * 2 ^ k.toNat).bmod (2 ^ 64) := by
  rw [← Int64.toInt_toBitVec, Int64.toBitVec_shiftLeft, BitVec.shiftLeft_eq', smod_distance h,
    BitVec.toInt_shiftLeft, Nat.shiftLeft_eq, ← Int64.toInt_toBitVec, BitVec.toInt_eq_toNat_bmod,
    Int.bmod_mul_bmod]
  push_cast
  rfl

lemma toInt_shiftRight (h : k < 64) :
    (n >>> k.toUInt64.toInt64).toInt = n.toInt / 2 ^ k.toNat := by
  rw [← Int64.toInt_toBitVec, Int64.toBitVec_shiftRight, BitVec.sshiftRight', smod_distance h,
    BitVec.toInt_sshiftRight, Int.shiftRight_eq_div_pow, Int64.toInt_toBitVec]
  push_cast
  rfl

lemma toNat_shiftRight (n : UInt64) (h : k < 64) :
    (n >>> k.toUInt64).toNat = n.toNat / 2 ^ k.toNat := by
  have hk : k.toNat < 64 := UInt32.lt_iff_toNat_lt.mp h
  rw [UInt64.toNat_shiftRight, UInt32.toNat_toUInt64, Nat.mod_eq_of_lt hk,
    Nat.shiftRight_eq_div_pow]

/-! ## Moves by any count -/

lemma toInt_neg_iff : n < 0 ↔ n.toInt < 0 := Int64.lt_iff_toInt_lt

lemma toInt_nonneg_iff : 0 ≤ n ↔ 0 ≤ n.toInt := Int64.le_iff_toInt_le

/-- A word has less than 64 bits besides its sign. -/
lemma abs_toInt_le (h : 64 ≤ count.toInt.natAbs) :
    -2 ^ count.toInt.natAbs ≤ n.toInt ∧ n.toInt < 2 ^ count.toInt.natAbs := by
  have hlow := Int64.le_toInt n
  have hhigh := Int64.toInt_lt n
  have hpow : (2 : ℤ) ^ 64 ≤ 2 ^ count.toInt.natAbs := pow_le_pow_right₀ one_le_two h
  constructor <;> omega

/-- **Up.** The number is multiplied, and the bits beyond the word are lost. -/
lemma toInt_up : ((shiftUp? n (distance count)).getD 0).toInt =
    (n.toInt * 2 ^ count.toInt.natAbs).bmod (2 ^ 64) := by
  rcases distance_cases count with ⟨hsmall, hsize⟩ | ⟨hlarge, hsize⟩
  · rw [shiftUp?, if_pos hsmall, Option.getD_some, toInt_shiftLeft n hsmall, hsize]
  · rw [shiftUp?, if_neg hlarge, Option.getD_none, Int64.toInt_zero]
    have hdvd : ((2 ^ 64 : ℕ) : ℤ) ∣ n.toInt * 2 ^ count.toInt.natAbs := by
      push_cast
      exact (pow_dvd_pow 2 hsize).mul_left n.toInt
    exact (Int.dvd_iff_bmod_eq_zero.mp hdvd).symm

/-- **Down, with the sign.** The number is divided and rounded down. -/
lemma toInt_down : ((shiftDown? n (distance count)).getD (if n < 0 then -1 else 0)).toInt =
    n.toInt / 2 ^ count.toInt.natAbs := by
  rcases distance_cases count with ⟨hsmall, hsize⟩ | ⟨hlarge, hsize⟩
  · rw [shiftDown?, if_pos hsmall, Option.getD_some, toInt_shiftRight n hsmall, hsize]
  · obtain ⟨hlow, hhigh⟩ := abs_toInt_le n count hsize
    rw [shiftDown?, if_neg hlarge, Option.getD_none]
    -- a negative number is rounded down to the one below zero
    by_cases hneg : n < 0
    · rw [if_pos hneg]
      rw [toInt_neg_iff] at hneg
      exact (Int.ediv_eq_neg_one_of_neg_of_le hneg (by omega)).symm
    · rw [if_neg hneg]
      rw [toInt_neg_iff, not_lt] at hneg
      exact (Int.ediv_eq_zero_of_lt hneg hhigh).symm

/-- **Down, without a sign.** The number is divided and rounded down. -/
lemma toNat_downUnsigned (n : UInt64) : ((shiftDownUnsigned? n (distance count)).getD 0).toNat =
    n.toNat / 2 ^ count.toInt.natAbs := by
  rcases distance_cases count with ⟨hsmall, hsize⟩ | ⟨hlarge, hsize⟩
  · rw [shiftDownUnsigned?, if_pos hsmall, Option.getD_some, toNat_shiftRight n hsmall, hsize]
  · rw [shiftDownUnsigned?, if_neg hlarge, Option.getD_none]
    have hpow : 2 ^ 64 ≤ 2 ^ count.toInt.natAbs := Nat.pow_le_pow_right two_pos hsize
    exact (Nat.div_eq_of_lt (n.toNat_lt.trans_le hpow)).symm

/-- The bits of a number, read without a sign. -/
lemma toNat_toUInt64 : (n.toUInt64.toNat : ℤ) = n.toInt % 2 ^ 64 := by
  have hlt : n.toBitVec.toNat < 2 ^ 64 := n.toBitVec.isLt
  have hbits : n.toInt = Int.bmod n.toUInt64.toNat (2 ^ 64) := by
    rw [← Int64.toInt_toBitVec, BitVec.toInt_eq_toNat_bmod]
    rfl
  have hsame := @Int.bmod_emod n.toUInt64.toNat (2 ^ 64)
  have hmod : n.toUInt64.toNat % 2 ^ 64 = n.toUInt64.toNat := Nat.mod_eq_of_lt hlt
  rw [hbits]
  omega

/-- The bits of a number without a sign, read with one. -/
lemma toInt_toInt64 {u : UInt64} (h : u.toNat < 2 ^ 63) : u.toInt64.toInt = u.toNat := by
  have hbits : 2 * u.toInt64.toBitVec.toNat < 2 ^ 64 := by
    show 2 * u.toNat < 2 ^ 64
    omega
  rw [← Int64.toInt_toBitVec, BitVec.toInt_eq_toNat_of_lt hbits]
  rfl

/-! ## Shifts -/

variable {n count}

/-- A shift up multiplies, as far as the word has room. -/
lemma toInt_shiftSigned_of_nonneg (h : 0 ≤ count.toInt) : (shiftSigned n count).toInt =
    (n.toInt * 2 ^ count.toInt.natAbs).bmod (2 ^ 64) := by
  rw [shiftSigned, if_pos ((toInt_nonneg_iff count).mpr h), toInt_up]

/-- Up, the two shifts are the same. -/
lemma shiftUnsigned_of_nonneg (h : 0 ≤ count.toInt) :
    shiftUnsigned n count = shiftSigned n count := by
  have hsign := (toInt_nonneg_iff count).mpr h
  rw [shiftUnsigned, if_pos hsign, shiftSigned, if_pos hsign]

/-- A shift down divides and rounds down. -/
lemma toInt_shiftSigned_of_neg (h : count.toInt < 0) : (shiftSigned n count).toInt =
    n.toInt / 2 ^ count.toInt.natAbs := by
  rw [shiftSigned, if_neg (mt (toInt_nonneg_iff count).mp (not_le.mpr h)), toInt_down]

/-- A shift down without the sign divides the number that the bits are without it. -/
lemma toInt_shiftUnsigned_of_neg (h : count.toInt < 0) : (shiftUnsigned n count).toInt =
    n.toInt % 2 ^ 64 / 2 ^ count.toInt.natAbs := by
  -- at least one bit is gone, so that no bit is left where the sign stands
  have hroom : ((shiftDownUnsigned? n.toUInt64 (distance count)).getD 0).toNat < 2 ^ 63 := by
    have hpow : 2 ^ 1 ≤ 2 ^ count.toInt.natAbs := Nat.pow_le_pow_right two_pos (by omega)
    have hlt := n.toUInt64.toNat_lt
    rw [toNat_downUnsigned]
    exact Nat.div_lt_of_lt_mul (by omega)
  rw [shiftUnsigned, if_neg (mt (toInt_nonneg_iff count).mp (not_le.mpr h)), toInt_toInt64 hroom,
    toNat_downUnsigned, Int.natCast_ediv, toNat_toUInt64, Nat.cast_pow, Nat.cast_ofNat]

/-- A shift takes its inputs as whole numbers, and its result becomes a double. -/
lemma shift_eq {a b : Value} {name : String} {line : ℕ} (ha : integer a name line = .ok n)
    (hb : integer b name line = .ok count) (move : Int64 → Int64 → Int64) :
    shift move name a b line = .ok (ofInteger (move n count)) := by
  rw [shift, ha, hb]
  rfl

lemma floor_div_pow (i : ℤ) (k : ℕ) : ⌊(i : ℚ) / 2 ^ k⌋ = i / 2 ^ k := by
  exact_mod_cast Rat.floor_intCast_div_natCast i (2 ^ k)

end Bits

open Bits

/-- **Shifts are exact for every number and every count.** With a count that is not negative, both
shifts multiply by a power of two, up to a multiple of `2 ^ 64`. With a negative one they divide by
a power of two and round down, one of them the number and the other one its bits read without a
sign. A count is cut down without an overflow on the way. -/
theorem shifts_exact (n count : Int64) :
    (0 ≤ count.toInt →
      (shiftSigned n count).toInt = (n.toInt * 2 ^ count.toInt.toNat).bmod (2 ^ 64) ∧
      (shiftUnsigned n count).toInt = (n.toInt * 2 ^ count.toInt.toNat).bmod (2 ^ 64)) ∧
    (count.toInt < 0 →
      (shiftSigned n count).toInt = ⌊(n.toInt : ℚ) / 2 ^ (-count.toInt).toNat⌋ ∧
      (shiftUnsigned n count).toInt = ⌊((n.toInt % 2 ^ 64 : ℤ) : ℚ) / 2 ^ (-count.toInt).toNat⌋ ∧
      0 ≤ (shiftUnsigned n count).toInt) ∧
    (count.abs.toUInt64.toNat = count.toInt.natAbs ∧
      (distance count).toNat = min count.toInt.natAbs (2 ^ 32 - 1)) ∧
    (∀ (a b : Value) (line : ℕ),
      (integer a "ashift" line = .ok n → integer b "ashift" line = .ok count →
        Operation.ashift.apply [a, b] line = .ok (ofInteger (shiftSigned n count))) ∧
      (integer a "lshift" line = .ok n → integer b "lshift" line = .ok count →
        Operation.lshift.apply [a, b] line = .ok (ofInteger (shiftUnsigned n count)))) := by
  refine ⟨fun hcount => ?_, fun hcount => ?_, ⟨toNat_size count, toNat_distance count⟩,
    fun a b line => ⟨fun ha hb => ?_, fun ha hb => ?_⟩⟩
  · have hsize : count.toInt.toNat = count.toInt.natAbs := by omega
    rw [shiftUnsigned_of_nonneg hcount, toInt_shiftSigned_of_nonneg hcount, hsize]
    exact ⟨rfl, rfl⟩
  · have hsize : (-count.toInt).toNat = count.toInt.natAbs := by omega
    rw [toInt_shiftSigned_of_neg hcount, toInt_shiftUnsigned_of_neg hcount, hsize, floor_div_pow,
      floor_div_pow]
    exact ⟨rfl, rfl, Int.ediv_nonneg (Int.emod_nonneg _ (by norm_num)) (by positivity)⟩
  · exact shift_eq ha hb shiftSigned
  · exact shift_eq ha hb shiftUnsigned

/-- Nine moved up by 61 places keeps one of its two bits, and minus eight moved down by 66 places
keeps none but copies of its sign. The least count is the one whose size has the most bits. -/
theorem shifts_exact_far :
    0 ≤ (61 : Int64).toInt ∧ (shiftSigned 9 61).toInt = 2 ^ 61 ∧
    (-66 : Int64).toInt < 0 ∧ (shiftSigned (-8) (-66)).toInt = -1 ∧
    (shiftUnsigned (-8) (-66)).toInt = 0 ∧
    Int64.minValue.abs.toUInt64.toNat = 2 ^ 63 ∧ (distance Int64.minValue).toNat = 2 ^ 32 - 1 ∧
    integer (.number 9.0) "ashift" 1 = .ok 9 ∧ integer (.number 61.0) "ashift" 1 = .ok 61 ∧
    Operation.ashift.apply [.number 9.0, .number 61.0] 1 = .ok (ofInteger (shiftSigned 9 61)) := by
  obtain ⟨hup, -, -, happly⟩ := shifts_exact 9 61
  obtain ⟨-, hdown, -, -⟩ := shifts_exact (-8) (-66)
  obtain ⟨-, -, hleast, -⟩ := shifts_exact 0 Int64.minValue
  have hcount : 0 ≤ (61 : Int64).toInt := by decide
  have hnegative : (-66 : Int64).toInt < 0 := by decide
  have hnine : integer (.number 9.0) "ashift" 1 = .ok 9 := by decide +kernel
  have hplaces : integer (.number 61.0) "ashift" 1 = .ok 61 := by decide +kernel
  obtain ⟨hsigned, hunsigned, -⟩ := hdown hnegative
  refine ⟨hcount, (hup hcount).1.trans (by decide), hnegative, hsigned.trans ?_,
    hunsigned.trans ?_, hleast.1, hleast.2, hnine, hplaces, (happly _ _ 1).1 hnine hplaces⟩
  · rw [floor_div_pow]
    decide +kernel
  · rw [floor_div_pow]
    decide +kernel

end Logo
