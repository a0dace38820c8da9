import Logo.Number.Text
import Logo.Proofs.Values.Doubles

/-!
# Rounding to the nearest double

The text of a double is a decimal that lies among the reals which round to it. This file shows that
reading the decimal does round to it. Arithmetic on doubles computes a mantissa with two more bits,
which tell how far off the exact result is; the two together stand for a rational number. From there
on the rational number is all that counts: the result is the double in whose interval it lies.

* `Stands`: the number that a mantissa with its two extra bits stands for.
* `Binary.Holds`: the numbers that round to a double.
* `roundWithAccuracy_eq`: what lies in the interval of a double is rounded to it.
* `ofScientific_eq`: a decimal in the interval of a double is read as that double.
-/

namespace Logo.Number

open Float.Model Float.Model.UnpackedFloat

/-! ## Mantissas with extra bits -/

/-- The mantissa with its two extra bits stands for `y`: the first bit tells whether a half is
missing, the second whether something more is. -/
def Stands (em : ExtendedMantissa) (y : ℚ) : Prop :=
  match em.roundBit, em.stickyBit with
  | false, false => y = em.mantissa
  | false, true => em.mantissa < y ∧ y < em.mantissa + 1 / 2
  | true, false => y = em.mantissa + 1 / 2
  | true, true => em.mantissa + 1 / 2 < y ∧ y < em.mantissa + 1

namespace Stands

variable {em : ExtendedMantissa} {y : ℚ}

lemma bounds (h : Stands em y) : em.mantissa ≤ y ∧ y < em.mantissa + 1 := by
  obtain ⟨m, r, s⟩ := em
  cases r <;> cases s <;> simp only [Stands] at h ⊢ <;> constructor <;> linarith

/-- One bit less. -/
lemma shiftRightOne (h : Stands em y) : Stands em.shiftRightOne (y / 2) := by
  obtain ⟨m, r, s⟩ := em
  have hm : ((m % 2 : ℕ) : ℚ) + 2 * ((m / 2 : ℕ) : ℚ) = m := by exact_mod_cast Nat.mod_add_div m 2
  rcases Nat.mod_two_eq_zero_or_one m with hbit | hbit <;> rw [hbit] at hm <;> push_cast at hm <;>
    cases r <;> cases s <;> simp only [Stands, ExtendedMantissa.shiftRightOne, hbit] at h ⊢
  all_goals simp
  all_goals first
    | linarith
    | constructor <;> linarith

lemma shiftRight (h : Stands em y) (n : ℕ) : Stands (em >>> n) (y / 2 ^ n) := by
  show Stands (n.repeat ExtendedMantissa.shiftRightOne em) _
  induction n with
  | zero => simpa [Nat.repeat] using h
  | succ n ih =>
    rw [Nat.repeat, pow_succ, ← div_div]
    exact ih.shiftRightOne

/-- A fraction next to a whole number. -/
lemma of_fraction (q : ℕ) {num den : ℕ} (h : num < den) :
    Stands (.ofMantissaAndAccuracy q (accuracyOfFraction num den)) (q + num / den) := by
  have hden : (0 : ℚ) < den := by exact_mod_cast Nat.zero_lt_of_lt h
  have hlt : (num : ℚ) / den < 1 := by
    rw [div_lt_one hden]
    exact_mod_cast h
  unfold accuracyOfFraction
  split
  case isTrue hzero => simp [Stands, ExtendedMantissa.ofMantissaAndAccuracy, hzero]
  case isFalse hne =>
    have hpos : (0 : ℚ) < num / den := div_pos (by exact_mod_cast Nat.pos_of_ne_zero hne) hden
    cases hcompare : compare (2 * num) den with
    | lt =>
      have hhalf : (num : ℚ) / den < 1 / 2 := by
        rw [div_lt_div_iff₀ hden two_pos]
        exact_mod_cast (by have := Nat.compare_eq_lt.mp hcompare; omega : num * 2 < 1 * den)
      show (q : ℚ) < q + num / den ∧ (q : ℚ) + num / den < q + 1 / 2
      constructor <;> linarith
    | eq =>
      have hhalf : (num : ℚ) / den = 1 / 2 := by
        rw [div_eq_div_iff hden.ne' two_ne_zero]
        exact_mod_cast (by have := Nat.compare_eq_eq.mp hcompare; omega : num * 2 = 1 * den)
      simp [Stands, ExtendedMantissa.ofMantissaAndAccuracy, hhalf]
    | gt =>
      have hhalf : 1 / 2 < (num : ℚ) / den := by
        rw [div_lt_div_iff₀ two_pos hden]
        exact_mod_cast (by have := Nat.compare_eq_gt.mp hcompare; omega : 1 * den < num * 2)
      show (q : ℚ) + 1 / 2 < q + num / den ∧ (q : ℚ) + num / den < q + 1
      constructor <;> linarith

end Stands

/-- The number lies between the ends, where an end itself belongs to it only if `closed`. -/
def Between (closed : Prop) (low high y : ℚ) : Prop :=
  (low < y ∨ closed ∧ low = y) ∧ (y < high ∨ closed ∧ y = high)

lemma Between.le {closed : Prop} {low high y : ℚ} (h : Between closed low high y) :
    low ≤ y ∧ y ≤ high := by
  obtain ⟨hlow | ⟨-, hlow⟩, hhigh | ⟨-, hhigh⟩⟩ := h
  all_goals constructor <;> linarith

/-- The whole number nearest to `y` is found; of two that are equally near it is the even one. -/
lemma Stands.roundedMantissa_eq {em : ExtendedMantissa} {y : ℚ} (h : Stands em y) {n : ℕ}
    (hn : Between (n % 2 = 0) (n - 1 / 2) (n + 1 / 2) y) : em.roundedMantissa = n := by
  obtain ⟨hlow, hhigh⟩ := hn.le
  obtain ⟨hfloor, hceil⟩ := h.bounds
  -- only the two whole numbers around `y` are near enough
  have hcases : em.mantissa = n ∨ em.mantissa + 1 = n := by
    have hupper : n < em.mantissa + 2 := by
      have : (n : ℚ) < em.mantissa + 2 := by linarith
      exact_mod_cast this
    have hlower : em.mantissa < n + 1 := by
      have : (em.mantissa : ℚ) < n + 1 := by linarith
      exact_mod_cast this
    omega
  obtain ⟨m, r, s⟩ := em
  cases r <;> cases s <;> simp only [Stands] at h <;> rcases hcases with rfl | rfl
  all_goals push_cast at hlow hhigh
  case false.false.inl | false.true.inl | true.true.inr => rfl
  case false.false.inr | false.true.inr | true.true.inl => exfalso; linarith
  case true.false.inl =>
    -- halfway above an even number
    have heven : m % 2 = 0 := by
      rcases hn.2 with hlt | ⟨heven, -⟩
      · linarith
      · exact heven
    exact congrArg (m + ·) heven
  case true.false.inr =>
    have hodd : (m + 1) % 2 = 0 := by
      rcases hn.1 with hlt | ⟨heven, -⟩
      · push_cast at hlt
        linarith
      · exact heven
    exact congrArg (m + ·) (by omega : m % 2 = 1)

/-! ## The numbers that round to a double -/

namespace Binary

/-- The mantissa is not zero and has 53 bits, or fewer with the least exponent. -/
structure IsNormal (b : Binary) : Prop where
  pos : 0 < b.mantissa
  lt : b.mantissa < 2 ^ 53
  least : -1074 ≤ b.exponent
  full : 2 ^ 52 ≤ b.mantissa ∨ b.exponent = -1074

/-- Half the distance to the double below, in units of the last bit. It is smaller below a power of
two, where the doubles are twice as dense. -/
def gapBelow (b : Binary) : ℚ := if b.mantissa = 2 ^ 52 ∧ -1074 < b.exponent then 1 / 4 else 1 / 2

/-- The number lies in the interval of those that round to `b`. -/
def Holds (b : Binary) (v : ℚ) : Prop :=
  Between (b.mantissa % 2 = 0) (b.mantissa - b.gapBelow) (b.mantissa + 1 / 2) (v / 2 ^ b.exponent)

lemma gapBelow_le (b : Binary) : b.gapBelow ≤ 1 / 2 := by
  unfold gapBelow
  split <;> norm_num

end Binary

/-! ## Rounding -/

/-- The exponent to which a mantissa is brought. -/
def targetOf (m : ℕ) (e : ℤ) : ℤ := max (m.log2 + 1 + e - 53) (-1074)

lemma zpow_add_toNat {e t : ℤ} (h : e ≤ t) : (2 : ℚ) ^ e * 2 ^ (t - e).toNat = 2 ^ t := by
  rw [← zpow_natCast, ← zpow_add₀ two_ne_zero, Int.toNat_of_nonneg (by omega)]
  congr 1
  omega

variable {v : ℚ} {m : ℕ} {e : ℤ} {accuracy : Accuracy}

lemma shiftToTargetExponent_eq (he : e ≤ targetOf m e)
    (h : Stands (.ofMantissaAndAccuracy m accuracy) (v / 2 ^ e)) :
    ∃ em, shiftToTargetExponent Format.binary64 m e accuracy = (em, targetOf m e) ∧
      Stands em (v / 2 ^ targetOf m e) := by
  refine ⟨_, Prod.ext rfl ?_, ?_⟩
  · show e + ((targetOf m e - e).toNat : ℤ) = targetOf m e
    omega
  · have hshift := h.shiftRight (targetOf m e - e).toNat
    rwa [div_div, zpow_add_toNat he] at hshift

lemma mantissa_ofMantissaAndAccuracy (m : ℕ) (accuracy : Accuracy) :
    (ExtendedMantissa.ofMantissaAndAccuracy m accuracy).mantissa = m := by
  rcases accuracy with _ | (_ | _ | _) <;> rfl

/-- The exponent is large enough for 53 bits, and not too large unless it is the least one. -/
lemma bounds_of_target (he : e ≤ targetOf m e)
    (h : Stands (.ofMantissaAndAccuracy m accuracy) (v / 2 ^ e)) :
    v < 2 ^ (targetOf m e + 53) ∧ (-1074 < targetOf m e → 2 ^ (targetOf m e + 52) ≤ v) := by
  obtain ⟨hlow, hhigh⟩ := h.bounds
  have hpos : (0 : ℚ) < 2 ^ e := zpow_pos two_pos e
  rw [mantissa_ofMantissaAndAccuracy, le_div_iff₀ hpos] at hlow
  rw [mantissa_ofMantissaAndAccuracy, div_lt_iff₀ hpos] at hhigh
  constructor
  · have hbits : ((m : ℚ) + 1) ≤ 2 ^ (m.log2 + 1) := by exact_mod_cast Nat.lt_log2_self (n := m)
    calc v < ((m : ℚ) + 1) * 2 ^ e := hhigh
      _ ≤ 2 ^ (m.log2 + 1) * 2 ^ e := by gcongr
      _ = 2 ^ ((m.log2 + 1 : ℕ) + e) := by rw [zpow_add₀ two_ne_zero, zpow_natCast]
      _ ≤ 2 ^ (targetOf m e + 53) := by
        refine zpow_le_zpow_right₀ one_le_two ?_
        unfold targetOf
        omega
  · intro hleast
    have ht : targetOf m e = m.log2 + 1 + e - 53 := by
      unfold targetOf at hleast ⊢
      omega
    have hne : m ≠ 0 := by
      rintro rfl
      simp at ht
      omega
    have hbits : (2 : ℚ) ^ m.log2 ≤ m := by exact_mod_cast Nat.log2_self_le hne
    calc (2 : ℚ) ^ (targetOf m e + 52) = 2 ^ ((m.log2 : ℤ) + e) := by
          congr 1
          omega
      _ = 2 ^ m.log2 * 2 ^ e := by rw [zpow_add₀ two_ne_zero, zpow_natCast]
      _ ≤ m * 2 ^ e := by gcongr
      _ ≤ v := hlow

lemma div_zpow_lt {t E : ℤ} {n : ℕ} (h : v < 2 ^ t) (ht : t ≤ n + E) : v / 2 ^ E < 2 ^ n := by
  rw [div_lt_iff₀ (zpow_pos two_pos E), ← zpow_natCast, ← zpow_add₀ two_ne_zero]
  exact h.trans_le (zpow_le_zpow_right₀ one_le_two ht)

lemma le_div_zpow {t E : ℤ} {n : ℕ} (h : 2 ^ t ≤ v) (ht : n + E ≤ t) : 2 ^ n ≤ v / 2 ^ E := by
  rw [le_div_iff₀ (zpow_pos two_pos E), ← zpow_natCast, ← zpow_add₀ two_ne_zero]
  exact (zpow_le_zpow_right₀ one_le_two ht).trans h

/-- The exponent of the double is taken, or the one below it. The latter happens below a power of
two, where 53 bits leave one bit more. -/
lemma target_cases {b : Binary} (hb : b.IsNormal) (hv : b.Holds v) {t : ℤ}
    (hupper : v < 2 ^ (t + 53)) (hlower : -1074 < t → 2 ^ (t + 52) ≤ v) (hleast : -1074 ≤ t) :
    t = b.exponent ∨ t = b.exponent - 1 ∧ b.mantissa = 2 ^ 52 := by
  obtain ⟨hlow, hhigh⟩ := Between.le hv
  have hgap := b.gapBelow_le
  have hlt : (b.mantissa : ℚ) + 1 ≤ 2 ^ 53 := by exact_mod_cast hb.lt
  rcases lt_trichotomy t b.exponent with hless | heq | hmore
  · -- the number would be too small for the mantissa
    have hfull : 2 ^ 52 ≤ b.mantissa := hb.full.resolve_right (by omega)
    have hfull' : (2 : ℚ) ^ 52 ≤ b.mantissa := by exact_mod_cast hfull
    have hnext : t = b.exponent - 1 := by
      by_contra hne
      have hsmall : v / 2 ^ b.exponent < 2 ^ 51 := div_zpow_lt hupper (by push_cast; omega)
      have hhalf : (2 : ℚ) ^ 51 + 1 / 2 < 2 ^ 52 := by norm_num
      linarith
    refine .inr ⟨hnext, le_antisymm ?_ hfull⟩
    have hsmall : v / 2 ^ b.exponent < 2 ^ 52 := div_zpow_lt hupper (by push_cast; omega)
    have hmantissa : (b.mantissa : ℚ) < 2 ^ 52 + 1 := by linarith
    exact Nat.lt_succ_iff.mp (by exact_mod_cast hmantissa)
  · exact .inl heq
  · have hlarge : 2 ^ 53 ≤ v / 2 ^ b.exponent :=
      le_div_zpow (hlower (by have := hb.least; omega)) (by push_cast; omega)
    linarith

/-- A mantissa of at most 53 bits stays as it is. -/
lemma shiftToTargetExponent_of_lt {n : ℕ} {t : ℤ} (hn : n < 2 ^ 53) (ht : -1074 ≤ t) :
    shiftToTargetExponent Format.binary64 n t .exact = (⟨n, false, false⟩, t) := by
  have hlog : n.log2 ≤ 52 := by
    by_cases hzero : n = 0
    · simp [hzero]
    · exact Nat.lt_succ_iff.mp ((Nat.log2_lt hzero).mpr hn)
  have htarget : (targetOf n t - t).toNat = 0 := by
    unfold targetOf
    omega
  show (ExtendedMantissa.ofMantissaAndAccuracy n .exact >>> (targetOf n t - t).toNat,
    t + ((targetOf n t - t).toNat : ℤ)) = _
  rw [htarget]
  simp [HShiftRight.hShiftRight, Nat.repeat, ExtendedMantissa.ofMantissaAndAccuracy]

/-- One bit too many is given up. -/
lemma shiftToTargetExponent_carry {t : ℤ} (ht : -1074 ≤ t) :
    shiftToTargetExponent Format.binary64 (2 ^ 53) t .exact =
      (⟨2 ^ 52, false, false⟩, t + 1) := by
  have htarget : (targetOf (2 ^ 53) t - t).toNat = 1 := by
    rw [targetOf, Nat.log2_two_pow]
    omega
  show (ExtendedMantissa.ofMantissaAndAccuracy (2 ^ 53) .exact >>> (targetOf (2 ^ 53) t - t).toNat,
    t + ((targetOf (2 ^ 53) t - t).toNat : ℤ)) = _
  rw [htarget]
  rfl

lemma roundWithAccuracy_of_shifts {em em' : ExtendedMantissa} {t t' : ℤ} {n : ℕ} (sign : Sign)
    (hfirst : shiftToTargetExponent Format.binary64 m e accuracy = (em, t))
    (hsecond : shiftToTargetExponent Format.binary64 em.roundedMantissa t .exact = (em', t'))
    (hn : em'.mantissa = n) (hpos : 0 < n) :
    roundWithAccuracy Format.binary64 sign m e accuracy = .finite sign n t' hpos := by
  subst hn
  unfold roundWithAccuracy
  simp only [hfirst, hsecond]
  exact dif_neg hpos.ne'

/-- **What lies in the interval of a double is rounded to it.** -/
theorem roundWithAccuracy_eq {b : Binary} (hb : b.IsNormal) (hv : b.Holds v)
    (he : e ≤ targetOf m e) (h : Stands (.ofMantissaAndAccuracy m accuracy) (v / 2 ^ e))
    (sign : Sign) :
    roundWithAccuracy Format.binary64 sign m e accuracy =
      .finite sign b.mantissa b.exponent hb.pos := by
  obtain ⟨em, hshift, hem⟩ := shiftToTargetExponent_eq he h
  obtain ⟨hupper, hlower⟩ := bounds_of_target he h
  have hleast : -1074 ≤ targetOf m e := le_max_right _ _
  rcases target_cases hb hv hupper hlower hleast with htarget | ⟨htarget, hpower⟩
  · rw [htarget] at hshift hem
    have hrounded : em.roundedMantissa = b.mantissa := by
      refine hem.roundedMantissa_eq ⟨?_, hv.2⟩
      have hgap := b.gapBelow_le
      rcases hv.1 with hlt | ⟨heven, heq⟩
      · exact .inl (by linarith)
      · rcases hgap.lt_or_eq with hless | hhalf
        · exact .inl (by linarith)
        · exact .inr ⟨heven, hhalf ▸ heq⟩
    have hkept := shiftToTargetExponent_of_lt hb.lt hb.least
    rw [← hrounded] at hkept
    exact roundWithAccuracy_of_shifts sign hshift hkept hrounded hb.pos
  · -- just below a power of two the bits are those of the power, one place lower
    have hrounded : em.roundedMantissa = 2 ^ 53 := by
      have hgap : b.gapBelow = 1 / 4 := if_pos ⟨hpower, by omega⟩
      have hdouble : v / 2 ^ targetOf m e = 2 * (v / 2 ^ b.exponent) := by
        rw [htarget, zpow_sub_one₀ two_ne_zero]
        field_simp
      have hbelow : v / 2 ^ b.exponent < 2 ^ 52 := div_zpow_lt hupper (by push_cast; omega)
      obtain ⟨hlow, -⟩ := Between.le hv
      rw [hgap, hpower] at hlow
      push_cast at hlow
      refine hem.roundedMantissa_eq ⟨?_, .inl ?_⟩
      · rw [hdouble]
        push_cast
        rcases hlow.lt_or_eq with hlt | heq
        · exact .inl (by linarith)
        · exact .inr ⟨by norm_num, by linarith⟩
      · rw [hdouble]
        push_cast
        linarith
    have hcarry := shiftToTargetExponent_carry hleast
    rw [← hrounded, htarget, sub_add_cancel] at hcarry
    rw [htarget] at hshift
    exact roundWithAccuracy_of_shifts sign hshift hcarry hpower.symm hb.pos

/-! ## Products and quotients -/

section Arithmetic

variable {b : Binary} {m₁ m₂ : ℕ} {e₁ e₂ : ℤ}

/-- A product with at least 53 bits. -/
lemma mul_eq (hb : b.IsNormal) (h₁ : 0 < m₁) (h₂ : 0 < m₂) (hbits : 2 ^ 52 ≤ m₁ * m₂)
    (hv : b.Holds (m₁ * 2 ^ e₁ * (m₂ * 2 ^ e₂))) :
    UnpackedFloat.mul Format.binary64 (.finite .positive m₁ e₁ h₁) (.finite .positive m₂ e₂ h₂) =
      .finite .positive b.mantissa b.exponent hb.pos := by
  refine roundWithAccuracy_eq hb hv ?_ ?_ .positive
  · have hlog : 52 ≤ (m₁ * m₂).log2 := (Nat.le_log2 (Nat.mul_pos h₁ h₂).ne').mpr hbits
    unfold targetOf
    omega
  · show _ / _ = ((m₁ * m₂ : ℕ) : ℚ)
    rw [zpow_add₀ two_ne_zero]
    push_cast
    field_simp

lemma divCore_eq (m₁ m₂ : ℕ) (e₁ e₂ : ℤ) : ∃ e : ℤ, ∃ shift : ℕ,
    divCore Format.binary64 m₁ e₁ m₂ e₂ = (m₁ * 2 ^ shift / m₂, e,
      accuracyOfFraction (m₁ * 2 ^ shift % m₂) m₂) ∧
    e₁ - e₂ - e = shift ∧ (e ≤ -1074 ∨ e ≤ (m₁.log2 + e₁) - (m₂.log2 + e₂) - 53) := by
  let e := min (e₁ - e₂)
    (Format.binary64.targetExponent (totalExponent m₁ e₁ - totalExponent m₂ e₂))
  have he : e = min (e₁ - e₂) (max ((m₁.log2 + 1 + e₁) - (m₂.log2 + 1 + e₂) - 53) (-1074)) := rfl
  refine ⟨e, (e₁ - e₂ - e).toNat, ?_, by omega, by omega⟩
  rw [← Nat.shiftLeft_eq]
  rfl

/-- A quotient. -/
lemma div_eq (hb : b.IsNormal) (h₁ : 0 < m₁) (h₂ : 0 < m₂)
    (hv : b.Holds (m₁ * 2 ^ e₁ / (m₂ * 2 ^ e₂))) :
    UnpackedFloat.div Format.binary64 (.finite .positive m₁ e₁ h₁) (.finite .positive m₂ e₂ h₂) =
      .finite .positive b.mantissa b.exponent hb.pos := by
  obtain ⟨e, shift, hcore, hshift, he⟩ := divCore_eq m₁ m₂ e₁ e₂
  show roundWithAccuracy Format.binary64 .positive (divCore Format.binary64 m₁ e₁ m₂ e₂).1
    (divCore Format.binary64 m₁ e₁ m₂ e₂).2.1 (divCore Format.binary64 m₁ e₁ m₂ e₂).2.2 = _
  rw [hcore]
  dsimp only
  have hne : (m₂ : ℚ) ≠ 0 := by exact_mod_cast h₂.ne'
  refine roundWithAccuracy_eq hb hv ?_ ?_ .positive
  · -- the quotient has 53 bits, unless its exponent is the least one
    rcases he with he | he
    · exact he.trans (le_max_right _ _)
    · have hquotient : 2 ^ 52 ≤ m₁ * 2 ^ shift / m₂ := by
        rw [Nat.le_div_iff_mul_le h₂]
        calc 2 ^ 52 * m₂ ≤ 2 ^ 52 * 2 ^ (m₂.log2 + 1) := by
              gcongr
              exact Nat.lt_log2_self.le
          _ = 2 ^ (m₂.log2 + 53) := by rw [← pow_add]; congr 1; omega
          _ ≤ 2 ^ (m₁.log2 + shift) := Nat.pow_le_pow_right two_pos (by omega)
          _ = 2 ^ m₁.log2 * 2 ^ shift := pow_add _ _ _
          _ ≤ m₁ * 2 ^ shift := by
              gcongr
              exact Nat.log2_self_le h₁.ne'
      have hlog := (Nat.le_log2 (by omega)).mpr hquotient
      unfold targetOf
      omega
  · have hvalue : (m₁ * 2 ^ e₁ / (m₂ * 2 ^ e₂)) / (2 : ℚ) ^ e = (m₁ * 2 ^ shift : ℕ) / m₂ := by
      have hpow : (2 : ℚ) ^ e₁ = 2 ^ e₂ * 2 ^ e * 2 ^ shift := by
        rw [← zpow_natCast, ← zpow_add₀ two_ne_zero, ← zpow_add₀ two_ne_zero]
        congr 1
        omega
      rw [hpow]
      push_cast
      field_simp
    have hsplit : ((m₁ * 2 ^ shift : ℕ) : ℚ) / m₂ =
        (m₁ * 2 ^ shift / m₂ : ℕ) + (m₁ * 2 ^ shift % m₂ : ℕ) / m₂ := by
      field_simp
      exact_mod_cast (Nat.div_add_mod (m₁ * 2 ^ shift) m₂).symm
    rw [hvalue, hsplit]
    exact Stands.of_fraction _ (Nat.mod_lt _ h₂)

end Arithmetic

/-! ## Decimals -/

/-- A double is put together again from its parts. -/
lemma ofModel_pack_unpack (x : Float) : Float.ofModel (Float.Model.pack x.toModel.unpack) = x :=
  Float.toBits_inj.1 (UInt64.toBitVec_inj.1 (pack_unpack_of_valid x.toModel.valid))

/-- The bit that is left out of a mantissa of 53 bits. -/
lemma toNat_withLeadingOne (fraction : BitVec 52) :
    (1#1 ++ fraction).toNat = 2 ^ 52 + fraction.toNat := by
  rw [BitVec.toNat_append, ← Nat.shiftLeft_add_eq_or_of_lt (BitVec.isLt _), Nat.shiftLeft_eq]
  rfl

/-- Packing a mantissa of 53 bits loses nothing. -/
lemma unpack_pack (sign : Sign) {m : ℕ} {e : ℤ} (hpos : 0 < m) (hfull : 2 ^ 52 ≤ m)
    (hlt : m < 2 ^ 53) (hleast : -1074 ≤ e) (hgreatest : e ≤ 971) :
    (Float.Model.pack (.finite sign m e hpos)).unpack = .finite sign m e hpos := by
  have hlog : m.log2 + 1 = 53 := by
    have hle := (Nat.le_log2 hpos.ne').mpr hfull
    have hlt := (Nat.log2_lt hpos.ne').mpr hlt
    omega
  have hpack : UnpackedFloat.pack Format.binary64 (.finite sign m e hpos) =
      packComponents Format.binary64 sign (BitVec.ofNat 11 (e + 1075).toNat)
        (BitVec.ofNat 52 m) := by
    have hinfinite : ¬ 2 ^ 11 ≤ (e + 1023 + 52).toNat + 1 := by omega
    have hbiased : e + 1075 = e + 1023 + 52 := by omega
    rw [hbiased]
    exact (if_neg hinfinite).trans (if_pos hlog)
  have hexponent : (BitVec.ofNat 11 (e + 1075).toNat).toNat = (e + 1075).toNat := by
    rw [BitVec.toNat_ofNat, Nat.mod_eq_of_lt (by omega)]
  have hones : BitVec.ofNat 11 (e + 1075).toNat ≠ -1#11 := by
    intro heq
    have hbits := congrArg BitVec.toNat heq
    rw [hexponent] at hbits
    have hall : (-1#11 : BitVec 11).toNat = 2047 := rfl
    omega
  have hzeros : BitVec.ofNat 11 (e + 1075).toNat ≠ 0#11 := by
    intro heq
    have hbits := congrArg BitVec.toNat heq
    rw [hexponent] at hbits
    have hnone : (0#11 : BitVec 11).toNat = 0 := rfl
    omega
  have hmantissa : (1#1 ++ BitVec.ofNat 52 m).toNat = m := by
    rw [toNat_withLeadingOne, BitVec.toNat_ofNat]
    omega
  show UnpackedFloat.unpack Format.binary64 (UnpackedFloat.pack Format.binary64 _) = _
  rw [hpack, UnpackedFloat.unpack]
  simp only [unpackExponent_packComponents, unpackMantissa_packComponents,
    unpackSign_packComponents, Sign.ofBitVec_toBitVec]
  rw [if_neg hones, if_neg hzeros]
  simp only [hmantissa, hexponent]
  congr 1
  show ((e + 1075).toNat : ℤ) - (1023 + 52) = e
  omega

/-- A whole number of at most 53 bits is exact. -/
lemma unpack_toFloat {n : ℕ} (hpos : 0 < n) (hlt : n < 2 ^ 53) :
    ∃ m e, ∃ h : 0 < m, n.toUInt64.toFloat.toModel.unpack = .finite .positive m e h ∧
      2 ^ 52 ≤ m ∧ (m : ℚ) * 2 ^ e = n := by
  have hlog : n.log2 ≤ 52 := Nat.lt_succ_iff.mp ((Nat.log2_lt hpos.ne').mpr hlt)
  let shift := 52 - n.log2
  have hfull : 2 ^ 52 ≤ n * 2 ^ shift := by
    calc 2 ^ 52 = 2 ^ n.log2 * 2 ^ shift := by rw [← pow_add]; congr 1; omega
      _ ≤ n * 2 ^ shift := by gcongr; exact Nat.log2_self_le hpos.ne'
  have hbits : n * 2 ^ shift < 2 ^ 53 := by
    calc n * 2 ^ shift < 2 ^ (n.log2 + 1) * 2 ^ shift := by gcongr; exact Nat.lt_log2_self
      _ = 2 ^ 53 := by rw [← pow_add]; congr 1; omega
  have hm : 0 < n * 2 ^ shift := by positivity
  have hround : UnpackedFloat.round Format.binary64 .positive n 0 =
      .finite .positive (n * 2 ^ shift) (-shift) hm := by
    have htarget : (0 - targetOf n 0).toNat = shift := by
      unfold targetOf
      omega
    have hkept := shiftToTargetExponent_of_lt hbits (show -1074 ≤ -(shift : ℤ) by omega)
    have hrounded := roundWithAccuracy_of_shifts .positive hkept hkept rfl hm
    show roundWithAccuracy Format.binary64 .positive (n <<< (0 - targetOf n 0).toNat)
      (0 - ((0 - targetOf n 0).toNat : ℤ)) .exact = _
    rw [htarget, Nat.shiftLeft_eq, zero_sub]
    exact hrounded
  have hvalue : n.toUInt64.toNat = n := Nat.mod_eq_of_lt (by omega)
  have hmodel : n.toUInt64.toFloat.toModel.unpack =
      (Float.Model.pack (.finite .positive (n * 2 ^ shift) (-shift) hm)).unpack := by
    have hcompare : compare (n : ℤ) 0 = .gt := by
      rw [compare_gt_iff_gt]
      exact_mod_cast hpos
    show (Float.Model.pack
      (normalize Format.binary64 (n.toUInt64.toNat : ℤ) 0 .positive)).unpack = _
    unfold UnpackedFloat.normalize
    rw [hvalue, hcompare]
    dsimp only
    rw [Int.toNat_natCast, hround]
  refine ⟨n * 2 ^ shift, -shift, hm, ?_, hfull, ?_⟩
  · rw [hmodel, unpack_pack .positive hm hfull hbits (by omega) (by omega)]
  · push_cast
    rw [mul_assoc, ← zpow_natCast, ← zpow_add₀ two_ne_zero, add_neg_cancel, zpow_zero, mul_one]

lemma zpow_mul_toNat {a : ℚ} (ha : a ≠ 0) (e : ℤ) : a ^ e * a ^ (-e).toNat = a ^ e.toNat := by
  rw [← zpow_natCast, ← zpow_natCast, ← zpow_add₀ ha]
  congr 1
  omega

/-- The unpacked double is the power of ten. -/
def isPowerOfTen (k : ℕ) : UnpackedFloat → Bool
  | .finite .positive m e _ => m * 2 ^ e.toNat == 10 ^ k * 2 ^ (-e).toNat
  | _ => false

lemma exists_of_isPowerOfTen {k : ℕ} {u : UnpackedFloat} (h : isPowerOfTen k u = true) :
    ∃ m e, ∃ hm : 0 < m, u = .finite .positive m e hm ∧ (m : ℚ) * 2 ^ e = 10 ^ k := by
  unfold isPowerOfTen at h
  split at h
  case h_1 m e hm =>
    refine ⟨m, e, hm, rfl, ?_⟩
    have hpow : (0 : ℚ) < 2 ^ (-e).toNat := by positivity
    have hcast : (m : ℚ) * 2 ^ e.toNat = 10 ^ k * 2 ^ (-e).toNat := by
      exact_mod_cast eq_of_beq h
    rw [← zpow_mul_toNat two_ne_zero, ← mul_assoc] at hcast
    exact mul_right_cancel₀ hpow.ne' hcast
  case h_2 => cases h

/-- The powers of ten that are looked up are exact. -/
lemma unpack_power {k : ℕ} (hk : k < Float.exactlyRepresentablePowersOfTen.size) :
    ∃ m e, ∃ h : 0 < m, (Float.exactlyRepresentablePowersOfTen[k]).toModel.unpack =
      .finite .positive m e h ∧ (m : ℚ) * 2 ^ e = 10 ^ k := by
  have hall : ∀ k : Fin 23, isPowerOfTen k
      (Float.exactlyRepresentablePowersOfTen[k]).toModel.unpack = true := by decide +kernel
  exact exists_of_isPowerOfTen (hall ⟨k, hk⟩)

section Decimals

variable {x : Float} {b : Binary} {n : ℕ} {e : ℤ}

/-- The exact way to read a decimal. -/
lemma unpackedOfScientific_eq (hb : b.IsNormal) (hn : 0 < n) (hv : b.Holds (n * 10 ^ e))
    (hlarge : e ≤ 2048) (hsmall : -(2048 + n.log2) ≤ e) :
    UnpackedFloat.ofScientific Format.binary64 n e =
      .finite .positive b.mantissa b.exponent hb.pos := by
  have hhuge : ¬ e > 2 ^ Format.binary64.exponentBits := by
    show ¬ e > 2 ^ 11
    omega
  have htiny : ¬ e < -((2 ^ Format.binary64.exponentBits : ℤ) + n.log2) := by
    show ¬ e < -((2 ^ 11 : ℤ) + n.log2)
    omega
  unfold UnpackedFloat.ofScientific
  rw [dif_neg hn.ne', if_neg hhuge, if_neg htiny]
  split
  case isTrue hneg =>
    have hshift : n <<< Format.binary64.mantissaBits = n * 2 ^ 53 := Nat.shiftLeft_eq n 53
    refine mul_eq hb _ _ ?_ ?_
    · rw [hshift]
      calc 2 ^ 52 ≤ 1 * 2 ^ 53 * 1 := by norm_num
        _ ≤ n * 2 ^ 53 * 10 ^ e.toNat := by
          gcongr <;> exact Nat.one_le_iff_ne_zero.mpr (by positivity)
    · have hexact : ((n <<< Format.binary64.mantissaBits : ℕ) : ℚ) *
          2 ^ (-(Format.binary64.mantissaBits : ℤ)) = n := by
        rw [hshift]
        show ((n * 2 ^ 53 : ℕ) : ℚ) * 2 ^ (-53 : ℤ) = n
        push_cast
        rw [mul_assoc]
        norm_num
      have hpower : (10 : ℚ) ^ e = ((10 ^ e.toNat : ℕ) : ℚ) * 2 ^ (0 : ℤ) := by
        push_cast
        rw [mul_one, ← zpow_natCast, Int.toNat_of_nonneg hneg]
      rwa [hexact, ← hpower]
  case isFalse hneg =>
    refine div_eq hb hn _ ?_
    have hpower : (10 : ℚ) ^ e = (((10 ^ (-e).toNat : ℕ) : ℚ) * 2 ^ (0 : ℤ))⁻¹ := by
      push_cast
      rw [mul_one, ← zpow_natCast, ← zpow_neg]
      congr 1
      omega
    rw [hpower, ← div_eq_mul_inv] at hv
    rwa [zpow_zero, mul_one]

/-- The fast way to read a decimal, by one operation on doubles. -/
lemma unpacked_fast_eq (hb : b.IsNormal) (hn : 0 < n) (hv : b.Holds (n * 10 ^ e))
    (hfew : n < 2 ^ 53) (hsize : e.natAbs < Float.exactlyRepresentablePowersOfTen.size) :
    (if e < 0 then UnpackedFloat.div else UnpackedFloat.mul) Format.binary64
      n.toUInt64.toFloat.toModel.unpack
      (Float.exactlyRepresentablePowersOfTen[e.natAbs]).toModel.unpack =
        .finite .positive b.mantissa b.exponent hb.pos := by
  obtain ⟨m₁, e₁, h₁, hm₁, hfull, hvalue₁⟩ := unpack_toFloat hn hfew
  obtain ⟨m₂, e₂, h₂, hm₂, hvalue₂⟩ := unpack_power hsize
  rw [hm₁, hm₂]
  split
  case isTrue hneg =>
    refine div_eq hb h₁ h₂ ?_
    have hpower : (10 : ℚ) ^ e = (10 ^ e.natAbs)⁻¹ := by
      rw [← zpow_natCast, ← zpow_neg]
      congr 1
      omega
    rwa [hvalue₁, hvalue₂, div_eq_mul_inv, ← hpower]
  case isFalse hneg =>
    refine mul_eq hb h₁ h₂ (le_mul_of_le_of_one_le hfull h₂) ?_
    have hpower : (10 : ℚ) ^ e = 10 ^ e.natAbs := by
      rw [← zpow_natCast]
      congr 1
      omega
    rwa [hvalue₁, hvalue₂, ← hpower]

/-- **A decimal in the interval of a double is read as that double.** -/
theorem ofScientific_eq (hb : b.IsNormal)
    (hx : x.toModel.unpack = .finite .positive b.mantissa b.exponent hb.pos) (hn : 0 < n)
    (hv : b.Holds (n * 10 ^ e)) (hlarge : e ≤ 2048) (hsmall : -(2048 + n.log2) ≤ e) :
    Float.ofScientific n (e < 0) e.natAbs = x := by
  have hsame : ∀ u, u = .finite .positive b.mantissa b.exponent hb.pos →
      Float.ofModel (Float.Model.pack u) = x := by
    rintro _ rfl
    rw [← hx, ofModel_pack_unpack]
  unfold Float.ofScientific
  split
  case isTrue hfast =>
    have hunpacked := unpacked_fast_eq hb hn hv hfast.1 (Nat.lt_succ_of_le hfast.2)
    by_cases hneg : e < 0
    · rw [if_pos hneg] at hunpacked
      simp only [hneg, decide_true, if_true]
      exact hsame _ hunpacked
    · rw [if_neg hneg] at hunpacked
      simp only [hneg, decide_false, Bool.false_eq_true, if_false]
      exact hsame _ hunpacked
  case isFalse hslow =>
    have hexponent : (if decide (e < 0) = true then Int.negOfNat e.natAbs
        else Int.ofNat e.natAbs) = e := by
      by_cases hneg : e < 0
      · simp only [hneg, decide_true, if_true, Int.negOfNat_eq, Int.ofNat_eq_natCast]
        omega
      · simp only [hneg, decide_false, Bool.false_eq_true, if_false, Int.ofNat_eq_natCast]
        omega
    refine hsame (UnpackedFloat.ofScientific Format.binary64 n _) ?_
    rw [hexponent]
    exact unpackedOfScientific_eq hb hn hv hlarge hsmall

end Decimals

end Logo.Number
