import Logo.Proofs.Values.WholeNumbers

/-!
# The double nearest to a whole number

A whole number that becomes a double is rounded: no other double is nearer to it, and of two doubles
that are equally near it is the one with an even mantissa. A whole number of at most 53 bits in a
row, with zeros behind them, is a double itself and keeps its value; all others lose it.

* `IsNearest`: the double that a number is rounded to.
* `Binary.gap`: how far apart two doubles are.
* `Binary.nearer_of_holds`: what lies in the interval of a double is nearest to it.
* `exists_holds`: a whole number lies in the interval of a double.
* `isNearest_ofInt`, `isExactly_ofInt_iff`, `isExactly_ofNat`: whole numbers that become doubles.
-/

namespace Logo.Number

open Float.Model Float.Model.UnpackedFloat

/-- Every other double is farther from the number, or it is equally far and this one is even. -/
def IsNearest (x : Float) (v : ℚ) : Prop :=
  ∃ b, parts x = .finite b ∧ ∀ y c, parts y = .finite c → c.value ≠ b.value →
    |b.value - v| < |c.value - v| ∨ |b.value - v| = |c.value - v| ∧ b.mantissa % 2 = 0

/-- The number is a multiple of a power of two by a factor of at most 53 bits. -/
def FitsDouble (i : ℤ) : Prop := ∃ (m : ℤ) (k : ℕ), |m| < 2 ^ 53 ∧ i = m * 2 ^ k

/-! ## Parts of doubles -/

/-- The numbers with which a double is computed are its parts. -/
lemma parts_of_unpack {x : Float} {b : Binary} (hpos : 0 < b.mantissa)
    (h : x.toModel.unpack = .finite (signOf b.negative) b.mantissa b.exponent hpos) :
    parts x = .finite b := by
  have hfinite : x.isFinite = true := by
    show x.toModel.unpack.isFinite = true
    rw [h]
    rfl
  obtain ⟨c, hparts⟩ := exists_parts_of_isFinite hfinite
  obtain ⟨-, hzero⟩ | ⟨hc, -, hsame⟩ := unpack_of_finite hparts
  · rw [h] at hzero
    cases hzero
  · rw [h] at hsame
    obtain ⟨hsign, hmantissa, hexponent⟩ := UnpackedFloat.finite.inj hsame
    have hnegative : b.negative = c.negative := by
      cases hb : b.negative <;> cases hc : c.negative <;> simp [hb, hc, signOf] at hsign ⊢
    rw [hparts, show b = c from ?_]
    cases b
    cases c
    simp_all

/-! ## Distances between doubles -/

/-- What lies in the interval of `m` is nearer to `m` than to a number that is as far away as its
neighbours are. It can only be as near to that if the ends belong to the interval. -/
lemma Between.nearer {closed : Prop} {m g t u : ℚ} (hg : 0 < g)
    (ht : Between closed (m - g) (m + 1 / 2) t) (hu : u ≤ m - 2 * g ∨ m + 1 ≤ u) :
    |m - t| < |u - t| ∨ |m - t| = |u - t| ∧ closed := by
  obtain ⟨hlow, hhigh⟩ := ht.le
  rcases hu with hu | hu
  · rw [abs_of_nonpos (show u - t ≤ 0 by linarith)]
    rcases ht.1 with hlt | ⟨hclosed, heq⟩
    · exact .inl (abs_lt.mpr ⟨by linarith, by linarith⟩)
    · rw [abs_of_nonneg (show 0 ≤ m - t by linarith)]
      rcases hu.lt_or_eq with hfar | hnext
      · exact .inl (by linarith)
      · exact .inr ⟨by linarith, hclosed⟩
  · rw [abs_of_nonneg (show 0 ≤ u - t by linarith)]
    rcases ht.2 with hlt | ⟨hclosed, heq⟩
    · exact .inl (abs_lt.mpr ⟨by linarith, by linarith⟩)
    · rw [abs_of_nonpos (show m - t ≤ 0 by linarith)]
      rcases hu.lt_or_eq with hfar | hnext
      · exact .inl (by linarith)
      · exact .inr ⟨by linarith, hclosed⟩

namespace Binary

variable {b c : Binary} {v : ℚ}

/-- The parts can be those of a double. -/
structure IsParts (c : Binary) : Prop where
  lt : c.mantissa < 2 ^ 53
  least : -1074 ≤ c.exponent

/-- The mantissa has 53 bits. -/
structure IsFull (b : Binary) : Prop extends b.IsParts where
  full : 2 ^ 52 ≤ b.mantissa
  greatest : b.exponent ≤ 971

lemma IsFull.isNormal (hb : b.IsFull) : b.IsNormal :=
  ⟨by have := hb.full; omega, hb.lt, hb.least, .inl hb.full⟩

lemma gapBelow_pos (b : Binary) : 0 < b.gapBelow := by
  unfold gapBelow
  split <;> norm_num

/-- The number with the other sign. -/
def opposite (b : Binary) : Binary := { b with negative := !b.negative }

lemma value_opposite (b : Binary) : b.opposite.value = -b.value := by
  unfold value opposite
  cases b.negative <;> simp

lemma value_of_not_negative (h : b.negative = false) : b.value = b.mantissa * 2 ^ b.exponent := by
  rw [value, h, if_neg Bool.false_ne_true, one_mul]

/-- **How far apart doubles are**, in units of the last bit of one of them. -/
lemma gap (hb : b.IsFull) (hsign : b.negative = false) (hc : c.IsParts) (hne : c.value ≠ b.value) :
    c.value / 2 ^ b.exponent ≤ b.mantissa - 2 * b.gapBelow ∨
      b.mantissa + 1 ≤ c.value / 2 ^ b.exponent := by
  have hpow : (0 : ℚ) < 2 ^ b.exponent := zpow_pos two_pos _
  have hgap := b.gapBelow_le
  have hfull : (2 : ℚ) ^ 52 ≤ b.mantissa := by exact_mod_cast hb.full
  cases hnegative : c.negative with
  | true =>
    -- on the other side of zero
    have hsize : (0 : ℚ) ≤ c.mantissa * 2 ^ c.exponent := by positivity
    have hvalue : c.value ≤ 0 := by
      rw [value, hnegative, if_pos rfl]
      linarith
    have hquotient := div_nonpos_of_nonpos_of_nonneg hvalue hpow.le
    exact .inl (by linarith)
  | false =>
    rw [value_of_not_negative hnegative, value_of_not_negative hsign] at hne
    rw [value_of_not_negative hnegative]
    rcases le_or_gt b.exponent c.exponent with hle | hlt
    · -- a multiple of the unit
      have hunits : c.mantissa * 2 ^ c.exponent / (2 : ℚ) ^ b.exponent =
          (c.mantissa * 2 ^ (c.exponent - b.exponent).toNat : ℕ) := by
        rw [div_eq_iff hpow.ne', ← zpow_add_toNat hle]
        push_cast
        ring
      generalize c.mantissa * 2 ^ (c.exponent - b.exponent).toNat = n at hunits
      have hother : n ≠ b.mantissa := by
        rintro rfl
        exact hne ((div_eq_iff hpow.ne').mp hunits)
      rw [hunits]
      rcases hother.lt_or_gt with hless | hmore
      · have hcast : (n : ℚ) + 1 ≤ b.mantissa := by exact_mod_cast hless
        exact .inl (by linarith)
      · exact .inr (by exact_mod_cast hmore)
    · -- too small for the mantissa
      have hlargest : (c.mantissa : ℚ) + 1 ≤ 2 ^ 53 := by exact_mod_cast hc.lt
      have hhalf : c.mantissa * 2 ^ c.exponent / (2 : ℚ) ^ b.exponent ≤ c.mantissa / 2 := by
        rw [div_le_div_iff₀ hpow two_pos, mul_assoc]
        have hstep : (2 : ℚ) ^ c.exponent * 2 ≤ 2 ^ b.exponent := by
          rw [← zpow_add_one₀ two_ne_zero]
          exact zpow_le_zpow_right₀ one_le_two (by omega)
        gcongr
      refine .inl (hhalf.trans ?_)
      by_cases hleast : b.mantissa = 2 ^ 52
      · have hdense : b.gapBelow = 1 / 4 := if_pos ⟨hleast, by have := hc.least; omega⟩
        rw [hdense]
        linarith
      · have hmore : (2 : ℚ) ^ 52 + 1 ≤ b.mantissa := by
          exact_mod_cast (by have := hb.full; omega : 2 ^ 52 + 1 ≤ b.mantissa)
        linarith

/-- **What lies in the interval of a double is nearest to it.** -/
lemma nearer_of_holds (hb : b.IsFull) (hsign : b.negative = false) (hv : b.Holds v)
    (hc : c.IsParts) (hne : c.value ≠ b.value) :
    |b.value - v| < |c.value - v| ∨ |b.value - v| = |c.value - v| ∧ b.mantissa % 2 = 0 := by
  have hpow : (0 : ℚ) < 2 ^ b.exponent := zpow_pos two_pos _
  have hscale : ∀ w : ℚ, |w - v| = |w / 2 ^ b.exponent - v / 2 ^ b.exponent| * 2 ^ b.exponent := by
    intro w
    rw [← sub_div, abs_div, abs_of_pos hpow, div_mul_cancel₀ _ hpow.ne']
  have hunits : b.value / 2 ^ b.exponent = b.mantissa := by
    rw [value_of_not_negative hsign, mul_div_cancel_right₀ _ hpow.ne']
  rw [hscale b.value, hscale c.value, hunits, mul_lt_mul_iff_left₀ hpow, mul_left_inj' hpow.ne']
  exact Between.nearer b.gapBelow_pos hv (gap hb hsign hc hne)

end Binary

/-! ## Whole numbers lie in the interval of a double -/

/-- Some whole number is nearest to a number, and of two it is the even one. -/
lemma exists_between {t : ℚ} (ht : 0 ≤ t) :
    ∃ k : ℕ, Between (k % 2 = 0) (k - 1 / 2) (k + 1 / 2) t := by
  have hfloor := Nat.floor_le ht
  have hceil := Nat.lt_floor_add_one t
  generalize ⌊t⌋₊ = k at hfloor hceil
  rcases lt_trichotomy t (k + 1 / 2) with hlow | hmiddle | hhigh
  · exact ⟨k, .inl (by linarith), .inl hlow⟩
  · -- halfway
    rcases Nat.mod_two_eq_zero_or_one k with heven | hodd
    · exact ⟨k, .inl (by linarith), .inr ⟨heven, hmiddle⟩⟩
    · refine ⟨k + 1, .inr ⟨by omega, ?_⟩, .inl ?_⟩ <;> push_cast <;> linarith
  · refine ⟨k + 1, .inl ?_, .inl ?_⟩ <;> push_cast <;> linarith

/-- A multiple of a power of two by a factor of at most 53 bits is the value of a double. -/
lemma exists_isFull {m : ℕ} (hpos : 0 < m) (hlt : m < 2 ^ 53) {k : ℕ} (hk : k ≤ 64) :
    ∃ b : Binary, b.IsFull ∧ b.negative = false ∧ b.value = m * 2 ^ k := by
  have hlog : m.log2 ≤ 52 := Nat.lt_succ_iff.mp ((Nat.log2_lt hpos.ne').mpr hlt)
  have hfull : 2 ^ 52 ≤ m * 2 ^ (52 - m.log2) := by
    calc 2 ^ 52 = 2 ^ m.log2 * 2 ^ (52 - m.log2) := by rw [← pow_add]; congr 1; omega
      _ ≤ m * 2 ^ (52 - m.log2) := by gcongr; exact Nat.log2_self_le hpos.ne'
  have hbits : m * 2 ^ (52 - m.log2) < 2 ^ 53 := by
    calc m * 2 ^ (52 - m.log2) < 2 ^ (m.log2 + 1) * 2 ^ (52 - m.log2) := by
          gcongr
          exact Nat.lt_log2_self
      _ = 2 ^ 53 := by rw [← pow_add]; congr 1; omega
  refine ⟨⟨false, m * 2 ^ (52 - m.log2), k - (52 - m.log2 : ℕ)⟩, ⟨⟨hbits, ?_⟩, hfull, ?_⟩, rfl, ?_⟩
  · dsimp only
    omega
  · dsimp only
    omega
  · rw [Binary.value_of_not_negative rfl]
    push_cast
    rw [mul_assoc, ← zpow_natCast, ← zpow_natCast, ← zpow_add₀ two_ne_zero, add_sub_cancel]

/-- **Every whole number of up to 64 bits lies in the interval of a double.** -/
lemma exists_holds {n : ℕ} (hpos : 0 < n) (hn : n < 2 ^ 64) :
    ∃ b : Binary, b.IsFull ∧ b.negative = false ∧ b.Holds n := by
  rcases Nat.lt_or_ge n (2 ^ 53) with hsmall | hlarge
  · obtain ⟨b, hb, hsign, hvalue⟩ := exists_isFull hpos hsmall (Nat.zero_le 64)
    rw [pow_zero, mul_one, Binary.value_of_not_negative hsign] at hvalue
    exact ⟨b, hb, hsign, hvalue ▸ b.holds_self⟩
  have hlog : 53 ≤ n.log2 := (Nat.le_log2 hpos.ne').mpr hlarge
  have hlog' : n.log2 < 64 := (Nat.log2_lt hpos.ne').mpr hn
  obtain ⟨s, hs⟩ : ∃ s, n.log2 = 52 + s := ⟨n.log2 - 52, by omega⟩
  have hpow : (0 : ℚ) < 2 ^ s := by positivity
  have hlow : 2 ^ 52 ≤ (n : ℚ) / 2 ^ s := by
    rw [le_div_iff₀ hpow, ← pow_add, ← hs]
    exact_mod_cast Nat.log2_self_le hpos.ne'
  have hhigh : (n : ℚ) / 2 ^ s < 2 ^ 53 := by
    rw [div_lt_iff₀ hpow, ← pow_add, show 53 + s = n.log2 + 1 by omega]
    exact_mod_cast Nat.lt_log2_self (n := n)
  obtain ⟨k, hk⟩ := exists_between (by linarith : 0 ≤ (n : ℚ) / 2 ^ s)
  obtain ⟨hkhigh, hklow⟩ := hk.le
  have hfull : 2 ^ 52 ≤ k := by
    have hcast : (2 : ℚ) ^ 52 < k + 1 := by linarith
    exact Nat.lt_succ_iff.mp (by exact_mod_cast hcast)
  have hbits : k ≤ 2 ^ 53 := by
    have hcast : (k : ℚ) < 2 ^ 53 + 1 := by linarith
    exact Nat.lt_succ_iff.mp (by exact_mod_cast hcast)
  rcases hbits.lt_or_eq with hlt | rfl
  · refine ⟨⟨false, k, s⟩, ⟨⟨hlt, by dsimp only; omega⟩, hfull, by dsimp only; omega⟩, rfl, ?_⟩
    unfold Binary.Holds Binary.gapBelow
    rw [zpow_natCast]
    split
    case isTrue hpower =>
      have hcast : (k : ℚ) = 2 ^ 52 := by exact_mod_cast hpower.1
      exact ⟨.inl (by dsimp only; linarith), hk.2⟩
    case isFalse => exact hk
  · -- rounded up to a power of two
    refine ⟨⟨false, 2 ^ 52, s + 1⟩, ⟨⟨by norm_num, by dsimp only; omega⟩, le_rfl,
      by dsimp only; omega⟩, rfl, ?_⟩
    have hgap : Binary.gapBelow ⟨false, 2 ^ 52, s + 1⟩ = 1 / 4 :=
      if_pos ⟨rfl, by dsimp only; omega⟩
    have hhalf : (n : ℚ) / 2 ^ ((s : ℤ) + 1) = n / 2 ^ s / 2 := by
      rw [zpow_add_one₀ two_ne_zero, zpow_natCast, div_div]
    unfold Binary.Holds
    dsimp only
    rw [hgap, hhalf]
    push_cast at hkhigh ⊢
    refine ⟨?_, .inl (by linarith)⟩
    rcases hkhigh.lt_or_eq with hless | heq
    · exact .inl (by linarith)
    · exact .inr ⟨by norm_num, by linarith⟩

/-! ## Whole numbers as doubles -/

lemma isParts_of_parts {x : Float} {c : Binary} (h : parts x = .finite c) : c.IsParts := by
  have hfraction : x.toBits.toNat % Nat.pow 2 52 < 2 ^ 52 := Nat.mod_lt _ (by decide)
  simp only [parts] at h
  split at h
  case isTrue => split at h <;> cases h
  case isFalse =>
    split at h
    case isTrue =>
      obtain rfl := Parts.finite.inj h
      exact ⟨hfraction.trans (by norm_num), le_rfl⟩
    case isFalse =>
      obtain rfl := Parts.finite.inj h
      refine ⟨?_, by dsimp only; omega⟩
      show 2 ^ 52 + x.toBits.toNat % Nat.pow 2 52 < 2 ^ 53
      omega

/-- Parts with 53 bits are those of a double. -/
lemma exists_unpack_of_isFull {b : Binary} (hb : b.IsFull) : ∃ x : Float,
    x.toModel.unpack = .finite (signOf b.negative) b.mantissa b.exponent hb.isNormal.pos :=
  ⟨.ofModel (.pack _), unpack_pack _ hb.isNormal.pos hb.full hb.lt hb.least hb.greatest⟩

/-- A whole number becomes the double in whose interval it lies. -/
lemma unpack_ofNat {n : ℕ} (hpos : 0 < n) {b : Binary} (hb : b.IsFull) (hsign : b.negative = false)
    (hv : b.Holds n) : (Float.ofNat n).toModel.unpack =
      .finite .positive b.mantissa b.exponent hb.isNormal.pos := by
  obtain ⟨x, hx⟩ := exists_unpack_of_isFull hb
  rw [hsign] at hx
  have hholds : b.Holds (n * 10 ^ (0 : ℤ)) := by rwa [zpow_zero, mul_one]
  have hread : Float.ofNat n = x :=
    ofScientific_eq hb.isNormal hx hpos hholds (by omega) (by omega)
  rw [hread, hx]
  rfl

/-- A whole number below zero becomes the double of its size, with the other sign. -/
lemma parts_ofInt {i : ℤ} (hne : i ≠ 0) {b : Binary} (hb : b.IsFull) (hsign : b.negative = false)
    (hv : b.Holds i.natAbs) :
    parts (Float.ofInt i) = .finite (if i < 0 then b.opposite else b) := by
  have hunpack := unpack_ofNat (Int.natAbs_pos.mpr hne) hb hsign hv
  have hpos := hb.isNormal.pos
  cases i with
  | ofNat n =>
    rw [if_neg (Int.not_lt.mpr (Int.natCast_nonneg n) : ¬ Int.ofNat n < 0)]
    exact parts_of_unpack hpos (by rw [hsign]; exact hunpack)
  | negSucc n =>
    rw [if_pos (Int.negSucc_lt_zero n)]
    have hneg : (Float.ofInt (.negSucc n)).toModel.unpack =
        (Float.Model.pack (Float.ofNat (n + 1)).toModel.unpack.neg).unpack := rfl
    have hsize : (Float.ofNat (n + 1)).toModel.unpack =
        .finite .positive b.mantissa b.exponent hpos := hunpack
    have hpacked := unpack_pack .negative hpos hb.full hb.lt hb.least hb.greatest
    rw [hsize] at hneg
    refine parts_of_unpack (b := b.opposite) hpos (hneg.trans (hpacked.trans ?_))
    simp only [Binary.opposite, hsign]
    rfl

/-- **A whole number of up to 64 bits becomes the double that is nearest to it.** -/
theorem isNearest_ofInt {i : ℤ} (hi : i.natAbs < 2 ^ 64) : IsNearest (Float.ofInt i) i := by
  rcases eq_or_ne i 0 with rfl | hne
  · refine ⟨⟨false, 0, -1074⟩, by decide +kernel, fun y c _ hother => .inl ?_⟩
    have hzero : Binary.value ⟨false, 0, -1074⟩ = 0 := by simp [Binary.value]
    rw [hzero] at hother ⊢
    simpa using hother
  obtain ⟨b, hb, hsign, hv⟩ := exists_holds (Int.natAbs_pos.mpr hne) hi
  refine ⟨_, parts_ofInt hne hb hsign hv, fun y c hy hother => ?_⟩
  have hc := isParts_of_parts hy
  by_cases hneg : i < 0
  · -- everything is turned round
    have hsize : (i.natAbs : ℚ) = -i := by rw [Nat.cast_natAbs, abs_of_neg hneg, Int.cast_neg]
    have hturned : ∀ d : Binary, |d.opposite.value - i| = |d.value - i.natAbs| := by
      intro d
      rw [Binary.value_opposite, hsize, ← abs_neg]
      congr 1
      ring
    have hback : c.opposite.opposite = c := by simp [Binary.opposite]
    rw [if_pos hneg, ← hback, hturned, hturned]
    refine Binary.nearer_of_holds hb hsign hv ⟨hc.lt, hc.least⟩ fun heq => hother ?_
    rw [if_pos hneg, Binary.value_opposite, ← heq, Binary.value_opposite, neg_neg]
  · have hsize : (i.natAbs : ℚ) = i := by rw [Nat.cast_natAbs, abs_of_nonneg (not_lt.mp hneg)]
    rw [if_neg hneg] at hother ⊢
    rw [← hsize]
    exact Binary.nearer_of_holds hb hsign hv hc hother

/-! ## Whole numbers that keep their value -/

lemma FitsDouble.neg {i : ℤ} (h : FitsDouble i) : FitsDouble (-i) := by
  obtain ⟨m, k, hm, rfl⟩ := h
  exact ⟨-m, k, by rwa [abs_neg], by rw [neg_mul]⟩

/-- A double that is a whole number has at most 53 bits in a row. -/
lemma fitsDouble_of_isExactly {x : Float} {i : ℤ} (h : IsExactly x i) : FitsDouble i := by
  obtain ⟨b, hparts, hvalue⟩ := h
  have hlt := (isParts_of_parts hparts).lt
  have hsize : FitsDouble b.wholeSize := by
    rcases le_total 0 b.exponent with hexponent | hexponent
    · refine ⟨b.mantissa, b.exponent.toNat, ?_, ?_⟩
      · rw [Nat.abs_cast]
        exact_mod_cast hlt
      · rw [Binary.wholeSize, show (-b.exponent).toNat = 0 by omega]
        simp
    · -- what is left without the fraction is not longer than the mantissa
      refine ⟨b.wholeSize, 0, ?_, by simp⟩
      have hle : b.wholeSize ≤ b.mantissa := by
        rw [Binary.wholeSize, show b.exponent.toNat = 0 by omega]
        exact (Nat.div_le_self _ _).trans (by simp)
      rw [Nat.abs_cast]
      exact_mod_cast hle.trans_lt hlt
  obtain ⟨hwhole, -⟩ := Binary.whole_eq hvalue
  rw [← hwhole, Binary.whole]
  split
  · exact hsize.neg
  · exact hsize

/-- **A whole number keeps its value as a double exactly if it has at most 53 bits in a row.** -/
theorem isExactly_ofInt_iff {i : ℤ} (hi : i.natAbs < 2 ^ 64) :
    IsExactly (Float.ofInt i) i ↔ FitsDouble i := by
  refine ⟨fitsDouble_of_isExactly, ?_⟩
  rintro ⟨m, k, hm, hmul⟩
  rcases eq_or_ne i 0 with rfl | hne
  · exact ⟨⟨false, 0, -1074⟩, by decide +kernel, by simp [Binary.value]⟩
  have hsize : i.natAbs = m.natAbs * 2 ^ k := by
    rw [hmul, Int.natAbs_mul, Int.natAbs_pow]
    rfl
  have hpos : 0 < m.natAbs := by
    rcases Nat.eq_zero_or_pos m.natAbs with hzero | hpos
    · rw [hzero, zero_mul] at hsize
      omega
    · exact hpos
  have hk : k < 64 := by
    have hle : 2 ^ k ≤ i.natAbs := hsize ▸ Nat.le_mul_of_pos_left _ hpos
    exact (Nat.pow_lt_pow_iff_right one_lt_two).mp (hle.trans_lt hi)
  have hbits : m.natAbs < 2 ^ 53 := by
    rw [Int.abs_eq_natAbs] at hm
    exact_mod_cast hm
  obtain ⟨b, hb, hsign, hvalue⟩ := exists_isFull hpos hbits hk.le
  have hcast : b.value = i.natAbs := by
    rw [hvalue, hsize]
    push_cast
    rfl
  have hv : b.Holds i.natAbs := by
    rw [← hcast, Binary.value_of_not_negative hsign]
    exact b.holds_self
  refine ⟨_, parts_ofInt hne hb hsign hv, ?_⟩
  by_cases hneg : i < 0
  · rw [if_pos hneg, Binary.value_opposite, hcast, Nat.cast_natAbs, abs_of_neg hneg, Int.cast_neg,
      neg_neg]
  · rw [if_neg hneg, hcast, Nat.cast_natAbs, abs_of_nonneg (not_lt.mp hneg)]

/-- A size of at most 53 bits is a double exactly. -/
lemma isExactly_ofNat {n : ℕ} (hn : n < 2 ^ 53) : IsExactly (Float.ofNat n) n := by
  have hfits : FitsDouble n := ⟨n, 0, by rw [Nat.abs_cast]; exact_mod_cast hn, by simp⟩
  exact (isExactly_ofInt_iff (by omega)).mpr hfits

/-! ## Arithmetic of such numbers -/

namespace FitsDouble

variable {i : ℤ}

/-- The bits of a double that are left when it is multiplied beyond the word. -/
lemma bmod (h : FitsDouble i) : FitsDouble (i.bmod (2 ^ 64)) := by
  obtain ⟨m, k, hm, rfl⟩ := h
  obtain ⟨hlow, hhigh⟩ := abs_lt.mp hm
  rcases Nat.lt_or_ge k 11 with hk | hk
  · -- it fits into the word
    have hpow : (2 : ℤ) ^ k ≤ 2 ^ 10 := pow_le_pow_right₀ one_le_two (by omega)
    have hpos : (0 : ℤ) < 2 ^ k := by positivity
    refine ⟨m, k, hm, Int.bmod_eq_of_le ?_ ?_⟩
    · push_cast
      nlinarith
    · push_cast
      nlinarith
  · -- the word is no longer than the bits of a double with eleven zeros
    have hzeros : m * 2 ^ k = m * 2 ^ (k - 11) * 2 ^ 11 := by
      rw [mul_assoc, ← pow_add, Nat.sub_add_cancel hk]
    have hrest := Int.bmod_eq_self_sub_mul_bdiv (m * 2 ^ k) (2 ^ 64)
    have hleast := Int.le_bmod (x := m * 2 ^ k) (m := 2 ^ 64) (by norm_num)
    have hmost := Int.bmod_le (x := m * 2 ^ k) (m := 2 ^ 64) (by norm_num)
    generalize (m * 2 ^ k).bmod (2 ^ 64) = r at *
    generalize (m * 2 ^ k).bdiv (2 ^ 64) = q at *
    rw [hzeros] at hrest
    generalize m * 2 ^ (k - 11) = u at *
    push_cast at hrest hleast hmost
    exact ⟨u - 2 ^ 53 * q, 11, abs_lt.mpr ⟨by omega, by omega⟩, by omega⟩

lemma mul_pow (h : FitsDouble i) (k : ℕ) : FitsDouble (i * 2 ^ k) := by
  obtain ⟨m, l, hm, rfl⟩ := h
  exact ⟨m, l + k, hm, by rw [mul_assoc, pow_add]⟩

/-- The bits of a double that are left above some place. -/
lemma ediv_pow (h : FitsDouble i) (k : ℕ) : FitsDouble (i / 2 ^ k) := by
  obtain ⟨m, l, hm, rfl⟩ := h
  rcases le_total k l with hk | hk
  · refine ⟨m, l - k, hm, ?_⟩
    rw [← Nat.sub_add_cancel hk, pow_add, ← mul_assoc, Nat.add_sub_cancel,
      Int.mul_ediv_cancel _ (by positivity)]
  · refine ⟨m / 2 ^ (k - l), 0, (Int.abs_ediv_le_abs _ _).trans_lt hm, ?_⟩
    rw [← Nat.sub_add_cancel hk, pow_add, Nat.add_sub_cancel,
      Int.mul_ediv_mul_of_pos_left _ _ (by positivity), pow_zero, mul_one]

end FitsDouble

end Logo.Number
