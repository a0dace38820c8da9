import Logo.Proofs.Bits.Shifts
import Logo.Proofs.Values.Nearest

/-!
# The results of operations on bits

An operation on bits takes doubles that are whole numbers of 64 bits and gives the double nearest to
a whole number of 64 bits. So the result can lose digits, without an error, although no input has
lost any. It keeps them if it is as short as a double, and for some inputs it always is.

* `StandsFor`: the inputs that are taken for a whole number.
* `Gives`: what the operations say of whole numbers, bit by bit.
* `KeepsDigits`: the inputs for which no digit can be lost.
* `Gives.fitsDouble`: results without loss.
* `bit_operations_round`: the operations on all inputs, and operations that undo each other.
-/

namespace Logo

open Number

namespace Bits

/-! ## Inputs -/

/-- The value is a number, or a word that is read as one, and the number is exactly `n`. -/
def StandsFor (v : Value) (n : Int64) : Prop := ∃ x, v.number? = some x ∧ IsExactly x n.toInt

variable {v : Value} {n m : Int64}

/-- **The inputs that the operations on bits take.** -/
lemma integer_eq_ok_iff {name : String} {line : ℕ} :
    integer v name line = .ok n ↔ StandsFor v n := by
  have hmap : integer v name line = (v.asInteger name line).map Int64.ofInt := by
    rw [integer]
    cases v.asInteger name line <;> rfl
  rw [hmap]
  constructor
  · intro h
    cases hi : v.asInteger name line with
    | error e =>
      rw [hi] at h
      cases h
    | ok i =>
      rw [hi] at h
      obtain rfl := Except.ok.inj h
      obtain ⟨x, hx, hinteger⟩ := Value.asInteger_eq_ok_iff.mp hi
      obtain ⟨hexact, hlow, hhigh⟩ := toInteger_eq_ok_iff.mp hinteger
      exact ⟨x, hx, by rwa [Int64.toInt_ofInt_of_le hlow hhigh]⟩
  · rintro ⟨x, hx, hn⟩
    rw [Value.asInteger_of_isExactly hx hn, if_pos ⟨n.le_toInt, n.toInt_lt⟩]
    exact congrArg Except.ok n.ofInt_toInt

lemma standsFor_ofInteger : StandsFor (ofInteger n) n ↔ FitsDouble n.toInt := by
  have hlow := n.le_toInt
  have hhigh := n.toInt_lt
  rw [← isExactly_ofInt_iff (i := n.toInt) (by omega)]
  exact ⟨fun ⟨x, hx, hn⟩ => Option.some.inj hx ▸ hn, fun hn => ⟨_, rfl, hn⟩⟩

/-- A value stands for one whole number only. -/
lemma StandsFor.unique (hn : StandsFor v n) (hm : StandsFor v m) : n = m := by
  have htaken : integer v "" 0 = .ok n := integer_eq_ok_iff.mpr hn
  exact Except.ok.inj (htaken.symm.trans (integer_eq_ok_iff.mpr hm))

lemma StandsFor.fitsDouble (h : StandsFor v n) : FitsDouble n.toInt := by
  obtain ⟨x, -, hx⟩ := h
  exact fitsDouble_of_isExactly hx

/-- All inputs are taken for whole numbers at once. -/
lemma mapM_integer {inputs : List Value} {ns : List Int64}
    (h : List.Forall₂ StandsFor inputs ns) (name : String) (line : ℕ) :
    inputs.mapM (fun v => integer v name line) = .ok ns := by
  induction h with
  | nil => rfl
  | cons hv _ ih =>
    rw [List.mapM_cons, integer_eq_ok_iff.mpr hv, ih]
    rfl

/-! ## Results, bit by bit -/

/-- A bit of a number. -/
def bit (n : Int64) (k : ℕ) : Bool := n.toBitVec.getLsbD k

/-- What an operation says of whole numbers: of each bit, or of the number that is moved. -/
inductive Gives : Operation → List Int64 → Int64 → Prop
  | bitand {ns : List Int64} {r : Int64} :
    (∀ k < 64, bit r k = true ↔ ∀ n ∈ ns, bit n k = true) → Gives .bitand ns r
  | bitor {ns : List Int64} {r : Int64} :
    (∀ k < 64, bit r k = true ↔ ∃ n ∈ ns, bit n k = true) → Gives .bitor ns r
  | bitxor {ns : List Int64} {r : Int64} :
    (∀ k < 64, bit r k = true ↔ Odd (ns.countP (bit · k))) → Gives .bitxor ns r
  | bitnot {n : Int64} {ns : List Int64} {r : Int64} :
    (∀ k < 64, bit r k = true ↔ bit n k = false) → Gives .bitnot (n :: ns) r
  | ashift {n count : Int64} {ns : List Int64} {r : Int64} :
    r.toInt = (if 0 ≤ count.toInt then (n.toInt * 2 ^ count.toInt.natAbs).bmod (2 ^ 64)
      else n.toInt / 2 ^ count.toInt.natAbs) → Gives .ashift (n :: count :: ns) r
  | lshift {n count : Int64} {ns : List Int64} {r : Int64} :
    r.toInt = (if 0 ≤ count.toInt then (n.toInt * 2 ^ count.toInt.natAbs).bmod (2 ^ 64)
      else n.toInt % 2 ^ 64 / 2 ^ count.toInt.natAbs) → Gives .lshift (n :: count :: ns) r

/-- Numbers with the same bits are the same. -/
lemma ext_bit (h : ∀ k < 64, (bit n k = true ↔ bit m k = true)) : n = m := by
  refine Int64.toBitVec_inj.mp (BitVec.eq_of_getLsbD_eq fun k hk => ?_)
  exact Bool.eq_iff_iff.mpr (h k hk)

lemma bit_and (k : ℕ) : bit (n &&& m) k = (bit n k && bit m k) := by
  rw [bit, Int64.toBitVec_and, BitVec.getLsbD_and]
  rfl

lemma bit_or (k : ℕ) : bit (n ||| m) k = (bit n k || bit m k) := by
  rw [bit, Int64.toBitVec_or, BitVec.getLsbD_or]
  rfl

lemma bit_xor (k : ℕ) : bit (n ^^^ m) k = (bit n k ^^ bit m k) := by
  rw [bit, Int64.toBitVec_xor, BitVec.getLsbD_xor]
  rfl

lemma bit_not {k : ℕ} (hk : k < 64) : bit (~~~n) k = !bit n k := by
  rw [bit, Int64.toBitVec_not, BitVec.getLsbD_not, decide_eq_true hk, Bool.true_and]
  rfl

/-- A bit of numbers that are combined bit by bit. -/
lemma bit_foldl {combine : Int64 → Int64 → Int64} {combineBits : Bool → Bool → Bool} {k : ℕ}
    (h : ∀ n m, bit (combine n m) k = combineBits (bit n k) (bit m k)) (unit : Int64)
    (ns : List Int64) :
    bit (ns.foldl combine unit) k = (ns.map (bit · k)).foldl combineBits (bit unit k) := by
  rw [List.foldl_map]
  exact (List.foldl_hom (bit · k) fun n m => (h n m).symm).symm

lemma foldl_and (b : Bool) (bs : List Bool) :
    bs.foldl (· && ·) b = true ↔ b = true ∧ ∀ c ∈ bs, c = true := by
  induction bs generalizing b with
  | nil => simp
  | cons c bs ih => simp [ih, and_assoc]

lemma foldl_or (b : Bool) (bs : List Bool) :
    bs.foldl (· || ·) b = true ↔ b = true ∨ ∃ c ∈ bs, c = true := by
  induction bs generalizing b with
  | nil => simp
  | cons c bs ih => simp [ih, or_assoc]

lemma foldl_xor (b : Bool) (bs : List Bool) :
    bs.foldl (· ^^ ·) b = (b ^^ decide (Odd (bs.countP id))) := by
  induction bs generalizing b with
  | nil => simp
  | cons c bs ih =>
    rw [List.foldl_cons, ih, List.countP_cons]
    cases c <;> simp [Nat.odd_add_one, ← Nat.not_even_iff_odd]

lemma bit_neg_one {k : ℕ} (hk : k < 64) : bit (-1) k = true := by
  rw [bit, show (-1 : Int64).toBitVec = BitVec.allOnes 64 from rfl, BitVec.getLsbD_allOnes,
    decide_eq_true hk]

lemma bit_zero (k : ℕ) : bit 0 k = false := BitVec.getLsbD_zero

variable {ns : List Int64} {k : ℕ}

lemma gives_bitand (ns : List Int64) : Gives .bitand ns (ns.foldl (· &&& ·) (-1)) :=
  .bitand fun k hk => by
    rw [bit_foldl (fun _ _ => bit_and k), foldl_and, bit_neg_one hk]
    simp

lemma gives_bitor (ns : List Int64) : Gives .bitor ns (ns.foldl (· ||| ·) 0) :=
  .bitor fun k _ => by
    rw [bit_foldl (fun _ _ => bit_or k), foldl_or, bit_zero]
    simp

lemma gives_bitxor (ns : List Int64) : Gives .bitxor ns (ns.foldl (· ^^^ ·) 0) :=
  .bitxor fun k _ => by
    rw [bit_foldl (fun _ _ => bit_xor k), foldl_xor, bit_zero, Bool.false_xor, decide_eq_true_iff,
      List.countP_map]
    rfl

lemma gives_bitnot (n : Int64) (ns : List Int64) : Gives .bitnot (n :: ns) (~~~n) :=
  .bitnot fun k hk => by rw [bit_not hk, Bool.not_eq_true']

lemma gives_ashift (n count : Int64) (ns : List Int64) :
    Gives .ashift (n :: count :: ns) (shiftSigned n count) := by
  refine .ashift ?_
  split
  case isTrue h => exact toInt_shiftSigned_of_nonneg h
  case isFalse h => exact toInt_shiftSigned_of_neg (not_le.mp h)

lemma gives_lshift (n count : Int64) (ns : List Int64) :
    Gives .lshift (n :: count :: ns) (shiftUnsigned n count) := by
  refine .lshift ?_
  split
  case isTrue h => rw [shiftUnsigned_of_nonneg h, toInt_shiftSigned_of_nonneg h]
  case isFalse h => exact toInt_shiftUnsigned_of_neg (not_le.mp h)

/-- An operation says one thing only. -/
lemma Gives.unique {op : Operation} {r r' : Int64} (h : Gives op ns r) (h' : Gives op ns r') :
    r = r' := by
  cases h with
  | bitand h => cases h' with
    | bitand h' => exact ext_bit fun k hk => (h k hk).trans (h' k hk).symm
  | bitor h => cases h' with
    | bitor h' => exact ext_bit fun k hk => (h k hk).trans (h' k hk).symm
  | bitxor h => cases h' with
    | bitxor h' => exact ext_bit fun k hk => (h k hk).trans (h' k hk).symm
  | bitnot h => cases h' with
    | bitnot h' => exact ext_bit fun k hk => (h k hk).trans (h' k hk).symm
  | ashift h => cases h' with
    | ashift h' => exact Int64.toInt_inj.mp (h.trans h'.symm)
  | lshift h => cases h' with
    | lshift h' => exact Int64.toInt_inj.mp (h.trans h'.symm)

lemma bitwise_eq {inputs : List Value} {ns : List Int64} (h : List.Forall₂ StandsFor inputs ns)
    (combine : Int64 → Int64 → Int64) (unit : Int64) (name : String) (line : ℕ) :
    bitwise combine unit name inputs line = .ok (ofInteger (ns.foldl combine unit)) := by
  rw [bitwise, mapM_integer h]
  rfl

/-- **What the operations compute is what they say.** -/
lemma Gives.apply_eq {op : Operation} {inputs : List Value} {r : Int64} (h : Gives op ns r)
    (hinputs : List.Forall₂ StandsFor inputs ns) (line : ℕ) :
    op.apply inputs line = .ok (ofInteger r) := by
  cases h with
  | bitand hr =>
    rw [(Gives.bitand hr).unique (gives_bitand ns)]
    exact bitwise_eq hinputs (· &&& ·) (-1) "bitand" line
  | bitor hr =>
    rw [(Gives.bitor hr).unique (gives_bitor ns)]
    exact bitwise_eq hinputs (· ||| ·) 0 "bitor" line
  | bitxor hr =>
    rw [(Gives.bitxor hr).unique (gives_bitxor ns)]
    exact bitwise_eq hinputs (· ^^^ ·) 0 "bitxor" line
  | @bitnot n ns r hr =>
    obtain ⟨v, inputs, hv, -, rfl⟩ := List.forall₂_cons_right_iff.mp hinputs
    rw [(Gives.bitnot hr).unique (gives_bitnot n ns)]
    show Bits.bitnot v line = _
    rw [Bits.bitnot, integer_eq_ok_iff.mpr hv]
    rfl
  | @ashift n count ns r hr =>
    obtain ⟨a, inputs, ha, hrest, rfl⟩ := List.forall₂_cons_right_iff.mp hinputs
    obtain ⟨b, inputs, hb, -, rfl⟩ := List.forall₂_cons_right_iff.mp hrest
    rw [(Gives.ashift hr).unique (gives_ashift n count ns)]
    exact shift_eq (integer_eq_ok_iff.mpr ha) (integer_eq_ok_iff.mpr hb) shiftSigned
  | @lshift n count ns r hr =>
    obtain ⟨a, inputs, ha, hrest, rfl⟩ := List.forall₂_cons_right_iff.mp hinputs
    obtain ⟨b, inputs, hb, -, rfl⟩ := List.forall₂_cons_right_iff.mp hrest
    rw [(Gives.lshift hr).unique (gives_lshift n count ns)]
    exact shift_eq (integer_eq_ok_iff.mpr ha) (integer_eq_ok_iff.mpr hb) shiftUnsigned

/-! ## Small numbers -/

/-- The number has at most 53 bits besides its sign. -/
def IsSmall (n : Int64) : Prop := -2 ^ 53 ≤ n.toInt ∧ n.toInt < 2 ^ 53

lemma IsSmall.fitsDouble (h : IsSmall n) : FitsDouble n.toInt := by
  obtain ⟨hlow, hhigh⟩ := h
  rcases hlow.lt_or_eq with hlt | heq
  · exact ⟨n.toInt, 0, abs_lt.mpr ⟨hlt, hhigh⟩, by simp⟩
  · exact ⟨-1, 53, by norm_num, by rw [← heq]; norm_num⟩

/-- Only two words have the same bit everywhere. -/
lemma eq_zero_or_neg_one_iff {u : BitVec 64} :
    u = 0 ∨ u = -1 ↔ ∃ b, ∀ k < 64, u.getLsbD k = b := by
  have hones : (-1 : BitVec 64) = BitVec.allOnes 64 := rfl
  rw [hones]
  constructor
  · rintro (rfl | rfl)
    · exact ⟨false, fun k _ => BitVec.getLsbD_zero⟩
    · exact ⟨true, fun k hk => by rw [BitVec.getLsbD_allOnes, decide_eq_true hk]⟩
  · rintro ⟨_ | _, h⟩
    · exact .inl (BitVec.eq_of_getLsbD_eq fun k hk => (h k hk).trans BitVec.getLsbD_zero.symm)
    · refine .inr (BitVec.eq_of_getLsbD_eq fun k hk => ?_)
      rw [h k hk, BitVec.getLsbD_allOnes, decide_eq_true hk]

/-- A number is small if its upper bits are copies of its sign. -/
lemma isSmall_iff_bit : IsSmall n ↔ ∀ k, 53 ≤ k → k < 64 → bit n k = bit n 63 := by
  have hvalue : (n.toBitVec.sshiftRight 53).toInt = n.toInt / 2 ^ 53 := by
    rw [BitVec.toInt_sshiftRight, Int.shiftRight_eq_div_pow]
    rfl
  have hbits : ∀ k < 64, (n.toBitVec.sshiftRight 53).getLsbD k =
      if 53 + k < 64 then bit n (53 + k) else bit n 63 := by
    intro k hk
    rw [BitVec.getLsbD_sshiftRight, BitVec.msb_eq_getLsbD_last, decide_eq_false (by omega)]
    rfl
  have hupper : IsSmall n ↔ n.toBitVec.sshiftRight 53 = 0 ∨ n.toBitVec.sshiftRight 53 = -1 := by
    rw [← BitVec.toInt_inj, ← BitVec.toInt_inj, hvalue,
      show (0 : BitVec 64).toInt = 0 from rfl, show (-1 : BitVec 64).toInt = -1 from rfl]
    unfold IsSmall
    omega
  rw [hupper, eq_zero_or_neg_one_iff]
  constructor
  · rintro ⟨b, h⟩ k hk hlt
    have hbit := hbits (k - 53) (by omega)
    have hsign := hbits 10 (by omega)
    rw [h _ (by omega), if_pos (by omega), Nat.add_sub_cancel' hk] at hbit
    rw [h _ (by omega), if_pos (by omega)] at hsign
    exact hbit.symm.trans hsign
  · intro h
    refine ⟨bit n 63, fun k hk => ?_⟩
    rw [hbits k hk]
    split
    case isTrue hlt => exact h _ (by omega) hlt
    case isFalse => rfl

lemma fitsDouble_of_bits (h : ∀ k, 53 ≤ k → k < 64 → (bit n k = true ↔ bit n 63 = true)) :
    FitsDouble n.toInt :=
  (isSmall_iff_bit.mpr fun k hk hlt => Bool.eq_iff_iff.mpr (h k hk hlt)).fitsDouble

/-! ## Results without loss -/

variable {count : Int64}

/-- **Shifts with the sign lose no digits.** -/
lemma fitsDouble_shiftSigned (h : FitsDouble n.toInt) :
    FitsDouble (shiftSigned n count).toInt := by
  rcases le_or_gt 0 count.toInt with hcount | hcount
  · rw [toInt_shiftSigned_of_nonneg hcount]
    exact (h.mul_pow _).bmod
  · rw [toInt_shiftSigned_of_neg hcount]
    exact h.ediv_pow _

/-- Shifts without the sign lose no digits if they go up or if there is no sign. -/
lemma shiftUnsigned_eq_shiftSigned (h : 0 ≤ n.toInt ∨ 0 ≤ count.toInt) :
    shiftUnsigned n count = shiftSigned n count := by
  rcases le_or_gt 0 count.toInt with hcount | hcount
  · exact shiftUnsigned_of_nonneg hcount
  · have hn : 0 ≤ n.toInt := h.resolve_right (not_le.mpr hcount)
    have hlt := n.toInt_lt
    rw [← Int64.toInt_inj, toInt_shiftUnsigned_of_neg hcount, toInt_shiftSigned_of_neg hcount,
      Int.emod_eq_of_lt hn (by omega)]

/-- No digit of the result can be lost. -/
def KeepsDigits : Operation → List Int64 → Prop
  | .ashift, _ => True
  | .lshift, n :: count :: _ => 0 ≤ n.toInt ∨ 0 ≤ count.toInt
  | _, ns => ∀ n ∈ ns, IsSmall n

/-- **Results without loss.** -/
lemma Gives.fitsDouble {op : Operation} {inputs : List Value} {ns : List Int64} {r : Int64}
    (h : Gives op ns r) (hinputs : List.Forall₂ StandsFor inputs ns) (hkeeps : KeepsDigits op ns) :
    FitsDouble r.toInt := by
  cases h with
  | bitand h =>
    refine fitsDouble_of_bits fun k hk hlt => ?_
    rw [h k hlt, h 63 (by omega)]
    exact forall₂_congr fun n hn => by rw [isSmall_iff_bit.mp (hkeeps n hn) k hk hlt]
  | bitor h =>
    refine fitsDouble_of_bits fun k hk hlt => ?_
    rw [h k hlt, h 63 (by omega)]
    exact exists_congr fun n => and_congr_right fun hn => by
      rw [isSmall_iff_bit.mp (hkeeps n hn) k hk hlt]
  | bitxor h =>
    refine fitsDouble_of_bits fun k hk hlt => ?_
    rw [h k hlt, h 63 (by omega), List.countP_congr fun n hn => by
      rw [isSmall_iff_bit.mp (hkeeps n hn) k hk hlt]]
  | @bitnot n ns r h =>
    refine fitsDouble_of_bits fun k hk hlt => ?_
    rw [h k hlt, h 63 (by omega), isSmall_iff_bit.mp (hkeeps n List.mem_cons_self) k hk hlt]
  | @ashift n count ns r hr =>
    obtain ⟨a, inputs, ha, -, rfl⟩ := List.forall₂_cons_right_iff.mp hinputs
    rw [(Gives.ashift hr).unique (gives_ashift n count ns)]
    exact fitsDouble_shiftSigned ha.fitsDouble
  | @lshift n count ns r hr =>
    obtain ⟨a, inputs, ha, -, rfl⟩ := List.forall₂_cons_right_iff.mp hinputs
    rw [(Gives.lshift hr).unique (gives_lshift n count ns), shiftUnsigned_eq_shiftSigned hkeeps]
    exact fitsDouble_shiftSigned ha.fitsDouble

end Bits

open Bits

/-- **Operations on bits round their results.** They say something of all whole numbers. If every
input stands for one of 64 bits, there is no error, and the result is the double nearest to what the
operation says. It is exactly that if that is as short as a double, as it is for numbers of at most
53 bits, for shifts with the sign, and for shifts without it unless the sign is moved down.
Operations that undo each other do so if the result of the first one is as short as a double. -/
theorem bit_operations_round (line : ℕ) :
    (∀ (n m : Int64) (ns : List Int64), (∃ r, Gives .bitand ns r) ∧ (∃ r, Gives .bitor ns r) ∧
      (∃ r, Gives .bitxor ns r) ∧ (∃ r, Gives .bitnot (n :: ns) r) ∧
      (∃ r, Gives .ashift (n :: m :: ns) r) ∧ ∃ r, Gives .lshift (n :: m :: ns) r) ∧
    (∀ (op : Operation) (inputs : List Value) (ns : List Int64) (r : Int64),
      List.Forall₂ StandsFor inputs ns → Gives op ns r →
      ∃ x, op.apply inputs line = .ok (.number x) ∧ IsNearest x r.toInt ∧
        (IsExactly x r.toInt ↔ FitsDouble r.toInt) ∧
        (KeepsDigits op ns → IsExactly x r.toInt)) ∧
    (∀ (v : Value) (n : Int64), StandsFor v n → FitsDouble (~~~n).toInt →
      ∃ w w', Operation.bitnot.apply [v] line = .ok w ∧
        Operation.bitnot.apply [w] line = .ok w' ∧ StandsFor w' n) ∧
    (∀ (a b : Value) (n m : Int64), StandsFor a n → StandsFor b m → FitsDouble (n ^^^ m).toInt →
      ∃ w w', Operation.bitxor.apply [a, b] line = .ok w ∧
        Operation.bitxor.apply [w, b] line = .ok w' ∧ StandsFor w' n) := by
  refine ⟨fun n m ns => ⟨⟨_, gives_bitand ns⟩, ⟨_, gives_bitor ns⟩, ⟨_, gives_bitxor ns⟩,
    ⟨_, gives_bitnot n ns⟩, ⟨_, gives_ashift n m ns⟩, ⟨_, gives_lshift n m ns⟩⟩,
    fun op inputs ns r hinputs hr => ?_, fun v n hv hfits => ?_, fun a b n m ha hb hfits => ?_⟩
  · have hlow := r.le_toInt
    have hhigh := r.toInt_lt
    have hsize : r.toInt.natAbs < 2 ^ 64 := by omega
    have hexact := isExactly_ofInt_iff hsize
    exact ⟨_, hr.apply_eq hinputs line, isNearest_ofInt hsize, hexact,
      fun hkeeps => hexact.mpr (hr.fitsDouble hinputs hkeeps)⟩
  · have hback : StandsFor (ofInteger (~~~n)) (~~~n) := standsFor_ofInteger.mpr hfits
    refine ⟨_, _, (gives_bitnot n []).apply_eq (.cons hv .nil) line,
      (gives_bitnot (~~~n) []).apply_eq (.cons hback .nil) line, ?_⟩
    rw [Int64.not_not]
    exact standsFor_ofInteger.mpr hv.fitsDouble
  · have hfold : ∀ n m : Int64, [n, m].foldl (· ^^^ ·) 0 = n ^^^ m := fun n m =>
      congrArg (· ^^^ m) Int64.zero_xor
    have hback : StandsFor (ofInteger (n ^^^ m)) (n ^^^ m) := standsFor_ofInteger.mpr hfits
    refine ⟨_, _, (hfold n m ▸ gives_bitxor [n, m]).apply_eq (.cons ha (.cons hb .nil)) line,
      (gives_bitxor [n ^^^ m, m]).apply_eq (.cons hback (.cons hb .nil)) line, ?_⟩
    rw [hfold, Int64.xor_assoc, Int64.xor_self, Int64.xor_zero]
    exact standsFor_ofInteger.mpr ha.fitsDouble

/-- Twelve and ten combined, and five flipped and flipped back. -/
theorem bit_operations_round_small :
    (∃ x, Operation.bitand.apply [.number 12.0, .word "10"] 1 = .ok (.number x) ∧
      IsExactly x 8) ∧
    (∃ w w', Operation.bitnot.apply [.number 5.0] 1 = .ok w ∧
      Operation.bitnot.apply [w] 1 = .ok w' ∧ StandsFor w' 5) ∧
    ∃ w w', Operation.bitxor.apply [.number 12.0, .word "10"] 1 = .ok w ∧
      Operation.bitxor.apply [w, .word "10"] 1 = .ok w' ∧ StandsFor w' 12 := by
  obtain ⟨-, hresult, hflip, hcombine⟩ := bit_operations_round 1
  have htwelve : StandsFor (.number 12.0) 12 :=
    integer_eq_ok_iff.mp (by decide +kernel : integer (.number 12.0) "bitand" 1 = .ok 12)
  have hten : StandsFor (.word "10") 10 :=
    integer_eq_ok_iff.mp (by decide +kernel : integer (.word "10") "bitand" 1 = .ok 10)
  have hfive : StandsFor (.number 5.0) 5 :=
    integer_eq_ok_iff.mp (by decide +kernel : integer (.number 5.0) "bitnot" 1 = .ok 5)
  have hgives : Gives .bitand [12, 10] 8 := by
    have hfold : [12, 10].foldl (· &&& ·) (-1) = (8 : Int64) := by decide
    exact hfold ▸ gives_bitand [12, 10]
  have hkeeps : KeepsDigits .bitand [12, 10] := by
    intro n hn
    simp only [List.mem_cons, List.not_mem_nil, or_false] at hn
    rcases hn with rfl | rfl
    · exact ⟨by decide, by decide⟩
    · exact ⟨by decide, by decide⟩
  obtain ⟨x, happly, -, -, hexact⟩ := hresult _ _ _ _ (.cons htwelve (.cons hten .nil)) hgives
  exact ⟨⟨x, happly, hexact hkeeps⟩, hflip _ _ hfive ⟨-6, 0, by decide, by decide⟩,
    hcombine _ _ _ _ htwelve hten ⟨6, 0, by decide, by decide⟩⟩

/-- **A digit is lost without an error.** The double `2 ^ 53` with all bits flipped is `-2 ^ 53`,
which is one too much, and that with all bits flipped is one less than `2 ^ 53`. -/
theorem bitnot_loses_digit :
    StandsFor (.number 9007199254740992.0) 9007199254740992 ∧
    Gives .bitnot [9007199254740992] (-9007199254740993) ∧
    ∃ w w', Operation.bitnot.apply [.number 9007199254740992.0] 1 = .ok w ∧
      StandsFor w (-9007199254740992) ∧ ¬ StandsFor w (-9007199254740993) ∧
      Operation.bitnot.apply [w] 1 = .ok w' ∧
      StandsFor w' 9007199254740991 ∧ ¬ StandsFor w' 9007199254740992 := by
  have hv : StandsFor (.number 9007199254740992.0) 9007199254740992 := integer_eq_ok_iff.mp
    (by decide +kernel : integer (.number 9007199254740992.0) "bitnot" 1 = .ok 9007199254740992)
  have hw : StandsFor (ofInteger (-9007199254740993)) (-9007199254740992) := integer_eq_ok_iff.mp
    (by decide +kernel :
      integer (ofInteger (-9007199254740993)) "bitnot" 1 = .ok (-9007199254740992))
  have hw' : StandsFor (ofInteger 9007199254740991) 9007199254740991 := integer_eq_ok_iff.mp
    (by decide +kernel : integer (ofInteger 9007199254740991) "bitnot" 1 = .ok 9007199254740991)
  have hflip : Gives .bitnot [9007199254740992] (-9007199254740993) := by
    have hnot : ~~~(9007199254740992 : Int64) = -9007199254740993 := by decide
    exact hnot ▸ gives_bitnot 9007199254740992 []
  have hback : Gives .bitnot [-9007199254740992] 9007199254740991 := by
    have hnot : ~~~(-9007199254740992 : Int64) = 9007199254740991 := by decide
    exact hnot ▸ gives_bitnot (-9007199254740992) []
  exact ⟨hv, hflip, _, _, hflip.apply_eq (.cons hv .nil) 1, hw,
    fun h => absurd (hw.unique h) (by decide), hback.apply_eq (.cons hw .nil) 1, hw',
    fun h => absurd (hw'.unique h) (by decide)⟩

end Logo
