import Logo.Operation.Apply
import Logo.Operation.Operators
import Logo.Proofs.Values.Numerals

/-!
# Equality in the language

Two values are compared in one of several ways: as numbers if both stand for one, by their texts if
one of them does not, and member by member if both are lists. `Value.Same` lists the ways in which
two values can turn out equal, and everything in this file follows from it by cases.

The comparison by texts is where equality is not transitive. An infinity is written as a word that
spells no number, and there are words, like `1e999`, that spell that infinity: it equals both, but
the two words are not equal. What is no number equals the word for it, but not itself. `Value.Clash`
says that a chain of two equations runs into this.

* `Value.same_of_alike`, `Value.Same.alike`: when two values are equal.
* `Value.alike_trans_iff`: when two equations make a third.
* `Value.equality_up_to_clashes`: symmetry, transitivity and reflexivity, as far as they go.
-/

namespace Logo

open Number

namespace Value

/-! ## When two values are equal -/

/-- The ways in which two values are equal. -/
inductive Same : Value → Value → Prop
  | truth (p : Bool) : Same (truth p) (truth p)
  | absent : Same absent absent
  | list {as bs : List Value} : alikeEach as bs = true → Same (list as) (list bs)
  /-- Both stand for numbers. -/
  | numbers {a b : Value} {x y : Float} : a.number? = some x → b.number? = some y →
      (x == y) = true → Same a b
  /-- The same word, which spells no number. -/
  | word {text : String} : spelledNumber? text = none → Same (word text) (word text)
  /-- A number whose text spells no number, and its text. -/
  | numberText {x : Float} : spelledNumber? (Number.text x) = none →
      Same (number x) (word (Number.text x))
  | textNumber {x : Float} : spelledNumber? (Number.text x) = none →
      Same (word (Number.text x)) (number x)

lemma same_of_alike {a b : Value} (h : a.alike b = true) : Same a b := by
  cases a <;> cases b <;> simp only [alike, alikeAtoms, Bool.false_eq_true] at h
  case truth.truth p q =>
    obtain rfl := eq_of_beq h
    exact .truth p
  case absent.absent => exact .absent
  case list.list as bs => exact .list h
  case number.number x y => exact .numbers rfl rfl h
  case number.word x w =>
    cases hw : spelledNumber? w with
    | some y => exact .numbers rfl hw (by simpa [number?, hw] using h)
    | none =>
      obtain rfl : Number.text x = w := by simpa [number?, hw, display] using h
      exact .numberText hw
  case word.number w x =>
    cases hw : spelledNumber? w with
    | some y => exact .numbers hw rfl (by simpa [number?, hw] using h)
    | none =>
      obtain rfl : w = Number.text x := by simpa [number?, hw, display] using h
      exact .textNumber hw
  case word.word v w =>
    cases hv : spelledNumber? v with
    | some x =>
      cases hw : spelledNumber? w with
      | some y => exact .numbers hv hw (by simpa [number?, hv, hw] using h)
      | none =>
        obtain rfl : v = w := by simpa [number?, hv, hw, display] using h
        simp [hv] at hw
    | none =>
      obtain rfl : v = w := by simpa [number?, hv, display] using h
      exact .word hv

lemma Same.alike {a b : Value} (h : Same a b) : a.alike b = true := by
  cases h with
  | truth p => exact beq_self_eq_true p
  | absent => rfl
  | list h => exact h
  | numbers ha hb hxy => cases a <;> cases b <;> simp_all [number?, Value.alike, alikeAtoms]
  | word hw => simp [Value.alike, alikeAtoms, number?, hw]
  | numberText hw => simp [Value.alike, alikeAtoms, number?, hw, display]
  | textNumber hw => simp [Value.alike, alikeAtoms, number?, hw, display]

/-- What equals a word that spells no number. -/
lemma Same.of_word {w : String} {c : Value} (h : Same (.word w) c) (hw : spelledNumber? w = none) :
    c = .word w ∨ ∃ y, c = number y ∧ Number.text y = w := by
  cases h with
  | numbers ha _ _ => rw [number?, hw] at ha; cases ha
  | word _ => exact .inl rfl
  | textNumber _ => exact .inr ⟨_, rfl, rfl⟩

/-! ## Numbers inside of values -/

mutual

/-- Every number in the value, at any depth, passes the test. -/
def everyNumber (test : Float → Bool) : Value → Bool
  | number x => test x
  | list items => everyNumberEach test items
  | _ => true

/-- Every number in the values passes the test. -/
def everyNumberEach (test : Float → Bool) : List Value → Bool
  | [] => true
  | v :: vs => everyNumber test v && everyNumberEach test vs

end

/-- A double whose text spells no number is an infinity or no number. -/
lemma isNaN_or_infinite {x : Float} (h : spelledNumber? (Number.text x) = none) :
    x.isNaN = true ∧ Number.text x = "NaN" ∨
      ∃ negative, parts x = .infinite negative ∧
        Number.text x = if negative then "-inf" else "inf" := by
  cases hparts : parts x with
  | notANumber => exact .inl ⟨parts_eq_notANumber_iff.1 hparts, by simp [Number.text, hparts]⟩
  | infinite negative => exact .inr ⟨negative, rfl, by simp [Number.text, hparts]⟩
  | finite b =>
    have hsome := isSome_spelledNumber?_text hparts
    simp [h] at hsome

/-! ## Symmetry and reflexivity -/

mutual

lemma alike_of_alike : ∀ {a b : Value}, a.alike b = true → b.alike a = true := by
  intro a b h
  cases same_of_alike h with
  | truth p => exact h
  | absent => exact h
  | list hab => exact alikeEach_of_alikeEach hab
  | numbers ha hb hxy => exact (Same.numbers hb ha (BEq.symm hxy)).alike
  | word hw => exact h
  | numberText hw => exact (Same.textNumber hw).alike
  | textNumber hw => exact (Same.numberText hw).alike

lemma alikeEach_of_alikeEach :
    ∀ {as bs : List Value}, alikeEach as bs = true → alikeEach bs as = true
  | [], [], _ => rfl
  | a :: as, b :: bs, h => by
    obtain ⟨hab, hrest⟩ := Bool.and_eq_true_iff.1 h
    exact Bool.and_eq_true_iff.2 ⟨alike_of_alike hab, alikeEach_of_alikeEach hrest⟩

end

lemma alike_comm (a b : Value) : a.alike b = b.alike a :=
  Bool.eq_iff_iff.2 ⟨alike_of_alike, alike_of_alike⟩

mutual

/-- A value equals itself if it holds nothing but numbers where it holds doubles. -/
lemma alike_self : ∀ a : Value, a.alike a = a.everyNumber fun x => !x.isNaN
  | number x => Number.beq_self x
  | word text => by
    cases htext : spelledNumber? text with
    | none => exact (Same.word htext).alike
    | some x =>
      have hself : (x == x) = true := by rw [Number.beq_self, isNaN_of_spelledNumber? htext]; rfl
      exact (Same.numbers (a := word text) (b := word text) htext htext hself).alike
  | truth b => (Same.truth b).alike
  | list items => alikeEach_self items
  | absent => rfl

lemma alikeEach_self : ∀ as : List Value,
    alikeEach as as = everyNumberEach (fun x => !x.isNaN) as
  | [] => rfl
  | a :: as => by rw [alikeEach, everyNumberEach, alike_self a, alikeEach_self as]

end

/-! ## Transitivity -/

/-- The first value equals the second and the second equals the third in ways that do not go
together. -/
inductive Clash : Value → Value → Value → Prop
  /-- What is no number equals the word for it, but nothing that is no number. -/
  | notANumber {x y : Float} : x.isNaN = true → y.isNaN = true →
      Clash (number x) (word "NaN") (number y)
  /-- An infinity equals the words that spell it, and the word that is its text. -/
  | infinite {x : Float} {s t : String} : x.isInf = true →
      (spelledNumber? s).isSome ≠ (spelledNumber? t).isSome → Clash (word s) (number x) (word t)
  /-- The members at one place of three lists clash. -/
  | member {as bs cs : List Value} {a b c : Value} (i : Nat) : as[i]? = some a →
      bs[i]? = some b → cs[i]? = some c → Clash a b c → Clash (list as) (list bs) (list cs)

lemma Clash.symm {a b c : Value} (h : Clash a b c) : Clash c b a := by
  induction h with
  | notANumber hx hy => exact .notANumber hy hx
  | infinite hx hst => exact .infinite hx hst.symm
  | member i ha hb hc _ ih => exact .member i hc hb ha ih

lemma clash_comm {a b c : Value} : Clash a b c ↔ Clash c b a := ⟨Clash.symm, Clash.symm⟩

/-! The ways in which values clash, by the first one. -/

lemma Clash.of_number {x : Float} {b c : Value} (h : Clash (number x) b c) :
    x.isNaN = true ∧ ∃ y, c = number y := by
  cases h with
  | notANumber hx hy => exact ⟨hx, _, rfl⟩

lemma Clash.of_word {s : String} {b c : Value} (h : Clash (word s) b c) :
    ∃ x t, b = number x ∧ c = word t ∧
      (spelledNumber? s).isSome ≠ (spelledNumber? t).isSome := by
  cases h with
  | infinite hx hst => exact ⟨_, _, rfl, rfl, hst⟩

lemma not_clash_of_numbers {a b c : Value} {x y z : Float} (ha : a.number? = some x)
    (hb : b.number? = some y) (hc : c.number? = some z) : ¬ Clash a b c := by
  intro h
  cases h with
  | notANumber hx hy =>
    have hname : (word "NaN").number? = none := by decide +kernel
    rw [hname] at hb
    cases hb
  | infinite hx hst => exact hst (by rw [show spelledNumber? _ = _ from ha,
      show spelledNumber? _ = _ from hc]; rfl)
  | member i _ _ _ _ => cases ha

lemma isInf_of_parts {x : Float} {negative : Bool} (h : parts x = .infinite negative) :
    x.isInf = true := by
  show x.toModel.unpack.isInf = true
  rw [parts_eq_infinite_iff.1 h]
  rfl

/-- A value that stands for a number, an infinity that equals it, and the text of that infinity. -/
lemma alike_text_iff {a : Value} {x y : Float} (ha : a.number? = some x) (hxy : (x == y) = true)
    (hy : spelledNumber? (Number.text y) = none) :
    a.alike (word (Number.text y)) = true ↔ ¬ Clash a (number y) (word (Number.text y)) := by
  have hnan : y.isNaN = false := isNaN_of_beq (BEq.symm hxy)
  obtain ⟨negative, hinfinite, htext⟩ : ∃ negative, parts y = .infinite negative ∧
      Number.text y = if negative then "-inf" else "inf" := by
    rcases isNaN_or_infinite hy with ⟨hnan', -⟩ | h
    · rw [hnan] at hnan'; cases hnan'
    · exact h
  have hx : parts x = .infinite negative :=
    parts_of_beq_infinite hinfinite (BEq.symm hxy)
  cases a with
  | number z =>
    -- the number is the infinity itself, so it has the same text
    obtain rfl : z = x := by simpa [number?] using ha
    have hsame : Number.text z = Number.text y := by rw [htext, Number.text, hx]
    refine iff_of_true ?_ fun hclash => ?_
    · rw [← hsame] at hy ⊢
      exact (Same.numberText hy).alike
    · obtain ⟨-, w, hw⟩ := hclash.of_number
      cases hw
  | word s =>
    have hs : spelledNumber? s = some x := ha
    refine iff_of_false ?_ (not_not_intro (.infinite (isInf_of_parts hinfinite) (by simp [hs, hy])))
    intro h
    cases same_of_alike h with
    | numbers _ hb _ => simp [number?, hy] at hb
    | word hw => simp [hs] at hy
  | truth b => cases ha
  | list items => cases ha
  | absent => cases ha

/-- Two numbers with the same text, which spells no number. -/
lemma alike_numbers_iff {x y : Float} (htext : Number.text x = Number.text y)
    (hy : spelledNumber? (Number.text y) = none) : (number x).alike (number y) = true ↔
      ¬ Clash (number x) (word (Number.text y)) (number y) := by
  have hx : spelledNumber? (Number.text x) = none := htext ▸ hy
  rcases isNaN_or_infinite hx with ⟨hxnan, hxtext⟩ | ⟨p, hxparts, hxtext⟩ <;>
    rcases isNaN_or_infinite hy with ⟨hynan, hytext⟩ | ⟨q, hyparts, hytext⟩
  · refine iff_of_false ?_ (not_not_intro (hytext ▸ .notANumber hxnan hynan))
    intro h
    exact Bool.eq_false_iff.1 (isNaN_of_beq (show (x == y) = true from h)) hxnan
  · exact absurd (hxtext.symm.trans (htext.trans hytext)) (by cases q <;> decide)
  · exact absurd (hytext.symm.trans (htext.symm.trans hxtext)) (by cases p <;> decide)
  · obtain rfl : p = q := by
      have heq := hxtext.symm.trans (htext.trans hytext)
      revert heq
      cases p <;> cases q <;> decide
    refine iff_of_true (beq_of_infinite hxparts hyparts) fun hclash => ?_
    obtain ⟨hnan, -⟩ := hclash.of_number
    simp [parts_eq_notANumber_iff.2 hnan] at hxparts

mutual

/-- Equality is transitive, except where it clashes. -/
lemma alike_trans_iff : ∀ {a b c : Value}, a.alike b = true → b.alike c = true →
    (a.alike c = true ↔ ¬ Clash a b c) := by
  intro a b c hab hbc
  cases same_of_alike hab with
  | truth p =>
    exact iff_of_true hbc (by rintro ⟨⟩)
  | absent => exact iff_of_true hbc (by rintro ⟨⟩)
  | list h =>
    cases same_of_alike hbc with
    | list h' =>
      refine (alikeEach_trans_iff h h').trans (not_congr ?_)
      constructor
      · rintro ⟨i, a, b, c, ha, hb, hc, hclash⟩
        exact .member i ha hb hc hclash
      · rintro (_ | _ | ⟨i, ha, hb, hc, hclash⟩)
        exact ⟨i, _, _, _, ha, hb, hc, hclash⟩
    | numbers hb _ _ => cases hb
  | numbers ha hb hxy =>
    cases same_of_alike hbc with
    | truth p => cases hb
    | absent => cases hb
    | list h => cases hb
    | numbers hb' hc hyz =>
      rw [hb] at hb'
      obtain rfl := Option.some.inj hb'
      exact iff_of_true (Same.numbers ha hc (BEq.trans hxy hyz)).alike
        (not_clash_of_numbers ha hb hc)
    | word hw => rw [number?, hw] at hb; cases hb
    | numberText hy =>
      obtain rfl := Option.some.inj hb
      exact alike_text_iff ha hxy hy
    | textNumber hy => rw [number?, hy] at hb; cases hb
  | word hw =>
    refine iff_of_true hbc fun hclash => ?_
    obtain ⟨x, t, hx, -⟩ := hclash.of_word
    cases hx
  | @numberText x hx =>
    rcases (same_of_alike hbc).of_word hx with rfl | ⟨y, rfl, htext⟩
    · refine iff_of_true hab fun hclash => ?_
      obtain ⟨-, y, hy⟩ := hclash.of_number
      cases hy
    · rw [← htext] at hx ⊢
      exact alike_numbers_iff htext.symm hx
  | @textNumber x hx =>
    cases same_of_alike hbc with
    | numbers hb hc hyz =>
      obtain rfl := Option.some.inj hb
      have hmirror := alike_text_iff hc (BEq.symm hyz) hx
      rw [alike_comm, hmirror, clash_comm]
    | numberText _ =>
      refine iff_of_true (Same.word hx).alike fun hclash => ?_
      obtain ⟨y, t, -, ht, hne⟩ := hclash.of_word
      cases ht
      exact hne rfl

lemma alikeEach_trans_iff : ∀ {as bs cs : List Value}, alikeEach as bs = true →
    alikeEach bs cs = true → (alikeEach as cs = true ↔ ¬ ∃ (i : Nat) (a b c : Value),
      as[i]? = some a ∧ bs[i]? = some b ∧ cs[i]? = some c ∧ Clash a b c)
  | [], [], [], _, _ => by simp [alikeEach]
  | a :: as, b :: bs, c :: cs, hab, hbc => by
    obtain ⟨hab, habs⟩ := Bool.and_eq_true_iff.1 hab
    obtain ⟨hbc, hbcs⟩ := Bool.and_eq_true_iff.1 hbc
    have hfirst := alike_trans_iff hab hbc
    have hrest := alikeEach_trans_iff habs hbcs
    rw [alikeEach, Bool.and_eq_true_iff, hfirst, hrest, ← not_or, not_iff_not]
    constructor
    · rintro (h | ⟨i, x, y, z, h⟩)
      · exact ⟨0, a, b, c, rfl, rfl, rfl, h⟩
      · exact ⟨i + 1, x, y, z, h⟩
    · rintro ⟨i, x, y, z, h⟩
      cases i with
      | zero =>
        simp at h
        obtain ⟨rfl, rfl, rfl, h⟩ := h
        exact .inl h
      | succ i => exact .inr ⟨i, x, y, z, h⟩

end

/-! ## Ordinary values -/

lemma everyNumber_of_getElem? {test : Float → Bool} : ∀ {vs : List Value} {i : Nat} {v : Value},
    everyNumberEach test vs = true → vs[i]? = some v → v.everyNumber test = true
  | w :: vs, 0, v, h, hv => by
    obtain rfl := Option.some.inj hv
    exact (Bool.and_eq_true_iff.1 h).1
  | w :: vs, i + 1, v, h, hv => everyNumber_of_getElem? (Bool.and_eq_true_iff.1 h).2 hv

/-- Values clash only at infinities and at what is no number. -/
lemma Clash.exists_special {a b c : Value} (h : Clash a b c) :
    (a.everyNumber fun x => !x.isNaN) = false ∨ (b.everyNumber fun x => !x.isInf) = false := by
  induction h with
  | notANumber hx hy => exact .inl (by rw [everyNumber, hx]; rfl)
  | infinite hx hst => exact .inr (by rw [everyNumber, hx]; rfl)
  | member i ha hb hc _ ih =>
    rw [← Bool.not_eq_true, ← Bool.not_eq_true] at ih ⊢
    exact ih.imp (mt fun h => everyNumber_of_getElem? h ha)
      (mt fun h => everyNumber_of_getElem? h hb)

/-- **Equality is symmetric**, it holds between a value without a double that is no number and
itself, and it is transitive except where `Clash` says: through an infinity, or between doubles that
are no numbers. -/
theorem equality_up_to_clashes :
    (∀ a b : Value, a.alike b = b.alike a) ∧
    (∀ a b c : Value, a.alike b = true → b.alike c = true →
      (a.alike c = true ↔ ¬ Clash a b c)) ∧
    (∀ a b c : Value, (a.everyNumber fun x => !x.isNaN) = true →
      (b.everyNumber fun x => !x.isInf) = true → a.alike b = true → b.alike c = true →
      a.alike c = true) ∧
    ∀ a : Value, (a.everyNumber fun x => !x.isNaN) = true → a.alike a = true := by
  refine ⟨alike_comm, fun a b c => alike_trans_iff, ?_, fun a ha => (alike_self a).trans ha⟩
  intro a b c ha hb hab hbc
  rw [alike_trans_iff hab hbc]
  intro hclash
  rcases hclash.exists_special with h | h
  · exact Bool.eq_false_iff.1 h ha
  · exact Bool.eq_false_iff.1 h hb

/-- Numbers and words are equal across a list, by their values and by their texts. -/
theorem equality_up_to_clashes_mixed :
    (list [word "1e1", word "a"]).alike (list [number 10, word "a"]) = true ∧
    (list [number 10, word "a"]).alike (list [word "10.0", word "a"]) = true ∧
    (list [word "1e1", word "a"]).alike (list [word "10.0", word "a"]) = true :=
  have hab : (list [word "1e1", word "a"]).alike (list [number 10, word "a"]) = true := by
    decide +kernel
  have hbc : (list [number 10, word "a"]).alike (list [word "10.0", word "a"]) = true := by
    decide +kernel
  ⟨hab, hbc, equality_up_to_clashes.2.2.1 _ _ _ (by decide +kernel) (by decide +kernel) hab hbc⟩

/-- A word that spells an infinity and the text of that infinity are not equal, though both of them
equal it. -/
theorem not_transitive_through_infinity :
    ¬ ∀ a b c : Value, a.alike b = true → b.alike c = true → a.alike c = true := by
  intro h
  have hequal := h (word "1e999") (number infinity) (word "inf") (by decide +kernel)
    (by decide +kernel)
  exact absurd hequal (by decide +kernel)

end Value

end Logo
