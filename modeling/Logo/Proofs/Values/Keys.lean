import Logo.Proofs.Values.Equality

/-!
# Keys and duplicates

Duplicates are found by keys, which are compared as numbers or as words and never by the text of a
number. Equality in the language does look at the texts of numbers, but the text of a finite number
spells a number and so equals no other word. That is why the two agree on all values with finite
numbers only, and why a list loses exactly those members that equal a later one.

* `Value.sameKey_key`: keys and equality agree.
* `Sequence.keepLast_eq`: what is left of a list without its duplicates.
* `keys_agree_with_equality`: what follows for `equalp` and `remdup`.
-/

namespace Logo

open Number

namespace Value

/-! ## Keys -/

/-- The keys of two numbers are the same if the numbers are equal. -/
lemma sameKey_number {x y : Float} (hx : x.isNaN = false) :
    (number x).sameKey (number y) = (x == y) := by
  rw [sameKey, hx, Bool.false_and, Bool.or_false]

lemma isSome_spelledNumber?_of_isFinite {x : Float} (h : x.isFinite = true) :
    (spelledNumber? (Number.text x)).isSome = true := by
  obtain ⟨b, hb⟩ := exists_parts_of_isFinite h
  exact isSome_spelledNumber?_text hb

/-- Words of which only one spells a number are different. -/
lemma beq_of_isSome_ne {v w : String}
    (h : (spelledNumber? v).isSome ≠ (spelledNumber? w).isSome) : (v == w) = false := by
  rw [beq_eq_false_iff_ne]
  rintro rfl
  exact h rfl

mutual

/-- Keys and equality agree on values with finite numbers. -/
lemma sameKey_key : ∀ {a b : Value}, a.everyNumber Float.isFinite = true →
    b.everyNumber Float.isFinite = true → a.key.sameKey b.key = a.alike b := by
  intro a b ha hb
  cases a with
  | number x =>
    have hx : x.isNaN = false := isNaN_of_isFinite ha
    cases b with
    | number y => exact sameKey_number hx
    | word w =>
      cases hw : spelledNumber? w with
      | some y => simp [key, hw, sameKey_number hx, alike, alikeAtoms, number?]
      | none =>
        have hne : (Number.text x == w) = false :=
          beq_of_isSome_ne (by rw [isSome_spelledNumber?_of_isFinite ha, hw]; decide)
        simp [key, hw, sameKey, alike, alikeAtoms, number?, display, hne]
    | _ => rfl
  | word v =>
    cases hv : spelledNumber? v with
    | some x =>
      have hx : x.isNaN = false := isNaN_of_spelledNumber? hv
      cases b with
      | number y => simp [key, hv, sameKey_number hx, alike, alikeAtoms, number?]
      | word w =>
        cases hw : spelledNumber? w with
        | some y => simp [key, hv, hw, sameKey_number hx, alike, alikeAtoms, number?]
        | none =>
          have hne : (v == w) = false := beq_of_isSome_ne (by simp [hv, hw])
          simp [key, hv, hw, sameKey, alike, alikeAtoms, number?, display, hne]
      | _ => simp [key, hv, sameKey, alike, alikeAtoms]
    | none =>
      cases b with
      | number y =>
        have hne : (v == Number.text y) = false :=
          beq_of_isSome_ne (by rw [isSome_spelledNumber?_of_isFinite hb, hv]; decide)
        simp [key, hv, sameKey, alike, alikeAtoms, number?, display, hne]
      | word w =>
        cases hw : spelledNumber? w with
        | some y =>
          have hne : (v == w) = false := beq_of_isSome_ne (by simp [hv, hw])
          simp [key, hv, hw, sameKey, alike, alikeAtoms, number?, display, hne]
        | none => simp [key, hv, hw, sameKey, alike, alikeAtoms, number?, display]
      | _ => simp [key, hv, sameKey, alike, alikeAtoms]
  | truth p =>
    cases b with
    | word w => cases hw : spelledNumber? w <;> simp [key, hw, sameKey, alike, alikeAtoms]
    | _ => rfl
  | list as =>
    cases b with
    | list bs => exact sameKeyEach_keyEach ha hb
    | word w => cases hw : spelledNumber? w <;> simp [key, hw, sameKey, alike, alikeAtoms]
    | _ => rfl
  | absent =>
    cases b with
    | word w => cases hw : spelledNumber? w <;> simp [key, hw, sameKey, alike, alikeAtoms]
    | _ => rfl

lemma sameKeyEach_keyEach : ∀ {as bs : List Value}, everyNumberEach Float.isFinite as = true →
    everyNumberEach Float.isFinite bs = true →
    sameKeyEach (keyEach as) (keyEach bs) = alikeEach as bs
  | [], [], _, _ => rfl
  | [], _ :: _, _, _ => rfl
  | _ :: _, [], _, _ => rfl
  | a :: as, b :: bs, has, hbs => by
    obtain ⟨ha, has⟩ := Bool.and_eq_true_iff.1 has
    obtain ⟨hb, hbs⟩ := Bool.and_eq_true_iff.1 hbs
    rw [keyEach, keyEach, sameKeyEach, alikeEach, sameKey_key ha hb, sameKeyEach_keyEach has hbs]

end

/-! ## Equality between values with finite numbers -/

mutual

lemma everyNumber_mono {p q : Float → Bool} (hpq : ∀ x, p x = true → q x = true) :
    ∀ {a : Value}, a.everyNumber p = true → a.everyNumber q = true
  | number x, h => hpq x h
  | word _, _ => rfl
  | truth _, _ => rfl
  | list _, h => everyNumberEach_mono hpq h
  | absent, _ => rfl

lemma everyNumberEach_mono {p q : Float → Bool} (hpq : ∀ x, p x = true → q x = true) :
    ∀ {as : List Value}, everyNumberEach p as = true → everyNumberEach q as = true
  | [], _ => rfl
  | _ :: _, h => by
    obtain ⟨ha, has⟩ := Bool.and_eq_true_iff.1 h
    exact Bool.and_eq_true_iff.2 ⟨everyNumber_mono hpq ha, everyNumberEach_mono hpq has⟩

end

lemma everyNumber_not_isNaN {a : Value} (ha : a.everyNumber Float.isFinite = true) :
    (a.everyNumber fun x => !x.isNaN) = true :=
  everyNumber_mono (fun x hx => by rw [isNaN_of_isFinite hx]; rfl) ha

lemma alike_self_of_isFinite {a : Value} (ha : a.everyNumber Float.isFinite = true) :
    a.alike a = true :=
  (alike_self a).trans (everyNumber_not_isNaN ha)

lemma alike_trans_of_isFinite {a b c : Value} (ha : a.everyNumber Float.isFinite = true)
    (hb : b.everyNumber Float.isFinite = true) (hab : a.alike b = true) (hbc : b.alike c = true) :
    a.alike c = true := by
  rw [alike_trans_iff hab hbc]
  intro hclash
  have hinf : (b.everyNumber fun x => !x.isInf) = true :=
    everyNumber_mono (fun x hx => by rw [isInf_of_isFinite hx]; rfl) hb
  rcases hclash.exists_special with h | h
  · exact Bool.eq_false_iff.1 h (everyNumber_not_isNaN ha)
  · exact Bool.eq_false_iff.1 h hinf

end Value

namespace Sequence

open Value

/-! ## Lists without duplicates -/

/-- The members that equal no later member. -/
def lastOnes : List Value → List Value
  | [] => []
  | v :: vs => if vs.any v.alike then lastOnes vs else v :: lastOnes vs

lemma mem_of_mem_lastOnes {w : Value} : ∀ {vs : List Value}, w ∈ lastOnes vs → w ∈ vs
  | v :: vs, h => by
    rw [lastOnes] at h
    split at h
    · exact List.mem_cons_of_mem v (mem_of_mem_lastOnes h)
    · rcases List.mem_cons.1 h with rfl | h
      · exact List.mem_cons_self
      · exact List.mem_cons_of_mem v (mem_of_mem_lastOnes h)

/-- Every member equals one of those that equal no later member. -/
lemma exists_mem_lastOnes {w : Value} : ∀ {vs : List Value},
    (∀ v ∈ vs, v.everyNumber Float.isFinite = true) → w ∈ vs →
      ∃ v ∈ lastOnes vs, w.alike v = true
  | v :: vs, hfinite, hw => by
    have hrest : ∀ u ∈ vs, u.everyNumber Float.isFinite = true :=
      fun u hu => hfinite u (List.mem_cons_of_mem v hu)
    rw [lastOnes]
    split
    case isTrue hlater =>
      rcases List.mem_cons.1 hw with rfl | hw
      · -- the first member equals a later one, which equals one that is kept
        obtain ⟨u, hu, hequal⟩ := List.any_eq_true.1 hlater
        obtain ⟨u', hu', hequal'⟩ := exists_mem_lastOnes hrest hu
        exact ⟨u', hu', alike_trans_of_isFinite (hfinite w List.mem_cons_self) (hrest u hu) hequal
          hequal'⟩
      · exact exists_mem_lastOnes hrest hw
    case isFalse =>
      rcases List.mem_cons.1 hw with rfl | hw
      · exact ⟨w, List.mem_cons_self, alike_self_of_isFinite (hfinite w List.mem_cons_self)⟩
      · obtain ⟨u, hu, hequal⟩ := exists_mem_lastOnes hrest hw
        exact ⟨u, List.mem_cons_of_mem v hu, hequal⟩

/-- The members are kept with their keys. -/
lemma foldr_keyed (items : List Value) : (items.map fun v => (v.key, v)).foldr
    (fun p kept => if kept.any fun q => q.1.sameKey p.1 then kept else p :: kept) [] =
      (keepLast items).map fun v => (v.key, v) := by
  induction items with
  | nil => rfl
  | cons v items ih =>
    rw [keepLast, List.map_cons, List.foldr_cons, ih]
    split <;> simp

/-- A member is kept if its key is not among those of the later members that are kept. -/
lemma keepLast_cons (v : Value) (items : List Value) : keepLast (v :: items) =
    if (keepLast items).any fun w => w.key.sameKey v.key then keepLast items
    else v :: keepLast items := by
  rw [keepLast, List.map_cons, List.foldr_cons, foldr_keyed, List.any_map]
  simp only [Function.comp_def]
  split <;> simp [Function.comp_def]

/-- What is left of a list with finite numbers are the members that equal no later member. -/
lemma keepLast_eq : ∀ {items : List Value}, (∀ v ∈ items, v.everyNumber Float.isFinite = true) →
    keepLast items = lastOnes items
  | [], _ => rfl
  | v :: items, hfinite => by
    have hv := hfinite v List.mem_cons_self
    have hrest : ∀ u ∈ items, u.everyNumber Float.isFinite = true :=
      fun u hu => hfinite u (List.mem_cons_of_mem v hu)
    have hlater : ((lastOnes items).any fun w => w.key.sameKey v.key) = items.any v.alike := by
      rw [Bool.eq_iff_iff, List.any_eq_true, List.any_eq_true]
      constructor
      · rintro ⟨w, hw, hkey⟩
        have hmem := mem_of_mem_lastOnes hw
        rw [sameKey_key (hrest w hmem) hv] at hkey
        exact ⟨w, hmem, alike_of_alike hkey⟩
      · rintro ⟨w, hw, hequal⟩
        obtain ⟨u, hu, hequal'⟩ := exists_mem_lastOnes hrest hw
        refine ⟨u, hu, ?_⟩
        rw [sameKey_key (hrest u (mem_of_mem_lastOnes hu)) hv]
        exact alike_of_alike (alike_trans_of_isFinite hv (hrest w hw) hequal hequal')
    rw [keepLast_cons, lastOnes, keepLast_eq hrest, hlater]

end Sequence

/-- **Keys and equality agree**: on values with finite numbers, keys are the same if `equalp` says
yes, and `remdup` leaves out the members of a list that equal a later one, and no others. -/
theorem keys_agree_with_equality :
    (∀ a b : Value, a.everyNumber Float.isFinite = true → b.everyNumber Float.isFinite = true →
      a.key.sameKey b.key = a.alike b ∧
        ∀ line, Operation.equalp.apply [a, b] line = .ok (.truth (a.key.sameKey b.key))) ∧
    ∀ items : List Value, (∀ v ∈ items, v.everyNumber Float.isFinite = true) →
      ∀ line, Operation.remdup.apply [.list items] line =
        .ok (.list (Sequence.lastOnes items)) := by
  refine ⟨fun a b ha hb => ?_, fun items hfinite line => ?_⟩
  · have hkeys := Value.sameKey_key ha hb
    exact ⟨hkeys, fun line => by rw [hkeys]; rfl⟩
  · rw [← Sequence.keepLast_eq hfinite]
    rfl

/-- Numbers and words that spell them are duplicates, other words are not, and of each number the
last spelling is left. -/
theorem keys_agree_with_equality_spellings :
    ((Value.word "2.0").key.sameKey (Value.number 2).key = (Value.word "2.0").alike (.number 2) ∧
      (Value.word "2.0").alike (.number 2) = true) ∧
    Operation.remdup.apply [.list [.word "2.0", .word "two", .number 2, .list [.word "2"],
      .word "1e999", .list [.number 2], .word "2"]] 1 =
        .ok (.list [.word "two", .word "1e999", .list [.number 2], .word "2"]) := by
  have hkeys := keys_agree_with_equality.1 (.word "2.0") (.number 2) (by decide +kernel)
    (by decide +kernel)
  have hrest := keys_agree_with_equality.2 [.word "2.0", .word "two", .number 2, .list [.word "2"],
    .word "1e999", .list [.number 2], .word "2"] (by
      simp only [List.mem_cons, List.not_mem_nil, or_false]
      rintro v (rfl | rfl | rfl | rfl | rfl | rfl | rfl) <;> decide +kernel) 1
  exact ⟨⟨hkeys.1, by decide +kernel⟩, hrest⟩

end Logo
