import Logo.Operation.Apply
import Logo.Proofs.Values.Keys
import Mathlib.Data.List.FinRange
import Mathlib.Data.List.Pairwise

/-!
# Lists without duplicates

`remdup` walks through a list from its end and keeps a member if its key is not among the keys of
those that it has kept. What it keeps is told here by the places in the list alone: a member stays
exactly if no later member has its key. Both say the same because equality of keys is an
equivalence, on all values: if the key of a member stands later in the list, then the last member
with that key is among those that are kept.

* `Value.sameKey_comm`, `Value.sameKey_trans`: equality of keys.
* `Sequence.keepLast_eq_pwFilter`: what is kept, as a filter that looks at what it has kept.
* `Sequence.keepLast_eq_lastPlaces`: what is kept, by places.
* `remdup_keeps_last`: what follows for `remdup`.
-/

namespace Logo

namespace Value

/-! ## Equality of keys -/

mutual

lemma sameKey_self : ∀ a : Value, a.sameKey a = true
  | number x => by
    rw [sameKey, Number.beq_self]
    cases x.isNaN <;> rfl
  | word _ => BEq.rfl
  | truth _ => BEq.rfl
  | list items => sameKeyEach_self items
  | absent => rfl

lemma sameKeyEach_self : ∀ as : List Value, sameKeyEach as as = true
  | [] => rfl
  | a :: as => Bool.and_eq_true_iff.mpr ⟨sameKey_self a, sameKeyEach_self as⟩

end

/-- The ways in which two keys are the same. -/
inductive SameKey : Value → Value → Prop
  | numbers {x y : Float} : (x == y) = true → SameKey (number x) (number y)
  | notNumbers {x y : Float} : x.isNaN = true → y.isNaN = true → SameKey (number x) (number y)
  | word (text : String) : SameKey (word text) (word text)
  | truth (b : Bool) : SameKey (truth b) (truth b)
  | list {as bs : List Value} : sameKeyEach as bs = true → SameKey (list as) (list bs)
  | absent : SameKey absent absent

lemma sameKey_iff {a b : Value} : a.sameKey b = true ↔ SameKey a b := by
  constructor
  · intro h
    cases a <;> cases b <;> simp only [sameKey, Bool.false_eq_true] at h
    case number.number x y =>
      rcases Bool.or_eq_true_iff.mp h with h | h
      · exact .numbers h
      · exact .notNumbers (Bool.and_eq_true_iff.mp h).1 (Bool.and_eq_true_iff.mp h).2
    case word.word s t =>
      obtain rfl := eq_of_beq h
      exact .word s
    case truth.truth p q =>
      obtain rfl := eq_of_beq h
      exact .truth p
    case list.list as bs => exact .list h
    case absent.absent => exact .absent
  · intro h
    cases h with
    | numbers h => rw [sameKey, h, Bool.true_or]
    | notNumbers hx hy => rw [sameKey, hx, hy, Bool.true_and, Bool.or_true]
    | word text => exact BEq.rfl
    | truth b => exact BEq.rfl
    | list h => exact h
    | absent => rfl

mutual

lemma sameKey_symm : ∀ {a b : Value}, a.sameKey b = true → b.sameKey a = true := by
  intro a b h
  rw [sameKey_iff]
  cases sameKey_iff.mp h with
  | numbers hxy => exact .numbers (BEq.symm hxy)
  | notNumbers hx hy => exact .notNumbers hy hx
  | word text => exact .word text
  | truth b => exact .truth b
  | list h => exact .list (sameKeyEach_symm h)
  | absent => exact .absent

lemma sameKeyEach_symm :
    ∀ {as bs : List Value}, sameKeyEach as bs = true → sameKeyEach bs as = true
  | [], [], _ => rfl
  | a :: as, b :: bs, h => by
    obtain ⟨hab, hrest⟩ := Bool.and_eq_true_iff.mp h
    exact Bool.and_eq_true_iff.mpr ⟨sameKey_symm hab, sameKeyEach_symm hrest⟩

end

lemma sameKey_comm (a b : Value) : a.sameKey b = b.sameKey a :=
  Bool.eq_iff_iff.mpr ⟨sameKey_symm, sameKey_symm⟩

mutual

lemma sameKey_trans : ∀ {a b c : Value}, a.sameKey b = true → b.sameKey c = true →
    a.sameKey c = true := by
  intro a b c hab hbc
  rw [sameKey_iff]
  cases sameKey_iff.mp hab with
  | @numbers x y hxy =>
    -- a double that equals another is a number, and so is the other
    have hy : y.isNaN = false := Number.isNaN_of_beq (BEq.symm hxy)
    cases sameKey_iff.mp hbc with
    | numbers hyz => exact .numbers (BEq.trans hxy hyz)
    | notNumbers hy' _ => exact absurd hy' (Bool.eq_false_iff.mp hy)
  | notNumbers hx hy =>
    cases sameKey_iff.mp hbc with
    | numbers hyz => exact absurd hy (Bool.eq_false_iff.mp (Number.isNaN_of_beq hyz))
    | notNumbers _ hz => exact .notNumbers hx hz
  | word text => exact sameKey_iff.mp hbc
  | truth b => exact sameKey_iff.mp hbc
  | list h =>
    cases sameKey_iff.mp hbc with
    | list h' => exact .list (sameKeyEach_trans h h')
  | absent => exact sameKey_iff.mp hbc

lemma sameKeyEach_trans : ∀ {as bs cs : List Value}, sameKeyEach as bs = true →
    sameKeyEach bs cs = true → sameKeyEach as cs = true
  | [], [], [], _, _ => rfl
  | a :: as, b :: bs, c :: cs, h, h' => by
    obtain ⟨hab, hrest⟩ := Bool.and_eq_true_iff.mp h
    obtain ⟨hbc, hrest'⟩ := Bool.and_eq_true_iff.mp h'
    exact Bool.and_eq_true_iff.mpr ⟨sameKey_trans hab hbc, sameKeyEach_trans hrest hrest'⟩

end

/-- The values have different keys. -/
def Differs (a b : Value) : Prop := a.key.sameKey b.key = false

instance : DecidableRel Differs := fun a b =>
  inferInstanceAs (Decidable (a.key.sameKey b.key = false))

lemma differs_comm {a b : Value} : Differs a b ↔ Differs b a := by
  rw [Differs, Differs, sameKey_comm]

/-- Of two values with different keys, one differs from any third value. -/
lemma Differs.or_differs {a b c : Value} (h : Differs a c) : Differs a b ∨ Differs b c := by
  by_contra hboth
  simp only [Differs, not_or, Bool.not_eq_false] at hboth
  exact Bool.eq_false_iff.mp h (sameKey_trans hboth.1 hboth.2)

end Value

namespace Sequence

open Value

/-! ## What is kept -/

/-- A member is kept if it differs from all later members that are kept. -/
lemma keepLast_eq_pwFilter (items : List Value) : keepLast items = items.pwFilter Differs := by
  induction items with
  | nil => rfl
  | cons v items ih =>
    rw [keepLast_cons, ih]
    have hiff : ((items.pwFilter Differs).any fun w => w.key.sameKey v.key) = true ↔
        ¬∀ w ∈ items.pwFilter Differs, Differs v w := by
      simp only [List.any_eq_true, Differs, sameKey_comm v.key, not_forall, Bool.not_eq_false,
        exists_prop]
    by_cases hall : ∀ w ∈ items.pwFilter Differs, Differs v w
    · rw [List.pwFilter_cons_of_pos hall, if_neg (by rw [hiff]; exact not_not_intro hall)]
    · rw [List.pwFilter_cons_of_neg hall, if_pos (hiff.mpr hall)]

/-- What differs from all members that are kept differs from all members. -/
lemma differs_kept_iff (v : Value) (items : List Value) :
    (∀ w ∈ items.pwFilter Differs, Differs v w) ↔ ∀ w ∈ items, Differs v w :=
  List.forall_mem_pwFilter (R := Differs) (fun h => h.or_differs) v items

/-- The place in the list is the last one with its key. -/
def isLast (items : List Value) (i : Fin items.length) : Bool :=
  decide (∀ j, i < j → Differs (items.get i) (items.get j))

/-- The members at the last places of their keys, in the order of the list. -/
def lastPlaces (items : List Value) : List Value :=
  ((List.finRange items.length).filter (isLast items)).map items.get

lemma isLast_zero (v : Value) (items : List Value) :
    isLast (v :: items) (0 : Fin (items.length + 1)) = decide (∀ w ∈ items, Differs v w) := by
  refine decide_eq_decide.mpr ⟨fun h w hw => ?_, fun h j hj => ?_⟩
  · obtain ⟨j, rfl⟩ := List.mem_iff_get.mp hw
    exact h j.succ (Fin.succ_pos j)
  · obtain ⟨j, rfl⟩ := Fin.exists_succ_eq.mpr (Fin.pos_iff_ne_zero.mp hj)
    exact h _ (List.get_mem items j)

lemma isLast_succ (v : Value) (items : List Value) (i : Fin items.length) :
    isLast (v :: items) i.succ = isLast items i := by
  refine decide_eq_decide.mpr ⟨fun h j hj => ?_, fun h j hj => ?_⟩
  · exact h j.succ (Fin.succ_lt_succ_iff.mpr hj)
  · obtain ⟨j, rfl⟩ := Fin.exists_succ_eq.mpr (Fin.ne_zero_of_lt hj)
    exact h j (Fin.succ_lt_succ_iff.mp hj)

/-- The first member of a list is at a last place if it differs from all others. -/
lemma lastPlaces_cons (v : Value) (items : List Value) : lastPlaces (v :: items) =
    if ∀ w ∈ items, Differs v w then v :: lastPlaces items else lastPlaces items := by
  have hrest : ((List.finRange items.length).map Fin.succ).filter (isLast (v :: items)) =
      ((List.finRange items.length).filter (isLast items)).map Fin.succ := by
    rw [List.filter_map]
    refine congrArg (List.map Fin.succ) (List.filter_congr fun i _ => ?_)
    exact isLast_succ v items i
  have hplaces : lastPlaces (v :: items) = ((0 :: (List.finRange items.length).map Fin.succ).filter
      (isLast (v :: items))).map (v :: items).get := by
    rw [lastPlaces, ← List.finRange_succ]
    rfl
  rw [hplaces, List.filter_cons, isLast_zero, hrest, lastPlaces]
  simp only [decide_eq_true_eq]
  split
  · simp [Function.comp_def]
  · simp [Function.comp_def]

/-- What is kept are the members at the last places of their keys. -/
lemma keepLast_eq_lastPlaces (items : List Value) : keepLast items = lastPlaces items := by
  rw [keepLast_eq_pwFilter]
  induction items with
  | nil => rfl
  | cons v items ih =>
    rw [lastPlaces_cons, ← ih]
    split
    case isTrue h => exact List.pwFilter_cons_of_pos ((differs_kept_iff v items).mpr h)
    case isFalse h => exact List.pwFilter_cons_of_neg (mt (differs_kept_iff v items).mp h)

/-- Every member has the key of a member that is kept. -/
lemma exists_mem_keepLast {v : Value} {items : List Value} (hv : v ∈ items) :
    ∃ w ∈ keepLast items, w.key.sameKey v.key = true := by
  rw [keepLast_eq_pwFilter]
  by_contra hnone
  have hall : ∀ w ∈ items.pwFilter Differs, Differs v w := by
    intro w hw
    rw [differs_comm, Differs, ← Bool.not_eq_true]
    exact fun hkey => hnone ⟨w, hw, hkey⟩
  have hself := (differs_kept_iff v items).mp hall v hv
  exact Bool.eq_false_iff.mp hself (sameKey_self v.key)

end Sequence

/-- **Of members with one key, the last one is kept.** For every list, `remdup` gives the members at
those places behind which the key of the member does not occur again, in the order of the list.
Hence no two of them have the same key, the keys are those of the list, nothing else is in it, and
doing the same again changes nothing. -/
theorem remdup_keeps_last (items : List Value) :
    ∃ kept, (∀ line, Operation.remdup.apply [.list items] line = .ok (.list kept)) ∧
      kept = ((List.finRange items.length).filter fun i =>
        ∀ j, i < j → (items.get i).key.sameKey (items.get j).key = false).map items.get ∧
      kept.Pairwise (fun v w => v.key.sameKey w.key = false) ∧
      (∀ k : Value, (∃ v ∈ kept, v.key.sameKey k = true) ↔
        ∃ v ∈ items, v.key.sameKey k = true) ∧
      kept.Sublist items ∧
      ∀ line, Operation.remdup.apply [.list kept] line = .ok (.list kept) := by
  have hfilter := Sequence.keepLast_eq_pwFilter items
  have hsublist : (Sequence.keepLast items).Sublist items := by
    rw [hfilter]
    exact List.pwFilter_sublist items
  refine ⟨Sequence.keepLast items, fun _ => rfl, Sequence.keepLast_eq_lastPlaces items, ?_, ?_,
    hsublist, fun line => ?_⟩
  · rw [hfilter]
    exact List.pairwise_pwFilter items
  · refine fun k => ⟨fun ⟨v, hv, hkey⟩ => ⟨v, hsublist.subset hv, hkey⟩, ?_⟩
    rintro ⟨v, hv, hkey⟩
    obtain ⟨w, hw, hsame⟩ := Sequence.exists_mem_keepLast hv
    exact ⟨w, hw, Value.sameKey_trans hsame hkey⟩
  · have hagain : Sequence.keepLast (Sequence.keepLast items) = Sequence.keepLast items := by
      rw [Sequence.keepLast_eq_pwFilter (Sequence.keepLast items), hfilter, List.pwFilter_idem]
    show Except.ok (Value.list (Sequence.keepLast (Sequence.keepLast items))) = _
    rw [hagain]

end Logo
