import Logo.Token.Basic
import Logo.Text.Case
import Mathlib.Tactic.Common

/-!
# The basic alphabet in small letters

Small letters are asked for in two ways: `lower` knows all alphabets, and `foldBasic` only the basic
one. This file shows that it makes no difference to `lower`, to keywords and to the escapes of words
whether the basic letters of a word have been made small before. A capital sigma needs care, since
its small form depends on the letters around it; but these are as much letters before as after.

* `lower_foldBasic`: the small form of a word does not depend on the case of its basic letters.
* `foldBasic_escape`: its escapes stand in the same places.
-/

namespace Logo

namespace Text

/-- The text with the letters of the basic alphabet in small. -/
def foldBasic (s : String) : String := String.ofList (s.toList.map Char.toLower)

@[simp] lemma toList_foldBasic (s : String) : (foldBasic s).toList = s.toList.map Char.toLower :=
  String.toList_ofList

/-- The texts differ at most in the case of basic letters if they are folded to the same text. -/
lemma sameLetters_iff (s t : String) : sameLetters s t = true ↔ foldBasic s = foldBasic t := by
  rw [sameLetters, beq_iff_eq, ← toList_foldBasic, ← toList_foldBasic, String.toList_inj]

/-! ## Single letters -/

/-- The capital letters of the basic alphabet. -/
def basicCapitals : List Char := "ABCDEFGHIJKLMNOPQRSTUVWXYZ".toList

lemma toLower_eq_or_mem (c : Char) : c.toLower = c ∨ c ∈ basicCapitals := by
  unfold Char.toLower
  split
  case isFalse => exact .inl rfl
  case isTrue h =>
    have hall : ∀ i < 26, Char.ofNat (65 + i) ∈ basicCapitals := by decide
    have hlow : 65 ≤ c.toNat := UInt32.le_iff_toNat_le.mp h.1
    have hhigh : c.toNat ≤ 90 := UInt32.le_iff_toNat_le.mp h.2
    have hmem := hall (c.toNat - 65) (by omega)
    rw [Nat.add_sub_cancel' hlow, Char.ofNat_toNat] at hmem
    exact .inr hmem

/-- What is asked about a letter does not depend on its case. -/
structure SameRole (c d : Char) : Prop where
  isCased : isCased c = isCased d
  isCaseIgnorable : isCaseIgnorable c = isCaseIgnorable d
  lowerChar : lowerChar c = lowerChar d
  isSigma : c = 'Σ' ↔ d = 'Σ'
  isWordChar : isWordChar c = isWordChar d
  toLower : c.toLower = d.toLower

lemma sameRole_toLower (c : Char) : SameRole c.toLower c := by
  rcases toLower_eq_or_mem c with hc | hc
  · rw [hc]
    exact ⟨rfl, rfl, rfl, Iff.rfl, rfl, rfl⟩
  · have hall : basicCapitals.all fun c => isCased c.toLower == isCased c &&
        isCaseIgnorable c.toLower == isCaseIgnorable c && lowerChar c.toLower == lowerChar c &&
        c.toLower != 'Σ' && c != 'Σ' && isWordChar c.toLower == isWordChar c &&
        c.toLower.toLower == c.toLower := by decide +kernel
    have hfacts := List.all_eq_true.mp hall c hc
    simp only [Bool.and_eq_true, beq_iff_eq, bne_iff_ne] at hfacts
    obtain ⟨⟨⟨⟨⟨⟨hcased, hignorable⟩, hlower⟩, hsigma⟩, hsigma'⟩, hword⟩, hidem⟩ := hfacts
    exact ⟨hcased, hignorable, hlower, by simp [hsigma, hsigma'], hword, hidem⟩

/-! ## Words -/

lemma meetsCased_map_toLower (cs : List Char) :
    meetsCased (cs.map Char.toLower) = meetsCased cs := by
  have hignorable : isCaseIgnorable ∘ Char.toLower = isCaseIgnorable :=
    funext fun c => (sameRole_toLower c).isCaseIgnorable
  have hcased : isCased ∘ Char.toLower = isCased := funext fun c => (sameRole_toLower c).isCased
  rw [meetsCased, List.dropWhile_map, hignorable, List.head?_map, Option.any_map]
  exact congrArg (Option.any · _) hcased

lemma lowerFrom_map_toLower (before cs : List Char) :
    lowerFrom (before.map Char.toLower) (cs.map Char.toLower) = lowerFrom before cs := by
  induction cs generalizing before with
  | nil => rfl
  | cons c cs ih =>
    have hrole := sameRole_toLower c
    have hrest := ih (c :: before)
    rw [List.map_cons] at hrest
    rw [List.map_cons, lowerFrom, lowerFrom, hrest, hrole.lowerChar, endsWord, endsWord,
      meetsCased_map_toLower, meetsCased_map_toLower]
    simp only [hrole.isSigma]

/-- **The small form of a word does not depend on the case of its basic letters.** -/
@[simp] theorem lower_foldBasic (s : String) : lower (foldBasic s) = lower s := by
  rw [lower, toList_foldBasic]
  exact congrArg String.ofList (lowerFrom_map_toLower [] s.toList)

lemma map_toLower_map_toLower (cs : List Char) :
    (cs.map Char.toLower).map Char.toLower = cs.map Char.toLower := by
  rw [List.map_map]
  exact List.map_congr_left fun c _ => (sameRole_toLower c).toLower

lemma foldBasic_foldBasic (s : String) : foldBasic (foldBasic s) = foldBasic s := by
  rw [foldBasic, toList_foldBasic, map_toLower_map_toLower, foldBasic]

@[simp] lemma sameLetters_foldBasic_left (s t : String) :
    sameLetters (foldBasic s) t = sameLetters s t := by
  rw [Bool.eq_iff_iff, sameLetters_iff, sameLetters_iff, foldBasic_foldBasic]

@[simp] lemma sameLetters_foldBasic_right (s t : String) :
    sameLetters s (foldBasic t) = sameLetters s t := by
  rw [Bool.eq_iff_iff, sameLetters_iff, sameLetters_iff, foldBasic_foldBasic]

lemma foldBasic_append (s t : String) : foldBasic (s ++ t) = foldBasic s ++ foldBasic t := by
  rw [foldBasic, String.toList_append, List.map_append, String.ofList_append]
  rfl

/-- The escapes of a word stand in the same places. -/
lemma map_toLower_escapeChars (cs : List Char) :
    (escapeChars cs).map Char.toLower = escapeChars (cs.map Char.toLower) := by
  unfold escapeChars
  rw [List.map_flatMap, List.flatMap_map]
  refine congrArg (List.flatMap · cs) (funext fun c => ?_)
  rw [(sameRole_toLower c).isWordChar]
  split
  · rfl
  · rfl

lemma foldBasic_escape (s : String) : foldBasic (escape (foldBasic s)) = foldBasic (escape s) := by
  rw [← String.toList_inj, toList_foldBasic, toList_foldBasic, escape, escape, String.toList_ofList,
    String.toList_ofList, map_toLower_escapeChars, map_toLower_escapeChars, toList_foldBasic,
    map_toLower_map_toLower]

end Text

end Logo
