import Logo.Operation.Sequences
import Mathlib.Tactic.Common

/-!
# Texts as bytes

A text takes up one to four bytes for each character, and a place in it can be given by counting
bytes. Such a place may be inside of a character, where a text cannot be cut. This file cuts texts
by counting bytes, with no result inside of a character, and searches one text in another byte by
byte.

A search never ends inside of a character. The first byte of a character can be told from the
others, so that a text that starts with one is not found at any of the others.

* `dropBytes_cons`: a character is cut off as a whole.
* `findBytes_bytes`: cutting a text where another one is found gives what `suffixAt?` gives.
-/

namespace Logo.Text

/-- The bytes of a text. -/
def bytes (cs : List Char) : List UInt8 := cs.flatMap String.utf8EncodeChar

/-- The text from a byte on. There is none inside of a character or after the end. -/
def dropBytes : Nat → List Char → Option (List Char)
  | 0, cs => some cs
  | _ + 1, [] => none
  | n + 1, c :: cs => if c.utf8Size ≤ n + 1 then dropBytes (n + 1 - c.utf8Size) cs else none

/-- The first place where the bytes of `part` stand among those of `whole`. -/
def findBytes (part : List UInt8) : (whole : List UInt8) → Option Nat
  | [] => if part.isPrefixOf [] then some 0 else none
  | b :: bs => if part.isPrefixOf (b :: bs) then some 0 else (findBytes part bs).map (· + 1)

variable {c : Char} {cs part whole : List Char}

lemma bytes_cons (c : Char) (cs : List Char) :
    bytes (c :: cs) = String.utf8EncodeChar c ++ bytes cs := rfl

/-! ## Cutting -/

/-- A character is cut off as a whole. -/
lemma dropBytes_cons (n : Nat) (c : Char) (cs : List Char) :
    dropBytes (n + c.utf8Size) (c :: cs) = dropBytes n cs := by
  obtain ⟨size, hsize⟩ := Nat.exists_eq_succ_of_ne_zero (Nat.pos_iff_ne_zero.mp c.utf8Size_pos)
  have hle : c.utf8Size ≤ n + size + 1 := by omega
  have hrest : n + size + 1 - c.utf8Size = n := by omega
  rw [show n + c.utf8Size = n + size + 1 by omega, dropBytes, if_pos hle, hrest]

/-! ## Searching -/

/-- One text starts another if its bytes do. -/
lemma isPrefixOf_bytes (part whole : List Char) :
    (bytes part).isPrefixOf (bytes whole) = part.isPrefixOf whole := by
  rw [Bool.eq_iff_iff, List.isPrefixOf_iff_prefix, List.isPrefixOf_iff_prefix]
  constructor
  · rintro ⟨tail, htail⟩
    refine List.isPrefix_of_utf8Encode_append_eq_utf8Encode tail.toByteArray ?_
    simp only [List.utf8Encode, ← List.toByteArray_append]
    exact congrArg List.toByteArray htail
  · rintro ⟨tail, rfl⟩
    exact ⟨bytes tail, by rw [bytes, bytes, bytes, List.flatMap_append]⟩

lemma findBytes_of_isPrefixOf {part whole : List UInt8} (h : part.isPrefixOf whole = true) :
    findBytes part whole = some 0 := by
  cases whole with
  | nil => exact if_pos h
  | cons b bs => exact if_pos h

/-- A character has a first byte, and no other of its bytes is the first one of any character. -/
lemma exists_utf8EncodeChar (c : Char) : ∃ b bs, String.utf8EncodeChar c = b :: bs ∧
    b.IsUTF8FirstByte ∧ ∀ x ∈ bs, ¬ x.IsUTF8FirstByte := by
  have hfirst : ∀ i (hi : i < (String.utf8EncodeChar c).length),
      (String.utf8EncodeChar c)[i].IsUTF8FirstByte ↔ i = 0 :=
    fun i hi => UInt8.isUTF8FirstByte_getElem_utf8EncodeChar
  cases hbytes : String.utf8EncodeChar c with
  | nil => exact absurd hbytes String.utf8EncodeChar_ne_nil
  | cons b bs =>
    simp only [hbytes] at hfirst
    refine ⟨b, bs, rfl, (hfirst 0 (by simp)).mpr rfl, fun x hx => ?_⟩
    obtain ⟨i, hi, rfl⟩ := List.getElem_of_mem hx
    exact fun h => absurd ((hfirst (i + 1) (by simpa using hi)).mp h) (Nat.succ_ne_zero i)

/-- Nothing that starts with a first byte is found among other bytes. -/
lemma findBytes_append {b : UInt8} {bs xs ys : List UInt8} (hb : b.IsUTF8FirstByte)
    (hxs : ∀ x ∈ xs, ¬ x.IsUTF8FirstByte) :
    findBytes (b :: bs) (xs ++ ys) = (findBytes (b :: bs) ys).map (· + xs.length) := by
  induction xs with
  | nil => simp
  | cons x xs ih =>
    have hne : ¬ (b :: bs).isPrefixOf (x :: (xs ++ ys)) = true := by
      simp only [List.isPrefixOf, Bool.and_eq_true, beq_iff_eq]
      rintro ⟨rfl, -⟩
      exact hxs b List.mem_cons_self hb
    rw [List.cons_append, findBytes, if_neg hne, ih fun y hy => hxs y (List.mem_cons_of_mem x hy),
      Option.map_map]
    rfl

/-- A text that does not start another is found behind the first character of that. -/
lemma findBytes_cons (hpart : part ≠ []) (h : ¬ part.isPrefixOf (c :: cs) = true) :
    findBytes (bytes part) (bytes (c :: cs)) =
      (findBytes (bytes part) (bytes cs)).map (· + c.utf8Size) := by
  obtain ⟨d, ds, rfl⟩ := List.exists_cons_of_ne_nil hpart
  obtain ⟨b, bs, hd, hb, -⟩ := exists_utf8EncodeChar d
  obtain ⟨x, xs, hc, -, hxs⟩ := exists_utf8EncodeChar c
  have hsize : xs.length + 1 = c.utf8Size := by
    rw [← String.length_utf8EncodeChar, hc, List.length_cons]
  rw [← isPrefixOf_bytes] at h
  rw [bytes_cons d, hd, List.cons_append] at h ⊢
  rw [bytes_cons, hc, List.cons_append] at h ⊢
  rw [findBytes, if_neg h, findBytes_append hb hxs, Option.map_map, ← hsize]
  rfl

/-- **Cutting a text where another one is found.** The place is never inside of a character, and
what is left starts with the first occurrence. -/
theorem findBytes_bytes (part whole : List Char) :
    (findBytes (bytes part) (bytes whole)).map (dropBytes · whole) =
      (Sequence.suffixAt? part whole).map some := by
  induction whole with
  | nil =>
    have hbytes : (bytes part).isPrefixOf [] = part.isPrefixOf [] :=
      isPrefixOf_bytes part []
    rw [show bytes [] = [] from rfl, findBytes, Sequence.suffixAt?, hbytes]
    split
    · rfl
    · rfl
  | cons c cs ih =>
    by_cases hprefix : part.isPrefixOf (c :: cs) = true
    · have hbytes := (isPrefixOf_bytes part (c :: cs)).trans hprefix
      rw [findBytes_of_isPrefixOf hbytes, Sequence.suffixAt?, if_pos hprefix]
      rfl
    · have hpart : part ≠ [] := by
        rintro rfl
        exact hprefix rfl
      rw [findBytes_cons hpart hprefix, Sequence.suffixAt?, if_neg hprefix, ← ih, Option.map_map]
      exact congrArg (Option.map · _) (funext fun n => dropBytes_cons n c cs)

example : findBytes (bytes ['b']) (bytes ['a', 'ö', 'b']) = some 3 ∧
    dropBytes 3 ['a', 'ö', 'b'] = some ['b'] ∧ dropBytes 2 ['a', 'ö', 'b'] = none := by
  decide

end Logo.Text
