import Logo.Text.CaseTables

/-!
# Small and capital letters

`lower` and `upper` change the case of a whole text. Both go letter by letter through the tables of
`Logo.Text.CaseTables`; two rules are not letter by letter:

* a capital sigma becomes the final small sigma at the end of a word and the ordinary one
  elsewhere;
* some letters have a capital form of several characters (`upperExpansions`), and the dotted
  capital I has a small form of two.

Names of variables and procedures are compared after `lower`, so it is the one place that decides
which spellings are the same name. `sameLetters` is the cruder test used for keywords: it ignores
the case of the 26 letters of the basic alphabet and nothing else.
-/

namespace Logo.Text

/-! ## Single letters -/

/-- The code point `c` belongs to the run `r`. -/
def CaseRun.contains (r : CaseRun) (c : Nat) : Bool :=
  r.first ≤ c && c ≤ r.last && (c - r.first) % r.step == 0

/-- The counterpart of the code point `c` in a sorted table of runs, or `c` itself. -/
def counterpart : List CaseRun → Nat → Nat
  | [], c => c
  | r :: rs, c =>
    if c < r.first then c
    else if r.contains c then (c + r.offset).toNat
    else counterpart rs c

/-- The code point `c` lies in one of the sorted, disjoint closed ranges. -/
def inRanges : List (Nat × Nat) → Nat → Bool
  | [], _ => false
  | (first, last) :: rs, c => if c < first then false else c ≤ last || inRanges rs c

/-- A letter with case. -/
def isCased (c : Char) : Bool := inRanges casedRanges c.toNat

/-- A character that does not separate the letters around it. -/
def isCaseIgnorable (c : Char) : Bool := inRanges caseIgnorableRanges c.toNat

/-- The small form of one letter, away from the end of a word. -/
def lowerChar (c : Char) : List Char :=
  if c = 'İ' then ['i', '\u0307'] else [Char.ofNat (counterpart lowerRuns c.toNat)]

/-- The capital form of one letter. -/
def upperChar (c : Char) : List Char :=
  match upperExpansions.lookup c.toNat with
  | some codes => codes.map Char.ofNat
  | none => [Char.ofNat (counterpart upperRuns c.toNat)]

/-! ## Whole texts -/

/-- The nearest character of `cs` that is not passed over is a letter with case. -/
def meetsCased (cs : List Char) : Bool :=
  (cs.dropWhile isCaseIgnorable).head?.any isCased

/-- A position stands at the end of a word: a letter with case comes before it and none after it.
The characters before it are given from the nearest to the farthest. -/
def endsWord (before after : List Char) : Bool :=
  meetsCased before && !meetsCased after

/-- The small form of `cs`, which follows the characters of `before` (nearest first). -/
def lowerFrom (before : List Char) : List Char → List Char
  | [] => []
  | c :: cs =>
    (if c = 'Σ' then [if endsWord before cs then 'ς' else 'σ'] else lowerChar c)
      ++ lowerFrom (c :: before) cs

/-- The text in small letters. -/
def lower (s : String) : String := String.ofList (lowerFrom [] s.toList)

/-- The text in capital letters. -/
def upper (s : String) : String := String.ofList (s.toList.flatMap upperChar)

/-! ## The basic alphabet -/

/-- The two texts differ at most in the case of the letters of the basic alphabet. -/
def sameLetters (s t : String) : Bool := s.toList.map Char.toLower == t.toList.map Char.toLower

end Logo.Text
