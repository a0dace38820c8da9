/-!
# Blank characters and blank-separated words

The characters with the White_Space property of the Unicode Standard, and the cutting of a line
into the runs of characters between them.
-/

namespace Logo.Text

/-- A blank character: spaces of every width, tabs and the characters that end a line. -/
def isBlank (c : Char) : Bool :=
  let n := c.toNat
  (9 ≤ n && n ≤ 13) || n == 32 || n == 0x85 || n == 0xA0 || n == 0x1680
    || (0x2000 ≤ n && n ≤ 0x200A) || n == 0x2028 || n == 0x2029 || n == 0x202F
    || n == 0x205F || n == 0x3000

/-- The blank-separated words of `cs`, when `word` has been read so far, last character first. -/
def wordsFrom (word : List Char) : List Char → List (List Char)
  | [] => if word.isEmpty then [] else [word.reverse]
  | c :: cs =>
    if isBlank c then
      if word.isEmpty then wordsFrom [] cs else word.reverse :: wordsFrom [] cs
    else wordsFrom (c :: word) cs

/-- The words of a line: its longest runs of characters that are not blank. -/
def words (line : String) : List String := (wordsFrom [] line.toList).map String.ofList

end Logo.Text
