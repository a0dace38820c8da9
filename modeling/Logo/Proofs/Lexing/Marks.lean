import Logo.Program.Grammar
import Logo.Proofs.Lexing.MaximalMunch
import Logo.Proofs.Text.Bytes

/-!
# The marks of words

A quoted word and a variable start with a mark, which is dropped by cutting off the first byte of
the lexeme. That is a cut inside of a character if the character takes up more than one byte, and
past the end if there is none. Here the cut is made as a cut of bytes, with no answer where it
cannot be made, and it is shown that there always is an answer: a lexeme of these two kinds starts
with its mark, which is one byte long.

* `tokenize?`: the tokens of a text, with cuts of bytes.
* `tokenize?_eq`: they are those of `tokenize`.
-/

namespace Logo

/-- What a lexeme of the pattern stands for, if its mark can be cut off. -/
def Pattern.read? : Pattern → List Char → Option Reading
  | word, lexeme => do
    let body ← Text.dropBytes 1 lexeme
    return .emit (.word (String.ofList (unescapeChars body)))
  | reference, lexeme => do
    let body ← Text.dropBytes 1 lexeme
    return .emit (.reference (String.ofList (unescapeChars body)))
  | pattern, lexeme => some (pattern.read lexeme)

/-- The tokens of the rest of a text, if all marks can be cut off. -/
def scan? (p : Position) : (pending : Nat) → List Char → Option (Except LexError (List Placed))
  | _, [] => some (.ok [p.place .endOfText])
  | pending + 1, c :: cs => scan? (p.next c) pending cs
  | 0, c :: cs =>
    match longest (c :: cs) with
    | none => some (.error ⟨.unknownCharacter c, p.line, p.column⟩)
    | some (pattern, length) => do
      match ← pattern.read? ((c :: cs).take length) with
      | .emit token =>
        match ← scan? (p.next c) (length - 1) cs with
        | .ok tokens => return .ok (p.place token :: tokens)
        | .error e => return .error e
      | .skip => scan? (p.next c) (length - 1) cs
      | .refuse problem => return .error ⟨problem, p.line, p.column⟩

/-- The tokens of a text, if all marks can be cut off. -/
def tokenize? (source : String) : Option (Except LexError (List Placed)) :=
  scan? .start 0 source.toList

/-- The program that a text forms, if all marks can be cut off. -/
def Program.ofText? (source : String) (vocabulary : Vocabulary) :
    Option (Except ParseError Program × Vocabulary) := do
  match ← tokenize? source with
  | .ok tokens => return ofTokens tokens vocabulary
  | .error e => return (.error (.lexical e), vocabulary)

/-- A mark of one byte can be cut off. -/
lemma dropBytes_mark (mark : Char) (h : mark.utf8Size = 1) (body : List Char) :
    Text.dropBytes 1 (mark :: body) = some body := by
  rw [← h, ← Nat.zero_add mark.utf8Size, Text.dropBytes_cons]
  cases body <;> rfl

/-- A lexeme of a pattern has the mark that is cut off. -/
lemma Pattern.read?_of_mem {pattern : Pattern} {lexeme : List Char}
    (h : lexeme ∈ pattern.language) : pattern.read? lexeme = some (pattern.read lexeme) := by
  cases pattern with
  | word =>
    obtain ⟨_, rfl, body, -, rfl⟩ := Language.mem_mul.mp h
    rw [List.singleton_append, Pattern.read?, dropBytes_mark '"' rfl]
    rfl
  | reference =>
    obtain ⟨_, rfl, body, -, rfl⟩ := Language.mem_mul.mp h
    rw [List.singleton_append, Pattern.read?, dropBytes_mark ':' rfl]
    rfl
  | _ => rfl

lemma scan?_eq (p : Position) (pending : Nat) (cs : List Char) :
    scan? p pending cs = some (scan p pending cs) := by
  induction cs generalizing p pending with
  | nil => cases pending <;> rfl
  | cons c cs ih =>
    cases pending with
    | succ pending => exact ih (p.next c) pending
    | zero =>
      rw [scan?, scan]
      cases hlongest : longest (c :: cs) with
      | none => rfl
      | some found =>
        obtain ⟨pattern, length⟩ := found
        obtain ⟨lexeme, rfl, hmunch⟩ := isMunch_of_longest hlongest
        have hlexeme : (c :: cs).take lexeme.length = lexeme :=
          (List.prefix_iff_eq_take.mp hmunch.starts).symm
        simp only [hlexeme, Pattern.read?_of_mem hmunch.fits, ih, Option.bind_eq_bind,
          Option.bind_some]
        cases pattern.read lexeme with
        | emit token => cases scan (p.next c) (lexeme.length - 1) cs <;> rfl
        | skip => rfl
        | refuse problem => rfl

/-- **All marks can be cut off.** -/
theorem tokenize?_eq (source : String) : tokenize? source = some (tokenize source) :=
  scan?_eq .start 0 source.toList

lemma Program.ofText?_eq (source : String) (v : Vocabulary) :
    Program.ofText? source v = some (Program.ofText source v) := by
  rw [Program.ofText?, tokenize?_eq, Program.ofText]
  cases tokenize source <;> rfl

end Logo
