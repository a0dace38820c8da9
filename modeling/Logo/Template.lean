import Logo.Token.Basic
import Logo.Value

/-!
# Templates

A template is a list in which the word `?` stands for a member of some data and the word `#` for the
place of that member. Filling a template puts source text in their stead: a word is quoted and
escaped, so that it reads back as that word whatever its letters are.
-/

namespace Logo.Template

/-- The source text of a value. -/
def quote : Value → String
  | .word text => "\"" ++ escape text
  | .truth b => "\"" ++ (Value.truth b).display
  | v => v.display

mutual

/-- The template with the member `element`, which stands at place `index`, filled in. -/
def fill (element : Value) (index : Nat) : Value → Value
  | .word text =>
    if text = "?" then .word (quote element)
    else if text = "#" then .word (toString index)
    else .word text
  | .list items => .list (fillEach element index items)
  | v => v

/-- The members of a template, each filled in. -/
def fillEach (element : Value) (index : Nat) : List Value → List Value
  | [] => []
  | v :: vs => fill element index v :: fillEach element index vs

end

end Logo.Template
