/-!
# Dictionaries

A dictionary binds texts to values, each text at most to one. It is a list of pairs; a new binding
goes to the front and drives out an older one of the same text. The one law that its users need is
`find?_insert`.
-/

namespace Logo

/-- Bindings of texts to values. -/
structure Dictionary (α : Type) where
  /-- The pairs of a text and its value. -/
  entries : List (String × α)

namespace Dictionary

variable {α : Type}

/-- The dictionary without bindings. -/
def empty : Dictionary α := ⟨[]⟩

/-- The value of a text. -/
def find? (d : Dictionary α) (key : String) : Option α := d.entries.lookup key

/-- Binds a text to a value. -/
def insert (d : Dictionary α) (key : String) (value : α) : Dictionary α :=
  ⟨(key, value) :: d.entries.filter fun entry => entry.1 != key⟩

@[simp] theorem find?_empty (key : String) : (empty : Dictionary α).find? key = none := rfl

/-- Leaving out the pairs of one text does not change the values of the others. -/
theorem lookup_filter_ne {key other : String} (h : other ≠ key) (entries : List (String × α)) :
    (entries.filter fun entry => entry.1 != key).lookup other = entries.lookup other := by
  induction entries with
  | nil => rfl
  | cons entry rest ih =>
    obtain ⟨name, value⟩ := entry
    by_cases hname : name = key
    · have hother : (other == key) = false := by simpa using h
      simp [hname, List.lookup_cons, ih, hother]
    · simp [hname, List.lookup_cons, ih]

/-- After binding a text, that text has the new value and all others have their old one. -/
theorem find?_insert (d : Dictionary α) (key other : String) (value : α) :
    (d.insert key value).find? other = if other = key then some value else d.find? other := by
  by_cases h : other = key
  · simp [find?, insert, h]
  · have hne : (other == key) = false := by simpa using h
    simp [find?, insert, List.lookup_cons, h, hne, lookup_filter_ne h]

end Dictionary

end Logo
