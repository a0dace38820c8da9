import Logo.Dictionary
import Logo.Value

/-!
# Scopes

Variables live in frames. A frame has a parent, unless it is a root, and its chain leads from it over
its parents to a root. A look-up takes the nearest frame of the chain that binds the name; `define`
binds in one frame, `set` in the root of its chain. Frames are numbered in the order in which they
are made, so that the parent of a frame has a smaller number than the frame itself. Names are
compared in small letters.
-/

namespace Logo

/-- The number of a frame. -/
abbrev FrameId := Nat

/-- A frame. -/
structure Frame where
  /-- The frame that look-ups go on to. A root has none. -/
  parent : Option FrameId
  /-- The variables of the frame, by their names in small letters. -/
  bindings : Dictionary Value

/-- All frames, in the order in which they were made. -/
structure Scopes where
  /-- The frames. -/
  frames : Array Frame
  /-- A parent was made before its children. -/
  parent_lt : ∀ (i : FrameId) (frame : Frame) (p : FrameId),
    frames[i]? = some frame → frame.parent = some p → p < i

namespace Scopes

/-- No frames. -/
def empty : Scopes := ⟨#[], by simp⟩

/-- The number that the next frame gets. -/
def nextId (s : Scopes) : FrameId := s.frames.size

/-- The parent of a frame. -/
def parent? (s : Scopes) (f : FrameId) : Option FrameId := s.frames[f]?.bind Frame.parent

/-- The value that a frame itself binds a name to. -/
def binding? (s : Scopes) (f : FrameId) (name : String) : Option Value :=
  s.frames[f]?.bind fun frame => frame.bindings.find? (Text.lower name)

/-! ## New frames -/

/-- A further frame. A parent that does not exist is left out. -/
def push (s : Scopes) (parent : Option FrameId) (bindings : Dictionary Value) : Scopes where
  frames := s.frames.push ⟨parent.filter (· < s.frames.size), bindings⟩
  parent_lt := by
    intro i frame p hi hp
    rw [Array.getElem?_push] at hi
    split at hi
    · next h =>
      rw [← Option.some.inj hi, Option.filter_eq_some_iff] at hp
      rw [h]
      exact of_decide_eq_true hp.2
    · exact s.parent_lt i frame p hi hp

/-- A new root. Its number is `s.nextId`. -/
def newRoot (s : Scopes) : Scopes := s.push none .empty

/-- A new child of a frame. Its number is `s.nextId`. -/
def extend (s : Scopes) (f : FrameId) : Scopes := s.push (some f) .empty

/-! ## Chains -/

/-- The frame, its parent, the parent of that, and so on, for at most `steps` steps up. -/
def chainFrom (s : Scopes) : (steps : Nat) → FrameId → List FrameId
  | 0, f => [f]
  | steps + 1, f =>
    match s.parent? f with
    | some p => f :: chainFrom s steps p
    | none => [f]

/-- The frames from `f` up to its root. The number of `f` bounds how many there are. -/
def chain (s : Scopes) (f : FrameId) : List FrameId := s.chainFrom f f

/-- The last frame of the chain. -/
def root (s : Scopes) (f : FrameId) : FrameId := (s.chain f).getLastD f

/-- The frame has no parent. -/
def isRoot (s : Scopes) (f : FrameId) : Bool := (s.parent? f).isNone

/-! ## Variables -/

/-- The value of a name, seen from a frame. -/
def lookup (s : Scopes) (f : FrameId) (name : String) : Option Value :=
  (s.chain f).findSome? fun g => s.binding? g name

/-- The value of a name, which has to have one. -/
def get (s : Scopes) (f : FrameId) (name : String) (line : Nat) : Except RuntimeError Value :=
  match s.lookup f name with
  | some v => .ok v
  | none => .error (.undefinedVariable name line)

/-- Binds a name in one frame. -/
def define (s : Scopes) (f : FrameId) (name : String) (v : Value) : Scopes where
  frames := s.frames.modify f fun frame =>
    { frame with bindings := frame.bindings.insert (Text.lower name) v }
  parent_lt := by
    intro i frame p hi hp
    rw [Array.getElem?_modify] at hi
    split at hi
    · obtain ⟨old, hold, rfl⟩ := Option.map_eq_some_iff.1 hi
      exact s.parent_lt i old p hold hp
    · exact s.parent_lt i frame p hi hp

/-- Binds a name in the root of a frame's chain. -/
def set (s : Scopes) (f : FrameId) (name : String) (v : Value) : Scopes :=
  s.define (s.root f) name v

/-- The bindings of the parameters of a call. Inputs without a parameter are dropped and parameters
without an input are bound to no value. -/
def bindInputs (bindings : Dictionary Value) : List String → List Value → Dictionary Value
  | [], _ => bindings
  | p :: ps, [] => bindInputs (bindings.insert (Text.lower p) .absent) ps []
  | p :: ps, v :: vs => bindInputs (bindings.insert (Text.lower p) v) ps vs

end Scopes

end Logo
