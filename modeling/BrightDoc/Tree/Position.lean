/-!
Places in a source text.
-/

namespace BrightDoc

/-- A line, counted from zero, and a column on it, counted in UTF-8 bytes from zero. -/
structure Position where
  line : Nat := 0
  column : Nat := 0
deriving DecidableEq, Inhabited

/-- A stretch of source text, from its first character to just after its last one. -/
structure Range where
  start : Position := {}
  stop : Position := {}
deriving DecidableEq, Inhabited

/-- The stretch between two columns of one line. -/
def Range.onLine (line first last : Nat) : Range :=
  ⟨⟨line, first⟩, ⟨line, last⟩⟩

end BrightDoc
