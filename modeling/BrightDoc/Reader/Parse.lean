import BrightDoc.Reader.Step

/-!
Reading a whole source text: the lines are taken one after the other, and what is left open at the
end is an error. Reading two texts one after the other is reading the second from the state that the
first leaves (`readFrom_append`).
-/

namespace BrightDoc

/-- The state after the given lines, the first of which has the number `index`. -/
def readFrom (dialect : Dialect) (index : Nat) (s : ReaderState) :
    List (List Char) → Outcome ReaderState
  | [] => .ok s
  | line :: more => (s.step dialect ⟨index, line⟩).andThen fun t => readFrom dialect (index + 1) t more

/-- Reading lines in two parts is reading them at once. -/
theorem readFrom_append (dialect : Dialect) (index : Nat) (s : ReaderState)
    (first second : List (List Char)) :
    readFrom dialect index s (first ++ second) =
      (readFrom dialect index s first).andThen fun t =>
        readFrom dialect (index + first.length) t second := by
  induction first generalizing index s with
  | nil => simp [readFrom]
  | cons line more ih =>
    simp only [List.cons_append, readFrom, Outcome.andThen_assoc, List.length_cons]
    congr 1
    funext t
    rw [ih]
    simp [Nat.add_comm, Nat.add_left_comm]

/-- The statements of a list of lines. -/
def readLines (dialect : Dialect) (lines : List (List Char)) : Outcome (List Statement) :=
  (readFrom dialect 0 {} lines).andThen fun s => { result := s.finish }

/-- The statements of a source text. -/
def parse (dialect : Dialect) (source : String) : Outcome (List Statement) :=
  readLines dialect (Text.lines source.toList)

end BrightDoc
