import BrightDoc.Text.CodeRange

/-!
Blank characters and trimming. Code is laid out with the six ASCII blanks (`isSpace`); comment and
tag texts are trimmed by the wider set of all white space (`isWhite`).
-/

namespace BrightDoc.Text

/-- The blanks that separate the words of a code line: space, tab, line feed, vertical tab,
form feed and carriage return. -/
def isSpace (c : Char) : Bool :=
  c == ' ' || (9 ≤ c.toNat && c.toNat ≤ 13)

/-- White space of every script, as inclusive ranges of code points in ascending order. -/
def whiteRanges : List (Nat × Nat) := [
    (0x9, 0xD), (0x20, 0x20), (0x85, 0x85), (0xA0, 0xA0), (0x1680, 0x1680), (0x2000, 0x200A),
    (0x2028, 0x2029), (0x202F, 0x202F), (0x205F, 0x205F), (0x3000, 0x3000)]

/-- Whether `c` is white space of any script. -/
def isWhite (c : Char) : Bool :=
  inRanges whiteRanges c

/-- Every blank of a code line is white space. -/
theorem isWhite_of_isSpace {c : Char} (h : isSpace c = true) : isWhite c = true := by
  simp only [isSpace, Bool.or_eq_true, Bool.and_eq_true, decide_eq_true_eq, beq_iff_eq] at h
  rw [isWhite, inRanges_iff]
  rcases h with h | h
  · exact ⟨(0x20, 0x20), by simp [whiteRanges], by subst h; decide⟩
  · exact ⟨(0x9, 0xD), by simp [whiteRanges], h.1, h.2⟩

/-- The text after its leading blanks. -/
def skipSpace (cs : List Char) : List Char :=
  cs.dropWhile isSpace

/-- The text after its leading blanks, of which there is at least one. -/
def someSpace? : List Char → Option (List Char)
  | [] => none
  | c :: cs => if isSpace c then some (skipSpace cs) else none

/-- The text without the characters of `p` at its end. -/
def dropEndWhile (p : Char → Bool) : List Char → List Char
  | [] => []
  | c :: cs =>
    match dropEndWhile p cs with
    | [] => if p c then [] else [c]
    | rest => c :: rest

/-- The text without white space at its start. -/
def trimStart (cs : List Char) : List Char :=
  cs.dropWhile isWhite

/-- The text without white space at its end. -/
def trimEnd (cs : List Char) : List Char :=
  dropEndWhile isWhite cs

/-- The text without white space at its two ends. -/
def trim (cs : List Char) : List Char :=
  trimStart (trimEnd cs)

/-- Whether the text holds nothing but white space. -/
def isAllWhite (cs : List Char) : Bool :=
  cs.all isWhite

/-- Nothing is left exactly when every character of the text is one of `p`. -/
theorem dropEndWhile_eq_nil_iff {p : Char → Bool} {cs : List Char} :
    dropEndWhile p cs = [] ↔ cs.all p = true := by
  induction cs with
  | nil => simp [dropEndWhile]
  | cons c cs ih =>
    rw [dropEndWhile]
    split
    · next h => cases hc : p c <;> simp [hc, ← ih, h]
    · next h => simpa [← ih] using fun _ => h

end BrightDoc.Text
