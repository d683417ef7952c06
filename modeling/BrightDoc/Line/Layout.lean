import BrightDoc.Text.Search
import BrightDoc.Line.Name

/-!
The layout of a line: blank lines, comment lines, annotations, and the comment that may end a code
line.
-/

namespace BrightDoc.Line

open BrightDoc.Text

/-- Whether the line holds nothing but blanks. -/
def isBlank (line : List Char) : Bool :=
  line.all isSpace

/-- Whether the line is a comment: it starts with an apostrophe, or with the word `rem`. -/
def isComment (line : List Char) : Bool :=
  match skipSpace line with
  | '\'' :: _ => true
  | cs =>
    match afterKeyword? "rem" cs with
    | some [] => true
    | some (c :: _) => isSpace c
    | none => false

/-- The name of the annotation, if the line is one. -/
def annotationName? (line : List Char) : Option (List Char) :=
  match skipSpace line with
  | '@' :: cs => (plainName? cs).map (·.1)
  | _ => none

/-- Column of the first character that is not white space. -/
def startColumn (line : List Char) : Nat :=
  byteLength (line.takeWhile isWhite)

/-- Column after the last character that is not white space. -/
def endColumn (line : List Char) : Nat :=
  byteLength (trimEnd line)

/-- A line cut before its first apostrophe outside string literals; `quoted` tells whether the line
starts inside one. -/
def cutComment (quoted : Bool) : List Char → List Char × Option (List Char)
  | [] => ([], none)
  | c :: cs =>
    if c = '\'' && !quoted then ([], some (c :: cs))
    else
      let (code, comment) := cutComment (if c = '"' then !quoted else quoted) cs
      (c :: code, comment)

/-- The code of a line, and the comment that ends the line, if there is one. -/
def splitComment (line : List Char) : List Char × Option (List Char) :=
  cutComment false line

/-- A line is its code followed by its comment. -/
theorem cutComment_append (quoted : Bool) (line : List Char) :
    (cutComment quoted line).1 ++ (cutComment quoted line).2.getD [] = line := by
  induction line generalizing quoted with
  | nil => rfl
  | cons c cs ih =>
    simp only [cutComment]
    split
    · simp
    · simp [ih]

end BrightDoc.Line
