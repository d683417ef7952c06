import BrightDoc.Line.Function

/-!
The text of comments as documentation: comment marks are taken off, marks that would open or close a
documentation block are removed, and markup is escaped on demand.
-/

namespace BrightDoc.Doc

open BrightDoc.Text

/-- The text after the mark of a comment line: an apostrophe, or the word `rem`. -/
def afterMark? (line : List Char) : Option (List Char) :=
  match skipSpace line with
  | '\'' :: rest => some rest
  | cs =>
    match afterKeyword? "rem" cs with
    | some rest => if Line.atWordEnd rest then some rest else none
    | none => none

/-- A comment line without its mark, the asterisks after the mark, and white space around it. -/
def stripMark (line : List Char) : List Char :=
  match afterMark? line with
  | some rest => trim (skipSpace ((skipSpace rest).dropWhile (· == '*')))
  | none => trim line

/-- The entity of a markup character, or the character itself. -/
def entity : Char → List Char
  | '&' => "&amp;".toList
  | '<' => "&lt;".toList
  | '>' => "&gt;".toList
  | '"' => "&quot;".toList
  | '\'' => "&apos;".toList
  | c => [c]

/-- The text with its markup characters written as entities. -/
def escapeMarkup (cs : List Char) : List Char :=
  cs.flatMap entity

/-- The text as it is shown, with or without its markup escaped. -/
def shown (escape : Bool) (cs : List Char) : List Char :=
  if escape then escapeMarkup cs else cs

/-- A line without the mark that opens a documentation block. -/
def dropOpener (line : List Char) : List Char :=
  match skipSpace line with
  | '/' :: '*' :: rest => skipSpace (rest.dropWhile (· == '*'))
  | cs => cs

/-- The text without the marks that close a documentation block, each with the blanks after it.
`stars` counts the asterisks just before the text, and `closed` tells whether a mark ends just
before it. -/
def dropClosersFrom (stars : Nat) (closed : Bool) : List Char → List Char
  | [] => List.replicate stars '*'
  | c :: cs =>
    if c = '*' then dropClosersFrom (stars + 1) false cs
    else if c = '/' && 0 < stars then dropClosersFrom 0 true cs
    else if closed && isSpace c then dropClosersFrom 0 true cs
    else List.replicate stars '*' ++ c :: dropClosersFrom 0 false cs

/-- The text without the marks that close a documentation block. -/
def dropClosers (cs : List Char) : List Char :=
  dropClosersFrom 0 false cs

/-- The lines of a comment without their marks. -/
def bareLines (c : Comment) : List (List Char) :=
  (pieces '\n' c.text.toList).map stripMark

/-- The lines with the block opener dropped from the first one. -/
def dropFirstOpener : List (List Char) → List (List Char)
  | [] => []
  | line :: more => dropOpener line :: more

/-- A line of a documentation block. -/
def blockLine (text : List Char) : String :=
  String.ofList (trimEnd (" * ".toList ++ text))

/-- The lines that a comment gives to a documentation block. Lines with a module tag are left out,
since the module has a block of its own. -/
def commentLines (escape : Bool) (c : Comment) : List String :=
  let kept := (bareLines c).filter fun line => !contains "@module" line
  (dropFirstOpener kept).map fun line => blockLine (shown escape (dropClosers line))

/-- The lines that an optional comment gives to a documentation block. -/
def linesOf (escape : Bool) (comment : Option Comment) : List String :=
  match comment with
  | some c => commentLines escape c
  | none => []

/-- The first line of every documentation block. -/
def opener : String := "/**"

/-- The last line of every documentation block. -/
def closer : String := " */"

/-- A documentation block up to the lines of its comment. -/
def openBlock (escape : Bool) (comment : Option Comment) : List String :=
  opener :: linesOf escape comment

/-- A comment as a single line: its lines without marks, joined by spaces. -/
def summary (escape : Bool) (comment : Option Comment) : String :=
  match comment with
  | some c =>
    let text := [' '].intercalate ((bareLines c).filter fun line => !line.isEmpty)
    String.ofList (shown escape (dropClosers text))
  | none => ""

end BrightDoc.Doc
