import BrightDoc.Text.Keyword

/-!
Names and type tokens at the start of a text. Where a line is read caselessly, the long s and the
kelvin sign are letters too, being spellings of `s` and `k`.
-/

namespace BrightDoc.Line

open BrightDoc.Text

/-- Letters of a name. -/
def isLetter (c : Char) : Bool :=
  c.isAlpha || c == '_'

/-- Letters of a name where letter case does not matter. -/
def isCaselessLetter (c : Char) : Bool :=
  isLetter c || c == '\u017f' || c == '\u212a'

/-- The name that starts the text, over the given letters, and the rest. A name starts with a letter
and goes on with letters and digits. -/
def nameOver? (letter : Char → Bool) : List Char → Option (List Char × List Char)
  | [] => none
  | c :: cs =>
    if letter c then
      some (c :: cs.takeWhile (fun d => letter d || d.isDigit),
        cs.dropWhile (fun d => letter d || d.isDigit))
    else none

/-- A name of exactly ASCII letters, as in annotations and enum members. -/
def plainName? (cs : List Char) : Option (List Char × List Char) :=
  nameOver? isLetter cs

/-- A name in a caseless line. -/
def name? (cs : List Char) : Option (List Char × List Char) :=
  nameOver? isCaselessLetter cs

/-- The characters that can end a name and designate its type. -/
def isDesignator (c : Char) : Bool :=
  c == '$' || c == '%' || c == '!' || c == '#' || c == '&'

/-- A name with its designator, if it has one, and the rest of the text. -/
def withDesignator : List Char × List Char → List Char × List Char
  | (name, c :: cs) => if isDesignator c then (name ++ [c], cs) else (name, c :: cs)
  | (name, []) => (name, [])

/-- A name in a caseless line, with its designator, if it has one. -/
def designatedName? (cs : List Char) : Option (List Char × List Char) :=
  (name? cs).map withDesignator

/-- Characters of a type token or dotted name after its first letter. -/
def isTokenTail (c : Char) : Bool :=
  isCaselessLetter c || c.isDigit || c == '.'

/-- The type token or dotted name that starts the text, and the rest. -/
def token? : List Char → Option (List Char × List Char)
  | [] => none
  | c :: cs =>
    if isCaselessLetter c then some (c :: cs.takeWhile isTokenTail, cs.dropWhile isTokenTail)
    else none

/-- Whether nothing but blanks is left. -/
def isDone (cs : List Char) : Bool :=
  cs.all isSpace

/-- The value, if nothing but blanks is left. -/
def done? {α : Type} (value : α) (rest : List Char) : Option α :=
  if isDone rest then some value else none

/-- The type token after `as`, and the rest. -/
def asToken? (cs : List Char) : Option (List Char × List Char) := do
  let rest ← afterKeyword? "as" cs
  token? (← someSpace? rest)

/-- The end of a header or parameter: an optional `as` with a type token, and blanks. The answer is
the token, if there is one. -/
def typeClause? (cs : List Char) : Option (Option (List Char)) :=
  if isDone cs then some none
  else do
    let (token, rest) ← asToken? (skipSpace cs)
    done? (some token) rest

/-- The initializer after `=`: the text between blanks. Where only blanks follow the sign, the last
of them counts as the initializer; where nothing follows, there is none. -/
def initializer? (cs : List Char) : Option (List Char) :=
  match skipSpace cs with
  | [] => cs.getLast?.map fun c => [c]
  | value => some (dropEndWhile isSpace value)

/-- A name that runs into the keyword `as`, cut before it. -/
def beforeAs? (name : List Char) : Option (List Char) :=
  let head := name.take (name.length - 2)
  if isSpelling "as" (name.drop (name.length - 2)) && !head.isEmpty then some head else none

end BrightDoc.Line
