import BrightDoc.Line.Name
import BrightDoc.Text.Search
import BrightDoc.Text.Word
import BrightDoc.Tree.Statement

/-!
Function headers, their parameter lists, and the marks inside function bodies by which the end of a
body is found.
-/

namespace BrightDoc.Line

open BrightDoc.Text

/-- An access word followed by blanks, and the rest after them. -/
def access? (cs : List Char) : Option (Access × List Char) :=
  [("public", Access.everyone), ("protected", Access.family), ("private", Access.owner)].findSome?
    fun (word, access) => do
      let rest ← afterKeyword? word cs
      return (access, ← someSpace? rest)

/-- An optional access word, and the rest. -/
def optionalAccess (cs : List Char) : Option Access × List Char :=
  match access? cs with
  | some (access, rest) => (some access, rest)
  | none => (none, cs)

/-- Whether the word `override` stands here, and the rest after it. -/
def optionalOverride (cs : List Char) : Bool × List Char :=
  match (afterKeyword? "override" cs).bind someSpace? with
  | some rest => (true, rest)
  | none => (false, cs)

/-- What stands before the name in a function header. -/
structure FunctionLead where
  access : Option Access
  overrides : Bool
  kind : FunctionKind

/-- The words before the name of a function, and the rest from the name on. Only a plain spelling
of `sub`, in any case of its ASCII letters, makes a `sub`. -/
def functionLead? (code : List Char) : Option (FunctionLead × List Char) := do
  let (access, rest) := optionalAccess (skipSpace code)
  let (overrides, rest) := optionalOverride rest
  let (word, rest) ← firstSpelling? ["function", "sub"] rest
  let kind := if asciiLowercase word = "sub".toList then .sub else .function
  return ({ access, overrides, kind }, ← someSpace? rest)

/-- Whether the code starts like a function header: the words before the name, and a letter. -/
def startsFunction (code : List Char) : Bool :=
  match functionLead? code with
  | some (_, c :: _) => isCaselessLetter c
  | _ => false

/-- A function header, with the text of its parameter list. -/
structure FunctionHeader extends FunctionLead where
  name : List Char
  params : List Char
  returns : Option (List Char)

/-- The function header that the code is. The parameter list ends at the last closing
parenthesis. -/
def functionHeader? (code : List Char) : Option FunctionHeader := do
  let (lead, rest) ← functionLead? code
  let (name, rest) ← designatedName? rest
  let rest ← after? "(" (skipSpace rest)
  let (params, rest) ← cutAtLast? ')' rest
  let returns ← typeClause? rest
  return { toFunctionLead := lead, name, params, returns }

/-- The parts of a parameter: its name, default text and type token. -/
structure ParamParts where
  name : List Char
  default : Option (List Char) := none
  typeToken : Option (List Char) := none

/-- A default with the type clause after it: the shortest text, of at least the characters in
`held` and one more, after which a type clause is all that is left. -/
def defaultAndType? (held : List Char) : List Char → Option (List Char × Option (List Char))
  | [] => none
  | c :: cs =>
    match typeClause? cs with
    | some token => some ((c :: held).reverse, token)
    | none => defaultAndType? (c :: held) cs

/-- What follows the name of a parameter: an optional default and an optional type token. -/
def paramRest? (cs : List Char) : Option (Option (List Char) × Option (List Char)) :=
  match skipSpace cs with
  | '=' :: rest =>
    match skipSpace rest with
    | [] => rest.getLast?.map fun c => (some [c], none)
    | value => (defaultAndType? [] value).map fun (text, token) => (some text, token)
  | rest => (typeClause? rest).map fun token => (none, token)

/-- The parts of a parameter. A name that is followed by a bare word gives up a final `as` to read
that word as a type. -/
def paramParts? (text : List Char) : Option ParamParts := do
  let (name, rest) ← name? (skipSpace text)
  let (full, after) := withDesignator (name, rest)
  match paramRest? after with
  | some (default, typeToken) => return { name := full, default, typeToken }
  | none =>
    let short ← beforeAs? name
    let (token, rest) ← token? (← someSpace? rest)
    done? { name := short, typeToken := some token } rest

/-- The pieces of a parameter list between the commas that stand outside string literals and
brackets. `depth` counts the open brackets, `quoted` tells whether a literal is open, and `piece`
holds the current piece, newest character first. -/
def parameterTextsFrom (depth : Nat) (quoted : Bool) (piece : List Char) :
    List Char → List (List Char)
  | [] => [piece.reverse]
  | c :: cs =>
    if c = '"' then parameterTextsFrom depth (!quoted) (c :: piece) cs
    else if quoted then parameterTextsFrom depth quoted (c :: piece) cs
    else if c = '(' || c = '[' || c = '{' then parameterTextsFrom (depth + 1) quoted (c :: piece) cs
    else if c = ')' || c = ']' || c = '}' then parameterTextsFrom (depth - 1) quoted (c :: piece) cs
    else if c = ',' && depth = 0 then piece.reverse :: parameterTextsFrom depth quoted [] cs
    else parameterTextsFrom depth quoted (c :: piece) cs

/-- The texts of the parameters in a parameter list. A blank list has none. -/
def parameterTexts (list : List Char) : List (List Char) :=
  match parameterTextsFrom 0 false [] list with
  | [piece] => if isAllWhite piece then [] else [piece]
  | pieces => pieces

/-- The text with its closed string literals emptied; `held` is the text since an open quote, newest
character first. -/
def emptyStringsFrom (held : Option (List Char)) : List Char → List Char
  | [] =>
    match held with
    | some text => '"' :: text.reverse
    | none => []
  | c :: cs =>
    match held with
    | none => if c = '"' then emptyStringsFrom (some []) cs else c :: emptyStringsFrom none cs
    | some text =>
      if c = '"' then '"' :: '"' :: emptyStringsFrom none cs
      else emptyStringsFrom (some (c :: text)) cs

/-- The code with its closed string literals emptied. -/
def emptyStrings (code : List Char) : List Char :=
  emptyStringsFrom none code

/-- Number of places in the text that start a word and satisfy `p`; `inWord` tells whether a word
character stands just before the text. -/
def countWordStarts (p : List Char → Bool) (inWord : Bool) : List Char → Nat
  | [] => 0
  | c :: cs =>
    (if !inWord && p (c :: cs) then 1 else 0) + countWordStarts p (isWord c) cs

/-- Whether no word character starts the text. -/
def atWordEnd : List Char → Bool
  | [] => true
  | c :: _ => !isWord c

/-- Whether a function literal is opened here: `function` or `sub` with a parenthesis. -/
def opensFunction (cs : List Char) : Bool :=
  match firstSpelling? ["function", "sub"] cs with
  | some (_, rest) => (after? "(" (skipSpace rest)).isSome
  | none => false

/-- Whether a function is closed here: `end function` or `end sub`, with or without blanks. -/
def closesFunction (cs : List Char) : Bool :=
  match afterKeyword? "end" cs with
  | some rest =>
    match firstSpelling? ["function", "sub"] (skipSpace rest) with
    | some (_, rest) => atWordEnd rest
    | none => false
  | none => false

/-- Number of function literals opened in the code. -/
def openedFunctions (code : List Char) : Nat :=
  countWordStarts opensFunction false (emptyStrings code)

/-- Number of function ends in the code. -/
def closedFunctions (code : List Char) : Nat :=
  countWordStarts closesFunction false (emptyStrings code)

end BrightDoc.Line
