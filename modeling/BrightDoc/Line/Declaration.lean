import BrightDoc.Line.Function

/-!
Headers of classes, interfaces, enums, namespaces and constants, the lines that end a block, and the
members inside blocks.
-/

namespace BrightDoc.Line

open BrightDoc.Text

/-- The word after `end`, in small ASCII letters, if the code ends a block. -/
def blockEnd? (code : List Char) : Option (List Char) := do
  let rest ← afterKeyword? "end" (skipSpace code)
  let (word, rest) ←
    firstSpelling? ["function", "sub", "class", "interface", "enum", "namespace"] (skipSpace rest)
  if atWordEnd rest then some (asciiLowercase word) else none

/-- The keyword, in small ASCII letters, of a declaration other than a function. -/
def declarationWord? (code : List Char) : Option (List Char) := do
  let (word, rest) ←
    firstSpelling? ["class", "interface", "enum", "namespace", "const"] (skipSpace code)
  match rest with
  | [] => some (asciiLowercase word)
  | c :: _ => if isSpace c then some (asciiLowercase word) else none

/-- The text after the keyword of a declaration and the blanks that follow it. -/
def afterWord? (word : String) (code : List Char) : Option (List Char) := do
  someSpace? (← afterKeyword? word (skipSpace code))

/-- The end of a class or interface header: an optional `extends` with the parent's name. -/
def parentClause? (cs : List Char) : Option (Option (List Char)) :=
  if isDone cs then some none
  else do
    let rest ← afterKeyword? "extends" (← someSpace? cs)
    let (parent, rest) ← token? (← someSpace? rest)
    done? (some parent) rest

/-- The name and parent in the header of a class or interface, by its keyword. -/
def inheritingHeader? (word : String) (code : List Char) :
    Option (List Char × Option (List Char)) := do
  let (name, rest) ← name? (← afterWord? word code)
  return (name, ← parentClause? rest)

/-- The name in the header of an enum. -/
def enumHeader? (code : List Char) : Option (List Char) := do
  let (name, rest) ← name? (← afterWord? "enum" code)
  done? name rest

/-- The dotted name in the header of a namespace: at least two characters, the last one no dot. -/
def namespaceHeader? (code : List Char) : Option (List Char) := do
  let (name, rest) ← token? (← afterWord? "namespace" code)
  if 2 ≤ name.length && name.getLast? != some '.' then done? name rest else none

/-- The name and initializer of a constant. -/
def constant? (code : List Char) : Option (List Char × List Char) := do
  let (name, rest) ← name? (← afterWord? "const" code)
  let rest ← after? "=" (skipSpace rest)
  return (name, ← initializer? rest)

/-- An optional initializer and blanks, up to the end of the text. -/
def optionalInitializer? (cs : List Char) : Option (Option (List Char)) :=
  match skipSpace cs with
  | [] => some none
  | '=' :: rest => (initializer? rest).map some
  | _ => none

/-- The parts of a class field. -/
structure FieldParts where
  access : Option Access := none
  name : List Char
  typeToken : Option (List Char) := none
  value : Option (List Char) := none

/-- What follows the name of a class field: an optional type token and an optional initializer. -/
def fieldRest? (cs : List Char) : Option (Option (List Char) × Option (List Char)) :=
  match asToken? (skipSpace cs) with
  | some (token, rest) => (optionalInitializer? rest).map fun value => (some token, value)
  | none => (optionalInitializer? cs).map fun value => (none, value)

/-- The parts of a class field from its name on. A name that is followed by a bare word gives up a
final `as` to read that word as a type. -/
def fieldFromName? (access : Option Access) (cs : List Char) : Option FieldParts := do
  let (name, rest) ← name? cs
  let (full, after) := withDesignator (name, rest)
  match fieldRest? after with
  | some (typeToken, value) => return { access, name := full, typeToken, value }
  | none =>
    let short ← beforeAs? name
    let (token, rest) ← token? (← someSpace? rest)
    return { access, name := short, typeToken := some token, value := ← optionalInitializer? rest }

/-- The parts of a class field. A leading access word is read as one if a name follows it, and as
the name otherwise. -/
def field? (code : List Char) : Option FieldParts :=
  let cs := skipSpace code
  ((access? cs).bind fun (access, rest) => fieldFromName? (some access) rest).or
    (fieldFromName? none cs)

/-- The name and type token of an interface field, from its name on. -/
def interfaceFieldFromName? (cs : List Char) : Option (List Char × Option (List Char)) := do
  let (name, rest) ← name? cs
  if isDone rest then return (name, none)
  let (token, rest) ← asToken? (← someSpace? rest)
  done? (name, some token) rest

/-- The name and type token of an interface field. A leading `optional` is skipped if a name follows
it, and is the name otherwise. -/
def interfaceField? (code : List Char) : Option (List Char × Option (List Char)) :=
  let cs := skipSpace code
  (((afterKeyword? "optional" cs).bind someSpace?).bind interfaceFieldFromName?).or
    (interfaceFieldFromName? cs)

/-- The name and written value of an enum member. -/
def enumMember? (code : List Char) : Option (List Char × Option (List Char)) := do
  let (name, rest) ← plainName? (skipSpace code)
  return (name, ← optionalInitializer? rest)

end BrightDoc.Line
