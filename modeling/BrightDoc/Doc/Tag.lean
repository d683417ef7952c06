import BrightDoc.Line.Name
import BrightDoc.Text.Lowercase
import BrightDoc.Text.Search
import BrightDoc.Text.Word

/-!
Tags in documentation lines. Looking one up gives what it says and the lines that are left once the
lines of the tag are taken out.
-/

namespace BrightDoc.Doc

open BrightDoc.Text

/-- What a tag says: a type and a description, each of which may be missing. -/
structure TagDoc where
  type : Option String := none
  description : Option String := none
deriving DecidableEq

/-- The text, unless it is blank. -/
def nonBlank? (cs : List Char) : Option (List Char) :=
  if isAllWhite cs then none else some cs

/-- A word with its designator, if it has one, and the rest of the text. -/
def tagWord? (cs : List Char) : Option (List Char × List Char) :=
  match cs.takeWhile isWord with
  | [] => none
  | word => some (Line.withDesignator (word, cs.dropWhile isWord))

/-- The name in a parameter tag and the rest of the text. An optional parameter stands in brackets,
which reach to the last closing bracket of the line. -/
def tagName? : List Char → Option (List Char × List Char)
  | '[' :: cs => do
    let (name, rest) ← tagWord? cs
    let (_, tail) ← cutAtLast? ']' (restOfLine rest)
    return (name, tail ++ rest.dropWhile (· != '\n'))
  | cs => tagWord? cs

/-- A parameter tag: its name and what it says. -/
structure ParameterTag where
  name : List Char
  doc : TagDoc

/-- The tag with the given name and type, and the description in the rest of its line. Blanks,
dashes and bars before the description are skipped. -/
def parameterTag (type : Option (List Char)) (name rest : List Char) : ParameterTag :=
  let description := restOfLine (rest.dropWhile fun c => isSpace c || c == '-' || c == '|')
  { name
    doc :=
      { type := (type.bind nonBlank?).map fun text => String.ofList (trim text)
        description := (nonBlank? description).map String.ofList } }

/-- A parameter tag with room for a type, after its `@param`: the type in braces and the name, or at
least two blanks and the name. -/
def typedParameterTag? (cs : List Char) : Option ParameterTag := do
  let rest ← someSpace? cs
  match rest with
  | '{' :: inner =>
    let (type, rest) ← cutAtFirst? '}' inner
    let (name, rest) ← tagName? (← someSpace? rest)
    return parameterTag (some type) name rest
  | _ =>
    if (cs.drop 1).head?.any isSpace then
      let (name, rest) ← tagName? rest
      return parameterTag none name rest
    else none

/-- A parameter tag without a type, after its `@param`. -/
def untypedParameterTag? (cs : List Char) : Option ParameterTag := do
  let (name, rest) ← tagName? (← someSpace? cs)
  return parameterTag none name rest

/-- The parameter tag of a line: the leftmost one with room for a type, else the leftmost one. -/
def parameterTag? (line : String) : Option ParameterTag :=
  let cs := line.toList
  (leftmost? (fun cs => (after? "@param" cs).bind typedParameterTag?) cs).or
    (leftmost? (fun cs => (after? "@param" cs).bind untypedParameterTag?) cs)

/-- What names of parameters are compared by. -/
def nameKey (name : List Char) : String :=
  lowercase (String.ofList (trim name))

/-- What the line says about the parameter with the given key. -/
def paramDoc? (key : String) (line : String) : Option TagDoc :=
  match parameterTag? line with
  | some tag => if nameKey tag.name = key then some tag.doc else none
  | none => none

/-- The lines that do not document the parameter, and what the last line that does says. -/
def takeParam (name : String) (lines : List String) : List String × TagDoc :=
  let key := nameKey name.toList
  (lines.filter fun line => (paramDoc? key line).isNone,
    (lines.filterMap (paramDoc? key)).getLast?.getD {})

/-- The type in braces at the start of the text, braces included, and the rest. -/
def bracedType? : List Char → Option (List Char × List Char)
  | '{' :: inner => (cutAtFirst? '}' inner).map fun (type, rest) => ('{' :: type ++ ['}'], rest)
  | _ => none

/-- What a returns tag says, after its `@return`. -/
def returnsDoc (cs : List Char) : TagDoc :=
  let cs := skipSpace ((after? "s" cs).getD cs)
  let (type, rest) :=
    match bracedType? cs with
    | some (type, rest) => (some type, rest)
    | none => (none, cs)
  { type := type.map fun text =>
      String.ofList (trim (dropEndWhile (· == '}') (text.dropWhile (· == '{'))))
    description := (nonBlank? (restOfLine (skipSpace rest))).map String.ofList }

/-- What the line says about the value a function returns. -/
def returnsDoc? (line : String) : Option TagDoc :=
  (leftmost? (after? "@return") line.toList).map returnsDoc

/-- The lines without a returns tag, and what the first line with one says. -/
def takeReturns (lines : List String) : List String × Option TagDoc :=
  (lines.filter fun line => (returnsDoc? line).isNone, lines.findSome? returnsDoc?)

/-- Whether the first extends tag of the line names no parent. -/
def isBareExtends (line : String) : Bool :=
  match leftmost? (after? "@extends") line.toList with
  | some rest =>
    match someSpace? rest with
    | some (c :: _) => isWhite c
    | _ => true
  | none => false

/-- The lines without the first extends tag that names no parent. -/
def dropBareExtends (lines : List String) : List String :=
  lines.eraseP isBareExtends

/-- The module that a source text names with a module tag. -/
def namedModule? (source : String) : Option String :=
  leftmost? (fun cs => do
    let rest ← after? "@module " cs
    match rest.takeWhile fun c => c != '*' && !isSpace c with
    | [] => none
    | name => some (String.ofList name)) source.toList

/-- A description without white space around it and without a comma at its start. -/
def tidy (description : String) : String :=
  String.ofList <|
    match trim description.toList with
    | ',' :: rest => trimStart rest
    | text => text

end BrightDoc.Doc
