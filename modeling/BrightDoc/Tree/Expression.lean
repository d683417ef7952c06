import BrightDoc.Text.Keyword
import BrightDoc.Tree.TypeRef

/-!
Initializers. Their text is kept; all that is found out about them is whether they are a single
literal, and of which type.
-/

namespace BrightDoc

/-- The kinds of literals. -/
inductive LiteralKind where
  | string | integer | longInteger | float | double | boolean | invalid
deriving DecidableEq

namespace LiteralKind

/-- Whether the text is the rest of a string literal after its opening quote: it ends in a quote,
and every quote before that one is doubled. -/
def endsString : List Char → Bool
  | [] => false
  | ['"'] => true
  | '"' :: '"' :: cs => endsString cs
  | c :: cs => c != '"' && endsString cs

/-- Whether the text is a string literal. -/
def isString : List Char → Bool
  | '"' :: cs => endsString cs
  | _ => false

/-- Whether the text is one or more decimal digits. -/
def isDigits (cs : List Char) : Bool :=
  !cs.isEmpty && cs.all Char.isDigit

/-- Whether `c` is a hexadecimal digit. -/
def isHexDigit (c : Char) : Bool :=
  c.isDigit || ('a' ≤ c && c ≤ 'f') || ('A' ≤ c && c ≤ 'F')

/-- Whether the text is an integer without a designator: decimal digits, or hexadecimal ones
after `&h`. -/
def isInteger : List Char → Bool
  | '&' :: h :: cs => (h == 'h' || h == 'H') && !cs.isEmpty && cs.all isHexDigit
  | cs => isDigits cs

/-- Whether the text is an exponent: `e`, an optional sign and digits. -/
def isExponent : List Char → Bool
  | e :: cs =>
    (e == 'e' || e == 'E') &&
      isDigits (match cs with
        | '+' :: ds => ds
        | '-' :: ds => ds
        | ds => ds)
  | [] => false

/-- Whether the text is a number with a point or an exponent, without a designator. -/
def isFloat (cs : List Char) : Bool :=
  let whole := cs.takeWhile Char.isDigit
  match cs.dropWhile Char.isDigit with
  | '.' :: ds =>
    let rest := ds.dropWhile Char.isDigit
    if whole.isEmpty then isDigits ds
    else rest.isEmpty || isExponent rest
  | rest => !whole.isEmpty && isExponent rest

/-- A text and the mark that ends it, if that is one of `marks`. -/
def splitMark (marks : List Char) (cs : List Char) : List Char × Option Char :=
  match cs.getLast? with
  | some c => if marks.contains c then (cs.dropLast, some c) else (cs, none)
  | none => (cs, none)

/-- The kind of literal that the whole text is. -/
def of? (cs : List Char) : Option LiteralKind :=
  let (whole, wide) := splitMark ['&'] cs
  let (real, precision) := splitMark ['!', '#'] cs
  if isString cs then some string
  else if isInteger whole then some (if wide.isSome then longInteger else integer)
  else if isFloat real then some (if precision = some '#' then double else float)
  else if Text.isSpelling "true" cs || Text.isSpelling "false" cs then some boolean
  else if Text.isSpelling "invalid" cs then some invalid
  else none

/-- The type of a literal. The literal `invalid` fits every type. -/
def type : LiteralKind → BuiltinType
  | string => .string
  | integer => .integer
  | longInteger => .longInteger
  | float => .float
  | double => .double
  | boolean => .boolean
  | invalid => .dynamic

end LiteralKind

/-- An initializer: a single literal, or anything else. -/
inductive Expression where
  | literal (text : String)
  | other (text : String)
deriving DecidableEq

namespace Expression

/-- The text of an initializer. -/
def text : Expression → String
  | literal text => text
  | other text => text

/-- The initializer written as `cs`, without white space around it. -/
def ofText (cs : List Char) : Expression :=
  let trimmed := Text.trim cs
  if (LiteralKind.of? trimmed).isSome then literal (String.ofList trimmed)
  else other (String.ofList trimmed)

/-- The type an initializer implies. One that is no literal implies none. -/
def type : Expression → TypeRef
  | other _ => .builtin .uninitialized
  | literal text =>
    match LiteralKind.of? text.toList with
    | some kind => .builtin kind.type
    | none => .builtin .dynamic

end Expression

end BrightDoc
