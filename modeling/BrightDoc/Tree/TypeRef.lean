import BrightDoc.Text.Lowercase

/-!
Types of declarations: the types the language knows by keyword, and named types.
-/

namespace BrightDoc

/-- A type known by keyword, or the type of a value that tells nothing about its type. -/
inductive BuiltinType where
  | boolean | integer | longInteger | float | double | string | object | dynamic | void
  | function | invalid | uninitialized
deriving DecidableEq, Inhabited

namespace BuiltinType

/-- The keyword of a type. The uninitialized type cannot be written and has none. -/
def keyword? : BuiltinType → Option String
  | boolean => some "boolean"
  | integer => some "integer"
  | longInteger => some "longinteger"
  | float => some "float"
  | double => some "double"
  | string => some "string"
  | object => some "object"
  | dynamic => some "dynamic"
  | void => some "void"
  | function => some "function"
  | invalid => some "invalid"
  | uninitialized => none

/-- The types that can be written. -/
def written : List BuiltinType :=
  [boolean, integer, longInteger, float, double, string, object, dynamic, void, function, invalid]

/-- The type whose keyword is `word`, in any case of its ASCII letters. -/
def ofKeyword? (word : String) : Option BuiltinType :=
  let small := String.ofList (Text.asciiLowercase word.toList)
  written.find? fun type => type.keyword? == some small

end BuiltinType

/-- The type of a declaration: one known by keyword, or one named by the program. -/
inductive TypeRef where
  | custom (name : String)
  | builtin (type : BuiltinType)
deriving DecidableEq, Inhabited

namespace TypeRef

/-- The type a written token stands for. A token that is no keyword names a type. -/
def ofToken (token : String) : TypeRef :=
  match BuiltinType.ofKeyword? token with
  | some type => builtin type
  | none => custom token

/-- The name shown for a type that is not known. -/
def unknownName : String := "dynamic"

/-- The name of a type in a documentation tag. -/
def name : TypeRef → String
  | custom name => name
  | builtin type => type.keyword?.getD unknownName

/-- The name in a documentation tag of a type that may be missing. -/
def nameOf (type : Option TypeRef) : String :=
  (type.map name).getD unknownName

/-- The type named by the character that ends a designated name, such as `total#`. -/
def ofDesignator? : Char → Option TypeRef
  | '$' => some (builtin .string)
  | '%' => some (builtin .integer)
  | '!' => some (builtin .float)
  | '#' => some (builtin .double)
  | '&' => some (builtin .longInteger)
  | _ => none

/-- The type that the last character of a name designates. -/
def ofDesignatedName? (name : List Char) : Option TypeRef :=
  name.getLast?.bind ofDesignator?

end TypeRef

end BrightDoc
