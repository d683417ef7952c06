import BrightDoc.Carrier.Entry
import BrightDoc.Carrier.Scope
import BrightDoc.Doc.Tag

/-!
Blocks and stubs of functions, class methods and interface methods. The tags that a comment holds
for the parameters and the returned value are taken out of it and written anew, one for each
parameter and one for the value.
-/

namespace BrightDoc.Carrier

/-- A type in braces. -/
def braced (type : String) : String :=
  "\x7b" ++ type ++ "\x7d"

/-- A tag line with the description after it, unless that is empty. -/
def withDescription (line : String) (description : Option String) : String :=
  match description.map Doc.tidy with
  | some text => if text = "" then line else line ++ " " ++ text
  | none => line

/-- The tag of a parameter, with what its comment says about it. The documented type goes before the
declared one. -/
def paramLine (p : Param) (doc : Doc.TagDoc) : String :=
  let type := doc.type.getD (TypeRef.nameOf p.type)
  let name :=
    match p.default with
    | some value => "[" ++ p.name ++ "=" ++ value.text ++ "]"
    | none => p.name
  withDescription (" * @param " ++ braced type ++ " " ++ name) doc.description

/-- The lines that document none of the parameters, and one tag for each parameter. -/
def takeParams (lines : List String) : List Param → List String × List String
  | [] => (lines, [])
  | p :: more =>
    let (left, doc) := Doc.takeParam p.name lines
    let (rest, tags) := takeParams left more
    (rest, paramLine p doc :: tags)

/-- The name of the type that a function returns as declared. -/
def declaredReturn (f : FunctionDecl) : String :=
  match f.kind with
  | .sub => "void"
  | .function => TypeRef.nameOf f.returns

/-- The tag of the returned value, with what the comment says about it. -/
def returnsLine (f : FunctionDecl) (doc : Option Doc.TagDoc) : String :=
  let type := (doc.bind (·.type)).getD (declaredReturn f)
  withDescription (" * @returns " ++ braced type) (doc.bind (·.description))

/-- The documentation lines of a function: those of its comment that are left, the tags of its
parameters, and the tag of its value. -/
structure FunctionDoc where
  comment : List String
  params : List String
  returns : String

/-- The documentation lines of a function with the given comment. -/
def FunctionDoc.of (escape : Bool) (comment : Option Comment) (f : FunctionDecl) : FunctionDoc :=
  let (left, params) := takeParams (Doc.linesOf escape comment) f.params
  let (rest, doc) := Doc.takeReturns left
  { comment := rest, params, returns := returnsLine f doc }

/-- The lines of a function's block up to the tags of its parameters. -/
def FunctionDoc.head (d : FunctionDoc) : List String :=
  d.comment ++ " * @function" :: d.params

/-- The names of the parameters, as they stand in a stub. -/
def paramNames (f : FunctionDecl) : String :=
  ", ".intercalate (f.params.map (·.name))

/-- A stub: what stands before the parameters, the parameters and an empty body. -/
def stub (lead : String) (f : FunctionDecl) : Piece :=
  .code (lead ++ "(" ++ paramNames f ++ ") \x7b \x7d;\n")

/-- A function outside classes and interfaces. -/
def functionPieces (escape : Bool) (scope : Scope) (comment : Option Comment)
    (f : FunctionDecl) : List Piece :=
  let doc := FunctionDoc.of escape comment f
  [.block (doc.head ++ scope.membership ++ [doc.returns]), stub ("function " ++ f.name ++ " ") f] ++
    (scope.binding? f.name).toList.map .code

/-- Whether a method is the constructor of its class. -/
def isConstructor (m : Method) : Bool :=
  Text.asciiLowercase m.function.name.toList == "new".toList

/-- The tag of a method's access. Methods whose name starts with an underscore are private, and
public ones have no tag. -/
def accessTag (m : Method) : List String :=
  if m.function.name.toList.head? = some '_' || m.access = some .owner then [" * @access private"]
  else if m.access = some .family then [" * @access protected"]
  else []

/-- The tag of a method that overrides another one. -/
def overrideTag (m : Method) : List String :=
  if m.overrides then [" * @override"] else []

/-- The tags of a constructor, which returns its class. -/
def constructorTags (owner : String) : List String :=
  " * @constructor" :: if owner = "" then [] else [" * @returns " ++ braced owner]

/-- A method of the class with the qualified name `owner`. -/
def methodPieces (escape : Bool) (owner : String) (comment : Option Comment) (m : Method) :
    List Piece :=
  let doc := FunctionDoc.of escape comment m.function
  let head := doc.head ++ accessTag m ++ overrideTag m
  if isConstructor m then
    [.block (head ++ constructorTags owner), stub "constructor" m.function]
  else [.block (head ++ [doc.returns]), stub (m.function.name ++ " ") m.function]

/-- A method of the interface with the given name. -/
def interfaceMethodPieces (escape : Bool) (owner : String) (comment : Option Comment)
    (f : FunctionDecl) : List Piece :=
  let doc := FunctionDoc.of escape comment f
  [.block (doc.head ++ [doc.returns]), stub (owner ++ ".prototype." ++ f.name ++ " = function") f]

end BrightDoc.Carrier
