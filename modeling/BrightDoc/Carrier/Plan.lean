import BrightDoc.Carrier.Callable

/-!
The entries of a tree of statements, in source order. Each namespace on the path to a declaration
has its own entry before the declaration; whether it stays is settled later.
-/

namespace BrightDoc.Carrier

/-- The tag of a field: its type, name and description. -/
def propertyLine (type name description : String) : String :=
  String.ofList <| Text.trimEnd
    (" * @property " ++ braced type ++ " " ++ name ++ " " ++ description).toList

/-- The tag that names the parent of a class or interface. -/
def extendsTag (parent : Option String) : List String :=
  parent.toList.map (" * @extends " ++ ·)

/-- The tag of a class field. Private fields have none. -/
def fieldTag (escape : Bool) (comments : List Comment) (f : Field) : List String :=
  if f.access = some .owner then []
  else
    [propertyLine (TypeRef.nameOf f.type) f.name
      (Doc.summary escape (f.placement.comment? comments))]

/-- A class: its block with its fields, its methods inside its stub. -/
def classPieces (escape : Bool) (scope : Scope) (comment : Option Comment) (c : ClassDecl) :
    List Piece :=
  let comments := c.body.filterMap ClassItem.comment?
  let fields := c.body.flatMap fun
    | .field f => fieldTag escape comments f
    | _ => []
  let methods := c.body.flatMap fun
    | .method m =>
      methodPieces escape (scope.pathTo c.name) (m.function.placement.comment? comments) m
    | _ => []
  let parent :=
    match c.parent with
    | some name => " extends " ++ name
    | none => ""
  [.block (Doc.dropBareExtends (Doc.linesOf escape comment) ++ extendsTag c.parent ++
      scope.membership ++ fields),
    .code ("class " ++ c.name ++ parent ++ " \x7b\n")] ++
    methods ++ .code "\x7d\n" :: (scope.binding? c.name).toList.map .code

/-- The tag of an interface field. -/
def interfaceFieldTag (escape : Bool) (comments : List Comment) (f : InterfaceField) : String :=
  let placement : Placement := { range := f.range }
  propertyLine (f.typeToken.getD TypeRef.unknownName) f.name
    (Doc.summary escape (placement.comment? comments))

/-- An interface: its block with its fields, a stub, and its methods. -/
def interfacePieces (escape : Bool) (scope : Scope) (comment : Option Comment)
    (i : InterfaceDecl) : List Piece :=
  let comments := i.body.filterMap InterfaceItem.comment?
  let fields := i.body.flatMap fun
    | .field f => [interfaceFieldTag escape comments f]
    | _ => []
  let methods := i.body.flatMap fun
    | .method f => interfaceMethodPieces escape i.name (f.placement.comment? comments) f
    | _ => []
  [.block (Doc.dropBareExtends (Doc.linesOf escape comment) ++ " * @interface" ::
      extendsTag i.parent ++ scope.membership ++ fields),
    .code ("function " ++ i.name ++ "() \x7b \x7d;\n")] ++
    methods ++ (scope.binding? i.name).toList.map .code

/-- An enum: its block, and its members with their comments inside its stub. -/
def enumPieces (escape : Bool) (scope : Scope) (comment : Option Comment) (e : EnumDecl) :
    List Piece :=
  let target := if scope.inSpace = "" then "var " ++ e.name else scope.pathTo e.name
  let items := e.body.map fun
    | .comment c => Piece.block (Doc.commentLines escape c)
    | .member m => Piece.code (m.name ++ ": " ++ m.value ++ ",")
  [.block (Doc.linesOf escape comment ++ scope.membership ++ [" * @readonly", " * @enum"]),
    .code (target ++ " = \x7b")] ++ items ++ [.code "\x7d;"]

/-- A constant: its block and its value, for which a placeholder stands unless it is a literal. -/
def constPieces (escape : Bool) (scope : Scope) (comment : Option Comment) (c : ConstDecl) :
    List Piece :=
  let value :=
    match c.value with
    | .literal text => text
    | .other _ => "\x7b\x7d"
  [.block (Doc.linesOf escape comment ++ scope.membership ++
      [" * @readonly", " * @constant", " * @default"]),
    .code ("var " ++ c.name ++ " = " ++ value ++ ";")] ++
    (scope.binding? c.name).toList.map .code

/-- The dotted beginnings of a name after those in `chain`, each one part longer. -/
def chainFrom (chain : String) : List String → List String
  | [] => []
  | part :: more =>
    let next := if chain = "" then part else chain ++ "." ++ part
    next :: chainFrom next more

/-- The dotted beginnings of a name, from its first part to the whole name. -/
def chain (name : String) : List String :=
  chainFrom "" ((Text.pieces '.' name.toList).map String.ofList)

/-- The entry that declares the namespace at `path`; `isRoot` tells whether it is a variable of its
own rather than a part of another namespace. -/
def namespaceEntry (escape : Bool) (comment : Option Comment) (isRoot : Bool) (path : String) :
    Entry :=
  let aliasTag := if path.toList.contains '.' then [" * @alias " ++ path] else []
  .namespaceBlock path
    (Doc.linesOf escape comment ++
      " * @global" :: (" * @namespace " ++ Text.replaceChar '.' '/' path) :: aliasTag)
    ((if isRoot then "var " else "") ++ path ++ " = \x7b\x7d;\n")

/-- The entries that declare every namespace on the way to the named one. -/
def namespaceEntries (escape : Bool) (scope : Scope) (comment : Option Comment) (name : String) :
    List Entry :=
  (chain name).zipIdx.map fun (part, index) =>
    namespaceEntry escape comment (scope.inSpace = "" && index == 0) (scope.pathTo part)

/-- The entries, or an empty line if there are none. -/
def orNothing (entries : List Entry) : List Entry :=
  if entries.isEmpty then [.nothing] else entries

mutual

/-- The entries of a statement among its siblings' comments. -/
def planStatement (escape : Bool) (scope : Scope) (comments : List Comment) :
    Statement → List Entry
  | .comment _ => []
  | .function f =>
    [.declaration scope.inSpace
      (functionPieces escape scope (f.placement.comment? comments) f)]
  | .classDecl c =>
    [.declaration scope.inSpace (classPieces escape scope (c.placement.comment? comments) c)]
  | .interfaceDecl i =>
    [.declaration scope.inSpace
      (interfacePieces escape scope (i.placement.comment? comments) i)]
  | .enumDecl e =>
    [.declaration scope.inSpace (enumPieces escape scope (e.placement.comment? comments) e)]
  | .constDecl c =>
    [.declaration scope.inSpace (constPieces escape scope (c.placement.comment? comments) c)]
  | .namespaceDecl head body =>
    let inner : Scope := { scope with inSpace := scope.pathTo head.name }
    namespaceEntries escape scope (head.placement.comment? comments) head.name ++
      orNothing (planEach escape inner (body.filterMap Statement.comment?) body)

/-- The entries of some statements among the given comments. -/
def planEach (escape : Bool) (scope : Scope) (comments : List Comment) :
    List Statement → List Entry
  | [] => []
  | statement :: more =>
    planStatement escape scope comments statement ++ planEach escape scope comments more

end

/-- The entries of a list of statements. A list without declarations gives an empty line. -/
def plan (escape : Bool) (scope : Scope) (statements : List Statement) : List Entry :=
  orNothing (planEach escape scope (statements.filterMap Statement.comment?) statements)

end BrightDoc.Carrier
