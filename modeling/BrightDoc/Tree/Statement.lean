import BrightDoc.Tree.Position
import BrightDoc.Tree.Expression

/-!
The tree of a source text: its comments and declarations, in source order. Function bodies and all
other code are not part of it.
-/

namespace BrightDoc

/-- One or more comment lines in a row, each without white space around it, joined by line feeds;
or the comment that ends a code line. -/
structure Comment where
  text : String
  range : Range := {}
deriving DecidableEq, Inhabited

/-- A line `@name` above the declaration it belongs to. -/
structure Annotation where
  name : String
  range : Range := {}
deriving DecidableEq

/-- Where a declaration stands, and the annotations above it. -/
structure Placement where
  range : Range := {}
  annotations : List Annotation := []
deriving DecidableEq

/-- Who may use a class member. -/
inductive Access where
  | everyone | family | owner
deriving DecidableEq

/-- A `function` returns a value, a `sub` does not. -/
inductive FunctionKind where
  | function | sub
deriving DecidableEq

/-- A parameter of a function. -/
structure Param where
  name : String
  type : Option TypeRef := none
  default : Option Expression := none
deriving DecidableEq

/-- A function, known by its header. -/
structure FunctionDecl where
  name : String
  kind : FunctionKind := .function
  params : List Param := []
  returns : Option TypeRef := none
  placement : Placement := {}
deriving DecidableEq

/-- A function of a class. -/
structure Method where
  function : FunctionDecl
  access : Option Access := none
  overrides : Bool := false
deriving DecidableEq

/-- A field of a class. -/
structure Field where
  name : String
  type : Option TypeRef := none
  access : Option Access := none
  placement : Placement := {}
deriving DecidableEq

/-- What stands between the first and the last line of a class. -/
inductive ClassItem where
  | comment (comment : Comment)
  | field (field : Field)
  | method (method : Method)
deriving DecidableEq

/-- A class. -/
structure ClassDecl where
  name : String
  parent : Option String := none
  body : List ClassItem := []
  placement : Placement := {}
deriving DecidableEq

/-- A field of an interface. Its type token is kept as it is written. -/
structure InterfaceField where
  name : String
  typeToken : Option String := none
  range : Range := {}
deriving DecidableEq

/-- What stands between the first and the last line of an interface. -/
inductive InterfaceItem where
  | comment (comment : Comment)
  | field (field : InterfaceField)
  | method (function : FunctionDecl)
deriving DecidableEq

/-- An interface. -/
structure InterfaceDecl where
  name : String
  parent : Option String := none
  body : List InterfaceItem := []
  placement : Placement := {}
deriving DecidableEq

/-- A member of an enum with its written or counted value. -/
structure EnumMember where
  name : String
  value : String
  range : Range := {}
deriving DecidableEq

/-- What stands between the first and the last line of an enum. -/
inductive EnumItem where
  | comment (comment : Comment)
  | member (member : EnumMember)
deriving DecidableEq

/-- An enum. -/
structure EnumDecl where
  name : String
  body : List EnumItem := []
  placement : Placement := {}
deriving DecidableEq

/-- A constant. -/
structure ConstDecl where
  name : String
  value : Expression := .other ""
  placement : Placement := {}
deriving DecidableEq

/-- The name of a namespace, dotted as it is written, and its place. -/
structure NamespaceHead where
  name : String
  placement : Placement := {}
deriving DecidableEq

/-- A comment or declaration outside classes, interfaces and enums. -/
inductive Statement where
  | comment (comment : Comment)
  | function (function : FunctionDecl)
  | classDecl (decl : ClassDecl)
  | interfaceDecl (decl : InterfaceDecl)
  | enumDecl (decl : EnumDecl)
  | constDecl (decl : ConstDecl)
  | namespaceDecl (head : NamespaceHead) (body : List Statement)
deriving Inhabited

namespace Statement

/-- The comment, if the statement is one. -/
def comment? : Statement → Option Comment
  | comment c => some c
  | _ => none

/-- The place of a declaration; a comment has none. -/
def placement? : Statement → Option Placement
  | comment _ => none
  | function f => some f.placement
  | classDecl c => some c.placement
  | interfaceDecl i => some i.placement
  | enumDecl e => some e.placement
  | constDecl c => some c.placement
  | namespaceDecl head _ => some head.placement

end Statement

/-- The comment, if the item is one. -/
def ClassItem.comment? : ClassItem → Option Comment
  | comment c => some c
  | _ => none

/-- The comment, if the item is one. -/
def InterfaceItem.comment? : InterfaceItem → Option Comment
  | comment c => some c
  | _ => none

namespace Placement

/-- The line above which a declaration's comment stands: that of its first annotation, or its own
first line. -/
def topLine (p : Placement) : Nat :=
  match p.annotations with
  | a :: _ => a.range.start.line
  | [] => p.range.start.line

/-- Whether a comment documents the declaration: it ends on the line just above it, or on its first
line. -/
def isDocumentedBy (p : Placement) (c : Comment) : Bool :=
  c.range.stop.line + 1 == p.topLine || c.range.stop.line == p.range.start.line

/-- The comment that documents the declaration: the first one that does. -/
def comment? (p : Placement) (comments : List Comment) : Option Comment :=
  comments.find? p.isDocumentedBy

end Placement

end BrightDoc
