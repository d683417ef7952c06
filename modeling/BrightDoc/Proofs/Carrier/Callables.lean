import BrightDoc.Carrier.Callable
import BrightDoc.Proofs.Doc.Parameters

/-! # The blocks of functions and methods

The lines of a comment are passed from one parameter to the next, and what is left of them to the
returned value. What comes of it is told by the whole comment at once: the lines that stay are those
that document no parameter and no returned value, and each tag is written from the line that counts for
it. -/

namespace BrightDoc

/-- What the name of a parameter is compared by. -/
def Param.key (p : Param) : String :=
  Doc.nameKey p.name.toList

/-- A parameter as it stands in its tag: its name, with its default value if it has one. -/
def Param.shown (p : Param) : String :=
  match p.default with
  | some value => "[" ++ p.name ++ "=" ++ value.text ++ "]"
  | none => p.name

namespace Carrier

/-- The lines that stay and the tags of the parameters, when some parameters have taken their lines. -/
theorem takeParams_filter (lines : List String) (earlier more : List Param) :
    takeParams (lines.filter (Doc.documentsNone (earlier.map Param.key))) more =
      (lines.filter (Doc.documentsNone ((earlier ++ more).map Param.key)),
        more.mapIdx fun i p =>
          paramLine p (Doc.docAfter ((earlier ++ more.take i).map Param.key) lines p.key)) := by
  induction more generalizing earlier with
  | nil => simp [takeParams]
  | cons p more ih =>
    have taken := Doc.takeParam_filter (earlier.map Param.key) lines p.name
    have next := ih (earlier ++ [p])
    rw [List.map_append, List.map_singleton] at next
    rw [takeParams, taken]
    dsimp only
    rw [← Param.key, next, List.append_assoc, List.singleton_append, List.mapIdx_cons, List.take_zero,
      List.append_nil]
    simp only [List.take_succ_cons, List.append_assoc, List.singleton_append]

/-- The documentation lines of a function, told by the whole comment. -/
theorem FunctionDoc.of_eq (escape : Bool) (comment : Option Comment) (f : FunctionDecl) :
    let lines := Doc.linesOf escape comment
    let untaken := lines.filter (Doc.documentsNone (f.params.map Param.key))
    FunctionDoc.of escape comment f =
      { comment := untaken.filter fun line => (Doc.returnsDoc? line).isNone
        params := f.params.mapIdx fun i p =>
          paramLine p (Doc.docAfter ((f.params.take i).map Param.key) lines p.key)
        returns := returnsLine f (untaken.findSome? Doc.returnsDoc?) } := by
  intro lines untaken
  have all : lines.filter (Doc.documentsNone (([] : List Param).map Param.key)) = lines :=
    List.filter_eq_self.mpr fun _ _ => Doc.documentsNone_nil
  have taken := takeParams_filter lines [] f.params
  rw [all] at taken
  rw [FunctionDoc.of, taken]
  rfl

/-- A function, a method of a class, or a method of an interface, the latter two with the name of what
they belong to. -/
inductive Callable where
  | function (f : FunctionDecl)
  | method (m : Method) (owner : String)
  | interfaceMethod (f : FunctionDecl) (owner : String)

namespace Callable

/-- The function that is called. -/
def decl : Callable → FunctionDecl
  | function f => f
  | method m _ => m.function
  | interfaceMethod f _ => f

/-- The parts of the carrier text for it. -/
def pieces (escape : Bool) (scope : Scope) (comment : Option Comment) : Callable → List Piece
  | function f => functionPieces escape scope comment f
  | method m owner => methodPieces escape owner comment m
  | interfaceMethod f owner => interfaceMethodPieces escape owner comment f

/-- The tags that only methods of classes have. -/
def methodTags : Callable → List String
  | method m _ => accessTag m ++ overrideTag m
  | function _ | interfaceMethod _ _ => []

/-- The tag that only functions outside classes and interfaces have. -/
def membership (scope : Scope) : Callable → List String
  | function _ => scope.membership
  | method _ _ | interfaceMethod _ _ => []

/-- The tags of the value, given the tag of the returned value as the comment has it. A constructor
returns its class, which is not told where the class has no name. -/
def valueTags (returned : String) : Callable → List String
  | method m owner =>
    if isConstructor m then
      " * @constructor" :: if owner = "" then [] else [" * @returns " ++ braced owner]
    else [returned]
  | function _ | interfaceMethod _ _ => [returned]

/-- What stands before the parameters in the stub. -/
def lead : Callable → String
  | function f => "function " ++ f.name ++ " "
  | method m _ => if isConstructor m then "constructor" else m.function.name ++ " "
  | interfaceMethod f owner => owner ++ ".prototype." ++ f.name ++ " = function"

/-- The code after the stub. -/
def binding (scope : Scope) : Callable → List String
  | function f => (scope.binding? f.name).toList
  | method _ _ | interfaceMethod _ _ => []

/-- The lines written for it, by its documentation lines. -/
theorem pieces_lines (escape : Bool) (scope : Scope) (comment : Option Comment) (c : Callable) :
    let doc := FunctionDoc.of escape comment c.decl
    (c.pieces escape scope comment).flatMap Piece.lines =
      Doc.opener :: doc.comment ++ [" * @function"] ++ doc.params ++ c.methodTags ++
      c.membership scope ++ c.valueTags doc.returns ++
      [Doc.closer, c.lead ++ "(" ++ paramNames c.decl ++ ") \x7b \x7d;\n"] ++ c.binding scope := by
  have coded : ∀ texts : List String, (texts.map Piece.code).flatMap Piece.lines = texts := by
    intro texts
    rw [List.flatMap_map]
    exact List.flatMap_singleton' texts
  cases c with
  | function f =>
    simp [pieces, functionPieces, decl, FunctionDoc.head, Piece.lines, stub, methodTags, membership,
      valueTags, lead, binding, coded]
  | method m owner =>
    by_cases constructs : isConstructor m = true
    · simp [pieces, methodPieces, decl, FunctionDoc.head, Piece.lines, stub, methodTags, membership,
        valueTags, constructorTags, lead, binding, constructs]
    · simp [pieces, methodPieces, decl, FunctionDoc.head, Piece.lines, stub, methodTags, membership,
        valueTags, lead, binding, constructs]
  | interfaceMethod f owner =>
    simp [pieces, interfaceMethodPieces, decl, FunctionDoc.head, Piece.lines, stub, methodTags,
      membership, valueTags, lead, binding]

/-- The shape of a function's block: what is left of the comment, a tag for each parameter, the tags of
the declaration, and the tags of its value. A parameter is documented by the last line with its key,
unless an earlier parameter has taken that line; a returned value by the first line that no parameter
has taken. The stub has the same parameters in the same order. -/
theorem callable_block_shape (escape : Bool) (scope : Scope) (comment : Option Comment)
    (c : Callable) :
    let lines := Doc.openBlock escape comment
    let params := c.decl.params
    let untaken := lines.filter (Doc.documentsNone (params.map Param.key))
    let value := untaken.findSome? Doc.returnsDoc?
    (c.pieces escape scope comment).flatMap Piece.lines =
      (untaken.filter fun line => (Doc.returnsDoc? line).isNone) ++
      [" * @function"] ++
      (params.mapIdx fun i p =>
        let doc := if p.key ∈ (params.take i).map Param.key then {} else Doc.lastDoc lines p.key
        withDescription
          (" * @param " ++ braced (doc.type.getD (TypeRef.nameOf p.type)) ++ " " ++ p.shown)
          doc.description) ++
      c.methodTags ++
      c.membership scope ++
      c.valueTags (withDescription
        (" * @returns " ++ braced ((value.bind (·.type)).getD (declaredReturn c.decl)))
        (value.bind (·.description))) ++
      [Doc.closer, c.lead ++ "(" ++ ", ".intercalate (params.map (·.name)) ++ ") \x7b \x7d;\n"] ++
      c.binding scope := by
  intro lines params untaken value
  rw [pieces_lines, FunctionDoc.of_eq]
  -- The first line of the block has no tag of any sort, so it stays and says nothing.
  rfl

/-- The constructor of a class without a name. -/
def namelessConstructor : Callable :=
  method { function := { name := "new" } } ""

/-- It is a constructor, and its block does not say what it returns. -/
theorem nameless_constructor_returns_nothing :
    (namelessConstructor.pieces true {} none).flatMap Piece.lines =
        ["/**", " * @function", " * @constructor", " */", "constructor() \x7b \x7d;\n"] ∧
      " * @returns " ++ braced "" ∉ (namelessConstructor.pieces true {} none).flatMap Piece.lines := by
  decide +kernel

end Callable

end Carrier

end BrightDoc
