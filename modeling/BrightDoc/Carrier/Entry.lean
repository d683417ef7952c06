import BrightDoc.Doc.Comment
import BrightDoc.Carrier.Declared

/-!
The text that carries the documentation: blocks of documentation lines, each followed by code that
stands in for what is documented. Modules and namespaces are declared at most once in a run; which
of their entries stay is settled against what has been declared before.
-/

namespace BrightDoc.Carrier

/-- A part of the carrier text. -/
inductive Piece where
  /-- A documentation block, by the lines between its first and last one. -/
  | block (body : List String)
  /-- Code. -/
  | code (text : String)
deriving DecidableEq

namespace Piece

/-- The lines of a part. -/
def lines : Piece → List String
  | block body => Doc.opener :: body ++ [Doc.closer]
  | code text => [text]

end Piece

/-- The text of some parts, one after the other. -/
def renderPieces (pieces : List Piece) : String :=
  "\n".intercalate (pieces.flatMap Piece.lines)

/-- What stands in the carrier for a module, a namespace or another declaration. -/
inductive Entry where
  /-- The block of a module. -/
  | moduleBlock (name : String)
  /-- The block and code that declare the namespace with this path. -/
  | namespaceBlock (path : String) (body : List String) (stub : String)
  /-- The parts of a declaration in the namespace with the given path, which is empty outside
  namespaces. -/
  | declaration (space : String) (pieces : List Piece)
  /-- An empty line. -/
  | nothing
deriving DecidableEq

namespace Entry

/-- The parts of an entry. -/
def pieces : Entry → List Piece
  | moduleBlock name => [.block [" * @module " ++ Declared.moduleKey name]]
  | namespaceBlock _ body stub => [.block body, .code stub]
  | declaration _ pieces => pieces
  | nothing => [.code ""]

end Entry

/-- The entries that stay, and what has been declared after them. A namespace that has been declared is left
out, and a module that has been declared leaves an empty line. -/
def settle (declared : Declared) : List Entry → List Entry × Declared
  | [] => ([], declared)
  | .moduleBlock name :: more =>
    let (kept, after) := settle (declared.addModule name) more
    ((if declared.hasModule name then .nothing else .moduleBlock name) :: kept, after)
  | .namespaceBlock path body stub :: more =>
    let (kept, after) := settle (declared.addNamespace path) more
    (if declared.hasNamespace path then kept else .namespaceBlock path body stub :: kept, after)
  | entry :: more =>
    let (kept, after) := settle declared more
    (entry :: kept, after)

/-- The text of some entries. -/
def render (entries : List Entry) : String :=
  renderPieces (entries.flatMap Entry.pieces)

end BrightDoc.Carrier
