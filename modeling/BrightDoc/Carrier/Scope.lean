import BrightDoc.Text.Search

/-!
The containers around a declaration: the module of its file and the namespace it stands in.
-/

namespace BrightDoc.Carrier

/-- The module and the dotted path of the namespace around a declaration; each is empty where there
is none. -/
structure Scope where
  inModule : String := ""
  inSpace : String := ""

namespace Scope

/-- The tag that says what a declaration is a member of. A namespace goes before the module. -/
def membership (s : Scope) : List String :=
  if s.inSpace ≠ "" then [" * @memberof! " ++ Text.replaceChar '.' '/' s.inSpace]
  else if s.inModule ≠ "" then [" * @memberof! module:" ++ Text.replaceChar '.' '/' s.inModule]
  else []

/-- The dotted path of a name in the namespace. -/
def pathTo (s : Scope) (name : String) : String :=
  if s.inSpace = "" then name else s.inSpace ++ "." ++ name

/-- The code that makes a declaration known in its namespace. -/
def binding? (s : Scope) (name : String) : Option String :=
  if s.inSpace = "" then none else some (s.pathTo name ++ " = " ++ name ++ ";")

end Scope

end BrightDoc.Carrier
