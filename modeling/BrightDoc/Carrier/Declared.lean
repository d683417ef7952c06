import BrightDoc.Text.Lowercase
import BrightDoc.Text.Search

/-!
The namespaces and modules that have been declared in a run. Namespaces are told apart by their
lowercase paths, and modules by their names with slashes for dots.
-/

namespace BrightDoc

/-- What has been declared, by the keys that namespaces and modules are compared by. -/
structure Declared where
  namespaces : List String := []
  modules : List String := []
deriving DecidableEq

namespace Declared

/-- What namespace paths are compared by. -/
def namespaceKey (path : String) : String :=
  Text.lowercase path

/-- What module names are compared by. -/
def moduleKey (name : String) : String :=
  Text.replaceChar '.' '/' name

/-- Whether a namespace has been declared. -/
def hasNamespace (d : Declared) (path : String) : Bool :=
  d.namespaces.contains (namespaceKey path)

/-- Whether a module has been declared. -/
def hasModule (d : Declared) (name : String) : Bool :=
  d.modules.contains (moduleKey name)

/-- What has been declared once a namespace is, too. -/
def addNamespace (d : Declared) (path : String) : Declared :=
  if d.hasNamespace path then d else { d with namespaces := namespaceKey path :: d.namespaces }

/-- What has been declared once a module is, too. -/
def addModule (d : Declared) (name : String) : Declared :=
  if d.hasModule name then d else { d with modules := moduleKey name :: d.modules }

end Declared

end BrightDoc
