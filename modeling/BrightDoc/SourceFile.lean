import BrightDoc.Config.Options
import BrightDoc.Doc.Tag
import BrightDoc.Files.Path
import BrightDoc.Reader.Outcome

/-!
What the name and text of a source file tell about it: its dialect and its module.
-/

namespace BrightDoc

/-- A source file. -/
structure SourceFile where
  name : String
  text : String

namespace SourceFile

/-- The dialect of a file, by its extension. -/
def dialect (f : SourceFile) : Dialect :=
  if Path.hasExtension "bs" f.name then .brighterScript else .brightScript

/-- The module of a file: the one its text names, else its name without extension and with
underscores for dots. Without modules it is empty. -/
def ownModule (options : Options) (f : SourceFile) : String :=
  if options.addModule then
    match Doc.namedModule? f.text with
    | some name => name
    | none => ((Path.stem? f.name).map (Text.replaceChar '.' '_')).getD ""
  else ""

end SourceFile

end BrightDoc
