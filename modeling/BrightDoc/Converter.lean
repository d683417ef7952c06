import BrightDoc.Carrier.Plan
import BrightDoc.Reader.Parse
import BrightDoc.SourceFile

/-!
Converting source texts. A converter remembers the namespaces and modules it has declared, so that
several files converted by one converter declare each of them once.
-/

namespace BrightDoc

/-- The options of a run and what it has declared so far. -/
structure Converter where
  options : Options := {}
  declared : Declared := {}

namespace Converter

/-- The converter with nothing declared. -/
def forgetAll (c : Converter) : Converter :=
  { c with declared := {} }

/-- The entries of a tree in a file of the given module, before it is settled which of them stay.
The module is empty where there is none. -/
def entries (options : Options) (moduleName : String) (statements : List Statement) :
    List Carrier.Entry :=
  (if options.addModule && moduleName ≠ "" then [.moduleBlock moduleName] else []) ++
    Carrier.plan options.escapeMarkup { inModule := moduleName } statements

/-- The carrier text of a tree, and the converter after it. -/
def emit (c : Converter) (moduleName : String) (statements : List Statement) :
    String × Converter :=
  let (kept, declared) := Carrier.settle c.declared (entries c.options moduleName statements)
  (Carrier.render kept, { c with declared })

/-- What a conversion gives: the carrier text or the error that prevents it, and the converter
after it. -/
structure Conversion where
  outcome : Outcome String
  converter : Converter

/-- Converts a source text. An error leaves the converter as it is. -/
def convert (c : Converter) (dialect : Dialect) (moduleName : String) (source : String) :
    Conversion :=
  let read := parse dialect source
  match read.result with
  | .ok statements =>
    let (text, after) := c.emit moduleName statements
    { outcome := { warnings := read.warnings, result := .ok text }, converter := after }
  | .error error =>
    { outcome := { warnings := read.warnings, result := .error error }, converter := c }

/-- Converts a source file, by its dialect and module. -/
def convertFile (c : Converter) (f : SourceFile) : Conversion :=
  c.convert f.dialect (f.ownModule c.options) f.text

end Converter

end BrightDoc
