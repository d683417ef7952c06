import BrightDoc.Converter

/-!
Sessions: any number of requests to one converter, one after the other.
-/

namespace BrightDoc.Session

/-- A request to a converter. -/
inductive Request where
  | convert (dialect : Dialect) (moduleName source : String)
  | convertFile (file : SourceFile)
  | emit (moduleName : String) (statements : List Statement)
  | reset
  | options

/-- The answer to a request. -/
inductive Answer where
  /-- A converted text, or why there is none. -/
  | converted (outcome : Outcome String)
  /-- A converted file, with the text it had before. -/
  | convertedFile (before : String) (outcome : Outcome String)
  | done
  | options (options : Options)

/-- The answer to a request, and the converter after it. -/
def answer (c : Converter) : Request → Answer × Converter
  | .convert dialect moduleName source =>
    let conversion := c.convert dialect moduleName source
    (.converted conversion.outcome, conversion.converter)
  | .convertFile file =>
    let conversion := c.convertFile file
    (.convertedFile file.text conversion.outcome, conversion.converter)
  | .emit moduleName statements =>
    let (text, after) := c.emit moduleName statements
    (.converted (.ok text), after)
  | .reset => (.done, c.forgetAll)
  | .options => (.options c.options, c)

/-- The answers to the requests of a session. -/
def run (c : Converter) : List Request → List Answer
  | [] => []
  | request :: more =>
    let (first, after) := answer c request
    first :: run after more

end BrightDoc.Session
