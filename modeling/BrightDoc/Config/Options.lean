import BrightDoc.Config.Json

/-!
The options of a conversion, and how they are read from the environment of the documentation
generator. Both are on unless they are switched off.
-/

namespace BrightDoc

/-- What a conversion does beyond the necessary. -/
structure Options where
  /-- Declare the module of a file and make its declarations members of it. -/
  addModule : Bool := true
  /-- Write the markup characters of comments as entities. -/
  escapeMarkup : Bool := true
deriving DecidableEq

namespace Options

/-- The options given by two values, where anything but a truth value counts as absent. -/
def ofValues (addModule escapeMarkup : Option Json) : Options :=
  { addModule := (addModule.bind Json.bool?).getD true
    escapeMarkup := (escapeMarkup.bind Json.bool?).getD true }

/-- The options of a section: an object with their names, or an array of at most both in order. -/
def ofSection (section_ : Json) : Options :=
  match section_ with
  | .object _ => ofValues (section_.member? "addModule") (section_.member? "escapeHTMLCharacters")
  | .array [] => {}
  | .array [first] => ofValues (some first) none
  | .array [first, second] => ofValues (some first) (some second)
  | _ => {}

/-- The name of the section of these options. -/
def sectionName : String := "brighterscript-jsdocs-plugin"

/-- The options of an environment, which holds the section among its `opts`. -/
def ofEnvironment (environment : Json) : Options :=
  match (environment.member? "opts").bind (·.member? sectionName) with
  | some found => ofSection found
  | none => {}

end Options

end BrightDoc
