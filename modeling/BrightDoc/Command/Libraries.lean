import BrightDoc.Command.Arguments
import BrightDoc.Config.Json
import BrightDoc.Files.Glob

/-!
The libraries that the command rests on. Each of them has a form here that a run uses unless it is given
another. What is shown of runs is shown for any libraries, under a law where one is needed.
-/

namespace BrightDoc.Command

/-- The libraries of a run. -/
structure Libraries where
  /-- What some arguments ask for, where the surroundings may name a configuration file. -/
  readArguments : Option String → List String → Except Interruption Arguments := Arguments.read
  /-- The paths in a tree that the pattern with a text matches, if there is such a pattern. -/
  matchingPaths : FileTree → String → Option (List String) := Glob.paths?
  /-- The value that is written as a text. -/
  parseJson : String → Option Json := Json.parse?

end BrightDoc.Command
