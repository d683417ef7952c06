import BrightDoc.Text.Search

/-!
Paths as they are written, and their components: repeated and final slashes and dots inside a path
mean nothing, and a dot at its start is kept.
-/

namespace BrightDoc

/-- A step of a path. -/
inductive Component where
  | root | here | up
  | named (name : String)
deriving DecidableEq

namespace Path

/-- The texts between the slashes of a path. -/
def segments (path : String) : List String :=
  (Text.pieces '/' path.toList).map String.ofList

/-- The step that a segment after the first one makes, if it makes one. -/
def innerStep? : String → Option Component
  | "" => none
  | "." => none
  | ".." => some .up
  | name => some (.named name)

/-- The steps of a path. -/
def components (path : String) : List Component :=
  match segments path with
  | [] => []
  | [""] => []
  | "" :: more => .root :: more.filterMap innerStep?
  | "." :: more => .here :: more.filterMap innerStep?
  | all => all.filterMap innerStep?

/-- The name that the last step goes to, if it goes to one. -/
def lastName? (steps : List Component) : Option String :=
  match steps.getLast? with
  | some (.named name) => some name
  | _ => none

/-- The name of the file at a path. -/
def fileName? (path : String) : Option String :=
  lastName? (components path)

/-- The name of the directory that holds the file at a path. -/
def parentName? (path : String) : Option String :=
  lastName? (components path).dropLast

/-- A file name cut at its last dot. A dot at its start does not count. -/
def splitName (name : String) : String × Option String :=
  match Text.cutAtLast? '.' name.toList with
  | some ([], _) => (name, none)
  | some (stem, extension) => (String.ofList stem, some (String.ofList extension))
  | none => (name, none)

/-- The file name of a path without its extension. -/
def stem? (path : String) : Option String :=
  (fileName? path).map fun name => (splitName name).1

/-- The extension of the file name of a path. -/
def extension? (path : String) : Option String :=
  (fileName? path).bind fun name => (splitName name).2

/-- Whether the file at a path has the given extension, in any case of its ASCII letters. -/
def hasExtension (extension : String) (path : String) : Bool :=
  match extension? path with
  | some found => found.toList.map Char.toLower == extension.toList
  | none => false

/-- A path with the given steps. -/
def ofComponents (steps : List Component) : String :=
  "/".intercalate <| steps.map fun
    | .root => ""
    | .here => "."
    | .up => ".."
    | .named name => name

/-- The path of an entry of a directory. -/
def join (directory name : String) : String :=
  match directory.toList.getLast? with
  | none => name
  | some '/' => directory ++ name
  | some _ => directory ++ "/" ++ name

end Path

/-- The place of a step's kind in the order of steps. -/
def Component.rank : Component → Nat
  | root => 0
  | here => 1
  | up => 2
  | named _ => 3

/-- The name that a step goes to; it is empty for the other steps. -/
def Component.name : Component → String
  | named name => name
  | _ => ""

/-- The order of steps: by kind, and names by their characters. -/
def Component.order (a b : Component) : Ordering :=
  (compare a.rank b.rank).then (compare a.name b.name)

namespace Path

/-- The order of lists of steps: by the first steps that differ. -/
def orderSteps : List Component → List Component → Ordering
  | [], [] => .eq
  | [], _ :: _ => .lt
  | _ :: _, [] => .gt
  | a :: as, b :: bs => (a.order b).then (orderSteps as bs)

/-- Whether a path does not come after another one. -/
def le (first second : String) : Bool :=
  (orderSteps (components first) (components second)).isLE

/-- Whether two paths have the same steps. -/
def same (first second : String) : Bool :=
  components first == components second

/-- The paths without those that have the same steps as the one before them. -/
def dropRepeats : List String → List String
  | first :: second :: more =>
    match dropRepeats (second :: more) with
    | [] => [first]
    | next :: rest => if same first next then first :: rest else first :: next :: rest
  | paths => paths

/-- The paths in order, each once. Of several with the same steps the first stays. -/
def sorted (paths : List String) : List String :=
  dropRepeats (paths.mergeSort le)

end Path

end BrightDoc
