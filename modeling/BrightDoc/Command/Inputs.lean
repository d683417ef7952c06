import BrightDoc.Command.Libraries

/-!
The input files that the arguments name, and the names of the files that are written for them.
-/

namespace BrightDoc.Command

/-- The extensions of source files. -/
def sourceExtensions : List String := ["bs", "brs"]

/-- Whether a path has the extension of a source file. -/
def isSource (path : String) : Bool :=
  sourceExtensions.any fun extension => Path.hasExtension extension path

/-- What an argument names: a file, the source files of a directory, or the files that match a
pattern. An argument that is no pattern names nothing at all. -/
inductive Named where
  | files (paths : List String)
  | matching (paths : List String)
  | invalidPattern

/-- What an argument names in a tree of files. -/
def named (libraries : Libraries) (t : FileTree) (argument : String) : Named :=
  match t.locate argument with
  | .ok place =>
    match t.node? place with
    | some (.file _) => .files [argument]
    | some .directory =>
      let paths := (t.names place).map (Path.join argument)
      .files (paths.filter fun path => t.isFile path && isSource path)
    | none => byPattern
  | .error _ => byPattern
where
  byPattern : Named :=
    match libraries.matchingPaths t argument with
    | some paths => .matching (paths.filter t.isFile)
    | none => .invalidPattern

/-- The name of the file that is written for an input. -/
def plainName (path : String) : String :=
  (Path.stem? path).getD path

/-- The name for an input whose plain name is taken: that of its directory goes before it. -/
def qualifiedName (path : String) : String :=
  match Path.parentName? path with
  | some directory => directory ++ "_" ++ plainName path
  | none => plainName path

/-- The names that are tried one after the other: the base, and then the base with a number. -/
def candidate (base : String) : Nat → String
  | 0 => base
  | n + 1 => base ++ "_" ++ toString (n + 2)

/-- The first candidate that is not taken. Among one more candidate than names are taken, there is
one. -/
def freeName (taken : List String) (base : String) : String :=
  (((List.range (taken.length + 1)).map (candidate base)).find? fun name =>
    !taken.contains name).getD base

/-- The name of the file that is written for an input, where some names are taken. -/
def outputName (taken : List String) (path : String) : String :=
  if taken.contains (plainName path) then freeName taken (qualifiedName path) else plainName path

end BrightDoc.Command
