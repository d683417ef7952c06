import BrightDoc.Files.Path

/-!
A tree of files and directories as a value, and what the operations on files do to it. A place in the
tree is the list of names on the way to it from the root, which is always a directory.
-/

namespace BrightDoc

/-- The bytes of a file. -/
abbrev Content := List UInt8

namespace Content

/-- The bytes of a text. -/
def ofText (text : String) : Content :=
  text.toUTF8.data.toList

/-- The text that the bytes stand for, if they stand for one. -/
def text? (content : Content) : Option String :=
  String.fromUTF8? ⟨content.toArray⟩

end Content

/-- What stands at a place. -/
inductive Node where
  | directory
  | file (content : Content)
deriving DecidableEq

/-- Why an operation on files fails. -/
inductive FileError where
  | notFound | alreadyExists | notDirectory | isDirectory | notText
deriving DecidableEq

/-- The text of an error. -/
def FileError.message : FileError → String
  | notFound => "No such file or directory (os error 2)"
  | alreadyExists => "File exists (os error 17)"
  | notDirectory => "Not a directory (os error 20)"
  | isDirectory => "Is a directory (os error 21)"
  | notText => "stream did not contain valid UTF-8"

/-- The files and directories below the root, and the place that relative paths start from. -/
structure FileTree where
  home : List String := []
  nodes : List (List String × Node) := []

namespace FileTree

/-- What stands at a place. -/
def node? (t : FileTree) (place : List String) : Option Node :=
  if place.isEmpty then some .directory else t.nodes.lookup place

/-- The tree with a node at a place. -/
def set (t : FileTree) (place : List String) (node : Node) : FileTree :=
  { t with nodes := (place, node) :: t.nodes.filter fun entry => entry.1 != place }

/-- The tree with directories along a way from a place, where nothing stands yet. -/
def addDirectoriesFrom (t : FileTree) (place : List String) : List String → FileTree
  | [] => t
  | name :: more =>
    let next := place ++ [name]
    let made := if (t.node? next).isSome then t else t.set next .directory
    made.addDirectoriesFrom next more

/-- The tree with directories at a place and on the way to it. -/
def addDirectory (t : FileTree) (place : List String) : FileTree :=
  t.addDirectoriesFrom [] place

/-- The tree with a file at a place and directories on the way to it. -/
def addFile (t : FileTree) (place : List String) (content : Content) : FileTree :=
  (t.addDirectory place.dropLast).set place (.file content)

/-- The place that some segments of a path lead to. Every segment is taken in a directory; what
stands at the last place does not matter. -/
def walk (t : FileTree) (place : List String) : List String → Except FileError (List String)
  | [] => .ok place
  | segment :: more =>
    match t.node? place with
    | some .directory =>
      if segment = "" || segment = "." then t.walk place more
      else if segment = ".." then t.walk place.dropLast more
      else t.walk (place ++ [segment]) more
    | some (.file _) => .error .notDirectory
    | none => .error .notFound

/-- The place that a path leads to. The empty path leads nowhere. -/
def locate (t : FileTree) (path : String) : Except FileError (List String) :=
  match Path.segments path with
  | [""] => .error .notFound
  | "" :: more => t.walk [] more
  | segments => t.walk t.home segments

/-- What stands at the end of a path. -/
def find? (t : FileTree) (path : String) : Option Node :=
  match t.locate path with
  | .ok place => t.node? place
  | .error _ => none

/-- Whether a path leads to a file. -/
def isFile (t : FileTree) (path : String) : Bool :=
  match t.find? path with
  | some (.file _) => true
  | _ => false

/-- Whether a path leads to a directory. -/
def isDirectory (t : FileTree) (path : String) : Bool :=
  t.find? path == some .directory

/-- Whether a path leads to a file or directory. -/
def hasPath (t : FileTree) (path : String) : Bool :=
  (t.find? path).isSome

/-- The ways from a place to all that stands below it. -/
def below (t : FileTree) (place : List String) : List (List String) :=
  (t.nodes.filterMap fun entry => place.isPrefixOf? entry.1).filter fun way => !way.isEmpty

/-- The names of what stands in a directory. -/
def names (t : FileTree) (place : List String) : List String :=
  (t.below place).filterMap fun
    | [name] => some name
    | _ => none

/-- The bytes of the file at the end of a path. -/
def read (t : FileTree) (path : String) : Except FileError Content :=
  match t.locate path with
  | .error error => .error error
  | .ok place =>
    match t.node? place with
    | some (.file content) => .ok content
    | some .directory => .error .isDirectory
    | none => .error .notFound

/-- The bytes of a file as text. -/
def decode (content : Content) : Except FileError String :=
  match content.text? with
  | some text => .ok text
  | none => .error .notText

/-- The text of the file at the end of a path. -/
def readText (t : FileTree) (path : String) : Except FileError String :=
  (t.read path).bind decode

/-- The tree with a text written to the file at the end of a path. -/
def writeText (t : FileTree) (path : String) (text : String) : Except FileError FileTree :=
  match t.locate path with
  | .error error => .error error
  | .ok place =>
    match t.node? place with
    | some .directory => .error .isDirectory
    | _ => .ok (t.set place (.file (.ofText text)))

/-- The segments of a path without the empty ones at its end. -/
def withoutFinalSlashes (segments : List String) : List String :=
  (segments.reverse.dropWhile (· == "")).reverse

/-- The tree with a new directory at the end of a path. A path that ends in a dot names no new
place. -/
def makeDirectory (t : FileTree) (path : String) : Except FileError FileTree :=
  let segments := withoutFinalSlashes (Path.segments path)
  let start := if path.toList.head? = some '/' then [] else t.home
  match segments.getLast? with
  | none => if path = "" then .error .notFound else .error .alreadyExists
  | some name =>
    match t.walk start segments.dropLast with
    | .error error => .error error
    | .ok place =>
      match t.node? place with
      | none => .error .notFound
      | some (.file _) => .error .notDirectory
      | some .directory =>
        if name = "." || name = ".." || (t.node? (place ++ [name])).isSome then .error .alreadyExists
        else .ok (t.set (place ++ [name]) .directory)

/-- A tree in which a path leads to a directory: the given one, if it does so there, and the error
otherwise. -/
def orDirectory (t : FileTree) (path : String) (error : FileError) : Except FileError FileTree :=
  if t.isDirectory path then .ok t else .error error

/-- The tree with a directory at the end of a path, whose steps are given last first. Where the
way to it is missing, it is made first. -/
def makeDirectoriesFrom (t : FileTree) (path : String) : List Component → Except FileError FileTree
  | [] => .ok t
  | _ :: outer =>
    match t.makeDirectory path with
    | .ok made => .ok made
    | .error .notFound =>
      match (if outer.isEmpty then .ok t
        else t.makeDirectoriesFrom (Path.ofComponents outer.reverse) outer) with
      | .error error => .error error
      | .ok prepared =>
        match prepared.makeDirectory path with
        | .ok made => .ok made
        | .error error => prepared.orDirectory path error
    | .error error => t.orDirectory path error

/-- The tree with a directory at the end of a path and on the way to it. -/
def makeDirectories (t : FileTree) (path : String) : Except FileError FileTree :=
  t.makeDirectoriesFrom path (Path.components path).reverse

/-- The files of a tree that are new or changed since an earlier one, with their contents. -/
def changesSince (t before : FileTree) : List (List String × Content) :=
  t.nodes.filterMap fun
    | (place, .file content) =>
      if before.node? place = some (.file content) then none else some (place, content)
    | (_, .directory) => none

end FileTree

end BrightDoc
