import BrightDoc.Command.Run

/-!
The command as a program. The files that the arguments speak of are loaded into a tree, the run is
computed on that tree, and what it changed is written back.
-/

namespace BrightDoc.Program

/-- The path of a place from the root. -/
def pathOf (place : List String) : String :=
  "/" ++ "/".intercalate place

/-- What stands at a place. -/
def inspect (place : List String) : IO (Option Node) := do
  let path := (← IO.currentDir) / pathOf place
  if ← path.isDir then return some .directory
  else if ← path.pathExists then return some (.file (← IO.FS.readBinFile path).data.toList)
  else return none

/-- The tree with all that stands in a directory, and below its directories if asked for. -/
partial def loadBelow (deep : Bool) (t : FileTree) (place : List String) : IO FileTree := do
  let directory := (← IO.currentDir) / pathOf place
  let mut tree := t
  for entry in ← directory.readDir do
    let next := place ++ [entry.fileName]
    match ← inspect next with
    | some .directory =>
      tree := tree.addDirectory next
      if deep then tree ← loadBelow deep tree next
    | some (.file content) => tree := tree.addFile next content
    | none => pure ()
  return tree

/-- Whether a segment of an argument may stand for more than one name. -/
def hasWildcard (segment : String) : Bool :=
  segment.toList.any fun c => c == '*' || c == '?' || c == '['

/-- The tree with what stands on the way along some segments from a directory, and with what an
argument that goes this way can name. -/
def loadAlong (t : FileTree) (place : List String) : List String → IO FileTree
  | [] => loadBelow false t place
  | segment :: more => do
    if hasWildcard segment then loadBelow true t place
    else if segment = "" || segment = "." then loadAlong t place more
    else if segment = ".." then loadAlong t place.dropLast more
    else
      let next := place ++ [segment]
      match ← inspect next with
      | some .directory => loadAlong (t.addDirectory next) next more
      | some (.file content) => return t.addFile next content
      | none => return t

/-- The tree with what a path or pattern speaks of. -/
def loadPath (t : FileTree) (path : String) : IO FileTree :=
  let start := if path.toList.head? = some '/' then [] else t.home
  loadAlong t start (Path.segments path)

/-- Everything that a stream still holds. -/
partial def readAll (stream : IO.FS.Stream) (held : ByteArray) : IO ByteArray := do
  let more ← stream.read 65536
  if more.isEmpty then return held else readAll stream (held ++ more)

/-- Writes the directories and files that a tree has beyond an earlier one. -/
def store (before after : FileTree) : IO Unit := do
  for (place, node) in after.nodes.reverse do
    if node = .directory && before.node? place ≠ some .directory then
      IO.FS.createDirAll (pathOf place)
  for (place, content) in after.changesSince before do
    IO.FS.writeBinFile (pathOf place) ⟨content.toArray⟩

/-- Runs the command with the given arguments, and answers with its exit code. -/
def execute (arguments : List String) : IO UInt32 := do
  let home := (Path.segments (← IO.currentDir).toString).filter (· ≠ "")
  let defaultConfig ← IO.getEnv "JSDOC_CONFIG"
  let start : FileTree := ({ home } : FileTree).addDirectory home
  let (paths, needsInput) :=
    match Command.Arguments.read defaultConfig arguments with
    | .ok a => (a.inputs ++ a.output.toList ++ a.config.toList, a.inputs.isEmpty)
    | .error _ => ([], false)
  let before ← paths.foldlM loadPath start
  let standardInput ← if needsInput then readAll (← IO.getStdin) .empty else pure .empty
  let report := Command.run
    { arguments, standardInput := standardInput.data.toList, defaultConfig } before
  store before report.tree
  (← IO.getStdout).putStr report.output
  let isLogOff := (← IO.getEnv "RUST_LOG") = some "off"
  (← IO.getStderr).putStr
    (if isLogOff then report.errors else String.join (report.messages.map Command.Message.shown))
  return report.exitCode.toUInt32

end BrightDoc.Program

/-- The command. -/
def main (arguments : List String) : IO UInt32 :=
  BrightDoc.Program.execute arguments
