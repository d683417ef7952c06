import BrightDoc.Command.Inputs
import BrightDoc.Converter

/-!
A run of the command on a tree of files. Without inputs it converts standard input to standard
output; with inputs it writes one file for each of them. Inputs that cannot be read as source are
skipped with a notice; every other fault ends the run. What the reader warns about goes to the log, which
shares the error stream with the notices.
-/

namespace BrightDoc.Command

/-- What ends a run. -/
inductive Failure where
  | unreadableConfig (path : String) (cause : FileError)
  | invalidConfig (path : String)
  | unreadableStandardInput (cause : FileError)
  | unparsable (name : String) (cause : ParseError)
  | missingOutput
  | uncreatableOutput (path : String) (cause : FileError)
  | invalidPattern (pattern : String)
  | unreadable (path : String) (cause : FileError)
  | unwritable (path : String) (cause : FileError)

namespace Failure

/-- What failed. -/
def title : Failure → String
  | unreadableConfig path _ => "failed to read config: " ++ path
  | invalidConfig path => "invalid JSON in config: " ++ path
  | unreadableStandardInput _ => "failed to read stdin"
  | unparsable name _ => "failed to parse " ++ name
  | missingOutput => "--output is required when files are given"
  | uncreatableOutput path _ => "failed to create output directory: " ++ path
  | invalidPattern pattern => "invalid glob pattern: " ++ pattern
  | unreadable path _ => "failed to read " ++ path
  | unwritable path _ => "failed to write " ++ path

/-- Why it failed, where there is more to say. -/
def cause? : Failure → Option String
  | unreadableConfig _ cause => some cause.message
  | unreadableStandardInput cause => some cause.message
  | unparsable _ cause => some cause.message
  | uncreatableOutput _ cause => some cause.message
  | unreadable _ cause => some cause.message
  | unwritable _ cause => some cause.message
  | invalidConfig _ => none
  | missingOutput => none
  | invalidPattern _ => none

/-- The text shown for a failure. -/
def message (f : Failure) : String :=
  "Error: " ++ f.title ++ "\n" ++
    match f.cause? with
    | some cause => "\nCaused by:\n    " ++ cause ++ "\n"
    | none => ""

end Failure

/-- What goes to the error stream. -/
inductive Message where
  | text (shown : String)
  /-- An entry of the log, which is written with the time and in colours. -/
  | logged (warning : Warning)
deriving DecidableEq

/-- The text of a message. That of an entry of the log is given without time and colours. -/
def Message.shown : Message → String
  | text shown => shown
  | logged warning =>
    " WARN brs_jsdoc::parser: " ++ warning.message ++ " line=" ++ toString warning.line ++ "\n"

/-- What is worth telling in a run without ending it. -/
inductive Notice where
  | unmatched (pattern : String)
  | logged (warning : Warning)
  | skipped (path : String) (error : ParseError)
  | renamed (path plain name : String)

/-- The message of a notice. -/
def Notice.message : Notice → Message
  | unmatched pattern => .text ("warning: no files matched: " ++ pattern ++ "\n")
  | logged warning => .logged warning
  | skipped path error => .text ("warning: skipping " ++ path ++ ": " ++ error.message ++ "\n")
  | renamed path plain name =>
    .text ("warning: " ++ plain ++ ".js already written this run; writing " ++ path ++ " to " ++ name ++
      ".js\n")

/-- The surroundings of a run. -/
structure Invocation where
  arguments : List String := []
  standardInput : Content := []
  /-- The configuration file that is used unless the arguments name one. -/
  defaultConfig : Option String := none
  libraries : Libraries := {}

/-- What a run leaves behind. -/
structure Report where
  exitCode : Nat := 0
  output : String := ""
  /-- What goes to the error stream, in order. -/
  messages : List Message := []
  tree : FileTree

/-- The text on the error stream of a run whose log is turned off. -/
def Report.errors (r : Report) : String :=
  String.join (r.messages.filterMap fun
    | .text shown => some shown
    | .logged _ => none)

/-- The report of a run that fails after some notices. -/
def failed (tree : FileTree) (notices : List Notice) (failure : Failure) : Report :=
  { exitCode := 1
    messages := notices.map Notice.message ++ [.text failure.message]
    tree }

/-- The options of a run: those of the configuration file, with what the arguments switch off. -/
def options (libraries : Libraries) (t : FileTree) (a : Arguments) : Except Failure Options := do
  let configured : Options ←
    match a.config with
    | none => .ok {}
    | some path =>
      match t.readText path with
      | .error cause => .error (.unreadableConfig path cause)
      | .ok text =>
        match libraries.parseJson text with
        | some environment => .ok (Options.ofEnvironment environment)
        | none => .error (.invalidConfig path)
  return {
    addModule := configured.addModule && !a.noModule
    escapeMarkup := configured.escapeMarkup && !a.noEscape }

/-- The name that standard input is read under unless the arguments give one. -/
def defaultFileName : String := "stdin.bs"

/-- A run that converts standard input. -/
def convertStandardInput (t : FileTree) (c : Converter) (name : String) (content : Content) :
    Report :=
  match FileTree.decode content with
  | .error cause => failed t [] (.unreadableStandardInput cause)
  | .ok text =>
    let outcome := (c.convertFile { name, text }).outcome
    let logged := outcome.warnings.map Notice.logged
    match outcome.result with
    | .ok output => { output, messages := logged.map Notice.message, tree := t }
    | .error error => failed t logged (.unparsable name error)

/-- The paths of the input files that some arguments name, in the order of the arguments, with the
notices on the way; or the failure that ends the run, after the notices before it. -/
def expand (libraries : Libraries) (t : FileTree) :
    List String → List Notice × Except Failure (List String)
  | [] => ([], .ok [])
  | argument :: more =>
    match named libraries t argument with
    | .invalidPattern => ([], .error (.invalidPattern argument))
    | .files paths =>
      let (notices, rest) := expand libraries t more
      (notices, rest.map (paths ++ ·))
    | .matching paths =>
      let (notices, rest) := expand libraries t more
      let own := if paths.isEmpty then [Notice.unmatched argument] else []
      (own ++ notices, rest.map (paths ++ ·))

/-- A run over input files between two of them. -/
structure Progress where
  tree : FileTree
  converter : Converter
  /-- The names of the files written so far. -/
  taken : List String := []
  /-- The notices so far, in order. -/
  notices : List Notice := []

/-- The run after one more input file, which is converted to a file in the directory. The reader logs its
warnings before it is known whether the file can be read as source. -/
def Progress.convertInput (p : Progress) (directory : String) (path : String) :
    Progress × Option Failure :=
  match p.tree.readText path with
  | .error cause => (p, some (.unreadable path cause))
  | .ok text =>
    let conversion := p.converter.convertFile { name := path, text }
    let logged := conversion.outcome.warnings.map Notice.logged
    match conversion.outcome.result with
    | .error error => ({ p with notices := p.notices ++ (logged ++ [.skipped path error]) }, none)
    | .ok output =>
      let name := outputName p.taken path
      let renamed :=
        if name = plainName path then [] else [Notice.renamed path (plainName path) name]
      let target := Path.join directory (name ++ ".js")
      let p : Progress :=
        { p with
          converter := conversion.converter
          taken := name :: p.taken
          notices := p.notices ++ (logged ++ renamed) }
      match p.tree.writeText target output with
      | .error cause => (p, some (.unwritable target cause))
      | .ok tree => ({ p with tree }, none)

/-- The run after some input files, up to the first failure. -/
def Progress.convertInputs (p : Progress) (directory : String) :
    List String → Progress × Option Failure
  | [] => (p, none)
  | path :: more =>
    match p.convertInput directory path with
    | (p, none) => p.convertInputs directory more
    | (p, some failure) => (p, some failure)

/-- A run over input files. -/
def convertFiles (libraries : Libraries) (t : FileTree) (c : Converter) (directory : String)
    (arguments : List String) : Report :=
  match t.makeDirectories directory with
  | .error cause => failed t [] (.uncreatableOutput directory cause)
  | .ok t =>
    match expand libraries t arguments with
    | (notices, .error failure) => failed t notices failure
    | (notices, .ok paths) =>
      let start : Progress := { tree := t, converter := c, notices }
      match start.convertInputs directory (Path.sorted paths) with
      | (p, some failure) => failed p.tree p.notices failure
      | (p, none) => { messages := p.notices.map Notice.message, tree := p.tree }

/-- What the command shows as its version. -/
def versionText : String := "brs-jsdoc 0.1.0\n"

/-- What the command shows about its use. -/
def helpText : String :=
  "Convert BrighterScript doc comments into JSDoc blocks over stub declarations\n\n" ++
  "Usage: brs-jsdoc [OPTIONS] [FILES]...\n\n" ++
  "Arguments:\n" ++
  "  [FILES]...  Input files, directories or glob patterns. If omitted, reads from stdin\n\n" ++
  "Options:\n" ++
  "  -o, --output <OUTPUT>      Output directory (required when files are given)\n" ++
  "  -c, --config <CONFIG>      JSDoc conf.json; plugin options are read from its opts section\n" ++
  "      --filename <FILENAME>  File name used for stdin input\n" ++
  "      --no-module            Do not emit @module blocks or module membership\n" ++
  "      --no-escape            Keep markup characters in comments as written\n" ++
  "  -h, --help                 Print help\n" ++
  "  -V, --version              Print version\n"

/-- A run of the command. -/
def run (i : Invocation) (t : FileTree) : Report :=
  match i.libraries.readArguments i.defaultConfig i.arguments with
  | .error .version => { output := versionText, tree := t }
  | .error .help => { output := helpText, tree := t }
  | .error (.usage error) =>
    { exitCode := 2, messages := [.text ("error: " ++ error.message ++ "\n")], tree := t }
  | .ok a =>
    match options i.libraries t a with
    | .error failure => failed t [] failure
    | .ok options =>
      let c : Converter := { options }
      if a.inputs.isEmpty then
        convertStandardInput t c (a.fileName.getD defaultFileName) i.standardInput
      else
        match a.output with
        | none => failed t [] .missingOutput
        | some directory => convertFiles i.libraries t c directory a.inputs

end BrightDoc.Command
