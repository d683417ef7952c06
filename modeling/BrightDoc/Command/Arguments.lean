import BrightDoc.Text.Search

/-!
The arguments of the command. They are read from left to right, and the first fault or request for
information ends the reading.
-/

namespace BrightDoc.Command

/-- What the arguments ask for. -/
structure Arguments where
  /-- Files, directories and patterns, as given. -/
  inputs : List String := []
  /-- The directory to write to. -/
  output : Option String := none
  /-- The file with the environment of the documentation generator. -/
  config : Option String := none
  /-- The name that standard input is read under. -/
  fileName : Option String := none
  noModule : Bool := false
  noEscape : Bool := false

/-- Options that take a value. -/
inductive ValueOption where
  | output | config | fileName
deriving DecidableEq

/-- Options that take none. -/
inductive Switch where
  | noModule | noEscape
deriving DecidableEq

/-- The long name of an option. -/
def ValueOption.title : ValueOption → String
  | output => "--output"
  | config => "--config"
  | fileName => "--filename"

/-- The long name of an option. -/
def Switch.title : Switch → String
  | noModule => "--no-module"
  | noEscape => "--no-escape"

/-- Why arguments cannot be used. -/
inductive UsageError where
  | unknownOption (argument : String)
  | missingValue (option : ValueOption)
  | emptyValue (option : ValueOption)
  | unneededValue (option : String)
  | repeated (option : String)
deriving DecidableEq

/-- The text of an error. -/
def UsageError.message : UsageError → String
  | unknownOption argument => "unexpected argument '" ++ argument ++ "' found"
  | missingValue option => "a value is required for '" ++ option.title ++ "' but none was supplied"
  | emptyValue option => "a value is required for '" ++ option.title ++ "' but none was supplied"
  | unneededValue option => "unexpected value for '" ++ option ++ "' found; no more were expected"
  | repeated option => "the argument '" ++ option ++ "' cannot be used multiple times"

/-- What ends the reading of arguments before their end. -/
inductive Interruption where
  | usage (error : UsageError)
  | version
  | help
deriving DecidableEq

/-- The arguments with the value of an option. Paths are not empty. -/
def Arguments.setValue (a : Arguments) (option : ValueOption) (value : String) :
    Except Interruption Arguments :=
  let current :=
    match option with
    | .output => a.output
    | .config => a.config
    | .fileName => a.fileName
  if current.isSome then .error (.usage (.repeated option.title))
  else
    match option with
    | .fileName => .ok { a with fileName := some value }
    | .output =>
      if value = "" then .error (.usage (.emptyValue option)) else .ok { a with output := some value }
    | .config =>
      if value = "" then .error (.usage (.emptyValue option)) else .ok { a with config := some value }

/-- The arguments with a switch turned on. -/
def Arguments.turnOn (a : Arguments) (switch : Switch) : Except Interruption Arguments :=
  match switch with
  | .noModule =>
    if a.noModule then .error (.usage (.repeated switch.title)) else .ok { a with noModule := true }
  | .noEscape =>
    if a.noEscape then .error (.usage (.repeated switch.title)) else .ok { a with noEscape := true }

/-- What a single argument is. -/
inductive Argument where
  | input (text : String)
  /-- The mark after which there are inputs only. -/
  | endOfOptions
  /-- An option whose value is attached to it, or follows it. -/
  | value (option : ValueOption) (attached : Option String)
  | switch (switch : Switch)
  | interruption (interruption : Interruption)

/-- A long option by its name and the value attached to it. -/
def longArgument (name : String) (attached : Option String) : Argument :=
  let bare (argument : Argument) : Argument :=
    match attached with
    | none => argument
    | some _ => .interruption (.usage (.unneededValue ("--" ++ name)))
  match name with
  | "output" => .value .output attached
  | "config" => .value .config attached
  | "filename" => .value .fileName attached
  | "no-module" => bare (.switch .noModule)
  | "no-escape" => bare (.switch .noEscape)
  | "version" => bare (.interruption .version)
  | "help" => bare (.interruption .help)
  | _ => .interruption (.usage (.unknownOption ("--" ++ name)))

/-- The value attached to a short option: the text after its letter, without an equals sign at its
start. -/
def attachedValue : List Char → Option String
  | [] => none
  | '=' :: value => some (String.ofList value)
  | value => some (String.ofList value)

/-- What an argument is by its text. -/
def Argument.of (text : String) : Argument :=
  match text.toList with
  | ['-', '-'] => .endOfOptions
  | '-' :: '-' :: long =>
    match Text.cutAtFirst? '=' long with
    | some (name, rest) => longArgument (String.ofList name) (some (String.ofList rest))
    | none => longArgument (String.ofList long) none
  | '-' :: 'o' :: rest => .value .output (attachedValue rest)
  | '-' :: 'c' :: rest => .value .config (attachedValue rest)
  | '-' :: 'V' :: _ => .interruption .version
  | '-' :: 'h' :: _ => .interruption .help
  | '-' :: _ :: _ => .interruption (.usage (.unknownOption text))
  | _ => .input text

/-- The arguments read so far together with the given ones. -/
def Arguments.readFrom (a : Arguments) : List String → Except Interruption Arguments
  | [] => .ok a
  | text :: more =>
    match Argument.of text with
    | .input input => Arguments.readFrom { a with inputs := a.inputs ++ [input] } more
    | .endOfOptions => .ok { a with inputs := a.inputs ++ more }
    | .switch switch => (a.turnOn switch).bind fun a => a.readFrom more
    | .interruption interruption => .error interruption
    | .value option (some value) => (a.setValue option value).bind fun a => a.readFrom more
    | .value option none =>
      match more with
      | [] => .error (.usage (.missingValue option))
      | next :: rest =>
        match Argument.of next with
        | .input value => (a.setValue option value).bind fun a => a.readFrom rest
        | _ => .error (.usage (.missingValue option))

/-- What a list of arguments asks for. Without an option for it, the configuration file is the one that
the surroundings name, if they name one. -/
def Arguments.read (defaultConfig : Option String) (texts : List String) :
    Except Interruption Arguments := do
  let a ← Arguments.readFrom {} texts
  match a.config, defaultConfig with
  | none, some path => a.setValue .config path
  | _, _ => return a

end BrightDoc.Command
