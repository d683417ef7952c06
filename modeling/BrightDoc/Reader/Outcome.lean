import BrightDoc.Tree.Statement

/-!
What reading a source text can report: errors that end the reading, and warnings that do not. There
are two dialects, and the simpler one warns of the features of the other.
-/

namespace BrightDoc

/-- The blocks that are closed by an `end` line. -/
inductive BlockKind where
  | function | sub | ofClass | ofInterface | ofEnum | ofNamespace
deriving DecidableEq

/-- The word that follows `end` on the line that closes a block. -/
def BlockKind.word : BlockKind → String
  | function => "function"
  | sub => "sub"
  | ofClass => "class"
  | ofInterface => "interface"
  | ofEnum => "enum"
  | ofNamespace => "namespace"

/-- The block that a function of some kind opens. -/
def FunctionKind.block : FunctionKind → BlockKind
  | function => .function
  | sub => .sub

/-- The parts of a source text that have a form to keep. -/
inductive Construct where
  | functionHeader | methodHeader | parameter | classHeader | interfaceHeader | interfaceMember
  | enumHeader | enumMember | namespaceHeader | constant
deriving DecidableEq

/-- How a construct is called in an error message. -/
def Construct.title : Construct → String
  | functionHeader => "function declaration"
  | methodHeader => "method declaration"
  | parameter => "parameter"
  | classHeader => "class declaration"
  | interfaceHeader => "interface declaration"
  | interfaceMember => "interface member"
  | enumHeader => "enum declaration"
  | enumMember => "enum member"
  | namespaceHeader => "namespace declaration"
  | constant => "const declaration"

/-- Why a source text cannot be read. Lines are counted from one. -/
inductive ParseError where
  /-- The block opened on this line is not closed. -/
  | unterminated (block : BlockKind) (line : Nat)
  /-- An `end` line that closes no open block; `word` is the word after `end`. -/
  | unexpectedEnd (word : String) (line : Nat)
  /-- A construct that does not have its form. -/
  | malformed (construct : Construct) (line : Nat) (text : String)
deriving DecidableEq

namespace ParseError

/-- The line an error is reported for. -/
def line : ParseError → Nat
  | unterminated _ line => line
  | unexpectedEnd _ line => line
  | malformed _ line _ => line

/-- The text of an error. -/
def message : ParseError → String
  | unterminated block line =>
    "line " ++ toString line ++ ": missing 'end " ++ block.word ++ "' for the " ++ block.word ++
      " opened here"
  | unexpectedEnd word line => "line " ++ toString line ++ ": unexpected 'end " ++ word ++ "'"
  | malformed construct line text =>
    "line " ++ toString line ++ ": malformed " ++ construct.title ++ ": " ++ text

end ParseError

/-- Something noticed while reading that does not stop it. Lines are counted from one. -/
inductive Warning where
  /-- An annotation line. -/
  | annotationLine (line : Nat)
  /-- A declaration that only the richer dialect has. -/
  | declaration (word : String) (line : Nat)
  /-- An enum member without a value after one whose value cannot be counted on from. -/
  | openValue (member : String) (line : Nat)
deriving DecidableEq

namespace Warning

/-- The line a warning is about. -/
def line : Warning → Nat
  | annotationLine line => line
  | declaration _ line => line
  | openValue _ line => line

/-- The text of a warning. -/
def message : Warning → String
  | annotationLine _ => "annotations are a BrighterScript feature"
  | declaration word _ => "'" ++ word ++ "' is a BrighterScript feature; parsing it anyway"
  | openValue member _ =>
    "enum member '" ++ member ++ "' follows a non-integer member; value left open"

end Warning

/-- The two dialects of the language. The second has all declarations and annotations. -/
inductive Dialect where
  | brightScript | brighterScript
deriving DecidableEq

/-- A result, or the error that prevents it, with the warnings up to that point in order. -/
structure Outcome (α : Type) where
  warnings : List Warning := []
  result : Except ParseError α

namespace Outcome

/-- A result without warnings. -/
def ok {α : Type} (value : α) : Outcome α :=
  { result := .ok value }

/-- An error without warnings. -/
def fail {α : Type} (error : ParseError) : Outcome α :=
  { result := .error error }

/-- The outcome with a warning before its own ones. -/
def warn {α : Type} (warning : Warning) (outcome : Outcome α) : Outcome α :=
  { outcome with warnings := warning :: outcome.warnings }

/-- The outcome of a line with a feature that only the richer dialect has. The other one takes the
line as well, after a warning. -/
def feature {α : Type} (dialect : Dialect) (warning : Warning) (outcome : Outcome α) : Outcome α :=
  match dialect with
  | .brightScript => outcome.warn warning
  | .brighterScript => outcome

/-- Goes on from the result of an outcome, if it has one. -/
def andThen {α β : Type} (outcome : Outcome α) (next : α → Outcome β) : Outcome β :=
  match outcome.result with
  | .ok value => { next value with warnings := outcome.warnings ++ (next value).warnings }
  | .error error => { warnings := outcome.warnings, result := .error error }

/-- The outcome with its result mapped. -/
def map {α β : Type} (f : α → β) (outcome : Outcome α) : Outcome β :=
  { warnings := outcome.warnings, result := outcome.result.map f }

@[simp] theorem feature_result {α : Type} (dialect : Dialect) (warning : Warning)
    (outcome : Outcome α) : (outcome.feature dialect warning).result = outcome.result := by
  cases dialect <;> rfl

@[simp] theorem ok_andThen {α β : Type} (value : α) (next : α → Outcome β) :
    (ok value).andThen next = next value := by
  simp [ok, andThen]

@[simp] theorem fail_andThen {α β : Type} (error : ParseError) (next : α → Outcome β) :
    (fail error).andThen next = fail error := by
  simp [fail, andThen]

@[simp] theorem warn_andThen {α β : Type} (warning : Warning) (outcome : Outcome α)
    (next : α → Outcome β) :
    (outcome.warn warning).andThen next = (outcome.andThen next).warn warning := by
  cases h : outcome.result <;> simp [warn, andThen, h]

theorem andThen_assoc {α β γ : Type} (outcome : Outcome α) (f : α → Outcome β)
    (g : β → Outcome γ) :
    (outcome.andThen f).andThen g = outcome.andThen fun value => (f value).andThen g := by
  cases h : outcome.result with
  | error error => simp [andThen, h]
  | ok value => cases hf : (f value).result <;> simp [andThen, h, hf]

end Outcome

end BrightDoc
