import BrightDoc.Line.Layout
import BrightDoc.Line.Declaration
import BrightDoc.Reader.Outcome

/-!
What the reader knows between two lines: the blocks that are open, the statements of each open
statement list, the comment lines just read, and the annotations that wait for their declaration.
Lists that grow line by line are kept newest first.
-/

namespace BrightDoc

/-- A line of the source text and its number, counted from zero. -/
structure SourceLine where
  index : Nat
  text : List Char

namespace SourceLine

/-- The line's number, counted from one. -/
def number (l : SourceLine) : Nat := l.index + 1

/-- The place of the line's first character that is not white space. -/
def start (l : SourceLine) : Position :=
  ⟨l.index, Line.startColumn l.text⟩

/-- The place after the line's last character that is not white space. -/
def stop (l : SourceLine) : Position :=
  ⟨l.index, Line.endColumn l.text⟩

/-- The line without white space around it. -/
def range (l : SourceLine) : Range :=
  ⟨l.start, l.stop⟩

/-- The code of the line. -/
def code (l : SourceLine) : List Char :=
  (Line.splitComment l.text).1

/-- The code of the line without white space around it. -/
def codeRange (l : SourceLine) : Range :=
  ⟨l.start, ⟨l.index, Line.endColumn l.code⟩⟩

/-- The comment after the code of the line. -/
def trailing? (l : SourceLine) : Option Comment :=
  (Line.splitComment l.text).2.map fun text =>
    let column := Text.byteLength l.code
    { text := String.ofList (Text.trim text)
      range := .onLine l.index column (column + Line.endColumn text) }

/-- The error that a construct on the line does not have its form. -/
def malformed (l : SourceLine) (construct : Construct) (text : List Char) : ParseError :=
  .malformed construct l.number (String.ofList (Text.trim text))

end SourceLine

/-- The comment of a single comment line. -/
def Comment.ofLine (l : SourceLine) : Comment :=
  { text := String.ofList (Text.trim l.text), range := l.range }

/-- A comment with one more line. -/
def Comment.extend (c : Comment) (l : SourceLine) : Comment :=
  { text := c.text ++ "\n" ++ String.ofList (Text.trim l.text)
    range := ⟨c.range.start, l.stop⟩ }

/-- The first line of an open block, and the items of its body so far, newest first. -/
structure OpenBlock (Item : Type) where
  name : String
  parent : Option String := none
  start : Position
  annotations : List Annotation
  body : List Item := []

namespace OpenBlock

variable {Item : Type}

/-- The block with one more item. -/
def push (b : OpenBlock Item) (item : Item) : OpenBlock Item :=
  { b with body := item :: b.body }

/-- The block with one more item, if there is one. -/
def push? (b : OpenBlock Item) (item : Option Item) : OpenBlock Item :=
  { b with body := item.toList ++ b.body }

/-- The place of the block, if it is closed by the given line. -/
def placement (b : OpenBlock Item) (last : SourceLine) : Placement :=
  { range := ⟨b.start, last.stop⟩, annotations := b.annotations }

end OpenBlock

/-- A namespace that is open around the current statement list: its first line, and the statements
before it in the list that holds it. -/
structure NamespaceFrame where
  name : String
  start : Position
  annotations : List Annotation
  before : List Statement

/-- What the next line belongs to. -/
inductive Focus where
  /-- A list of statements. -/
  | statements
  /-- The body of a function in a list of statements, with the number of functions open in it. -/
  | functionBody (function : FunctionDecl) (depth : Nat)
  /-- A class. -/
  | classBody (block : OpenBlock ClassItem)
  /-- The body of a method of a class, with the number of functions open in it. -/
  | methodBody (block : OpenBlock ClassItem) (method : Method) (depth : Nat)
  /-- An interface. -/
  | interfaceBody (block : OpenBlock InterfaceItem)
  /-- An enum, with the number of its next member, if there is one. -/
  | enumBody (block : OpenBlock EnumItem) (next : Option Int)

/-- The state of the reader between two lines. -/
structure ReaderState where
  /-- The open namespaces, innermost first. -/
  frames : List NamespaceFrame := []
  /-- The statements of the innermost list so far. -/
  items : List Statement := []
  /-- What the next line belongs to. -/
  focus : Focus := .statements
  /-- The comment that the lines just above form, if they are comment lines. -/
  run : Option Comment := none
  /-- The annotations that wait for a declaration, in source order. -/
  pending : List Annotation := []

namespace ReaderState

/-- The state with one more statement in the innermost list, which the next line belongs to. -/
def push (s : ReaderState) (statement : Statement) : ReaderState :=
  { s with items := statement :: s.items, focus := .statements }

/-- The state with one more comment in the block that the next line belongs to. -/
def pushComment (s : ReaderState) (c : Comment) : ReaderState :=
  match s.focus with
  | .statements => { s with items := .comment c :: s.items }
  | .classBody b => { s with focus := .classBody (b.push (.comment c)) }
  | .interfaceBody b => { s with focus := .interfaceBody (b.push (.comment c)) }
  | .enumBody b next => { s with focus := .enumBody (b.push (.comment c)) next }
  | .functionBody _ _ => s
  | .methodBody _ _ _ => s

/-- The state after a comment line. -/
def addComment (s : ReaderState) (l : SourceLine) : ReaderState :=
  match s.run with
  | some c => { s with run := some (c.extend l) }
  | none => { s with run := some (.ofLine l) }

/-- The state with the comment lines just read made a comment of their block. -/
def closeRun (s : ReaderState) : ReaderState :=
  match s.run with
  | some c => { s.pushComment c with run := none }
  | none => s

/-- The state with one more annotation waiting. -/
def annotate (s : ReaderState) (l : SourceLine) (name : List Char) : ReaderState :=
  { s with pending := s.pending ++ [{ name := String.ofList name, range := l.range }] }

/-- The state in which the line opens a block, and the comment that ends the line is the block's
first item. No annotation waits any longer. -/
def openBlock {Item : Type} (s : ReaderState) (l : SourceLine) (name : List Char)
    (parent : Option (List Char)) (comment : Comment → Item) (focus : OpenBlock Item → Focus) :
    ReaderState :=
  let block : OpenBlock Item :=
    { name := String.ofList name, parent := parent.map String.ofList, start := l.start
      annotations := s.pending }
  { s with focus := focus (block.push? (l.trailing?.map comment)), pending := [] }

/-- The state in which the line opens a namespace. -/
def openNamespace (s : ReaderState) (l : SourceLine) (name : List Char) : ReaderState :=
  { s with
    frames := { name := String.ofList name, start := l.start, annotations := s.pending
                before := s.items } :: s.frames
    items := (l.trailing?.map Statement.comment).toList
    pending := [] }

/-- The statements read, or the error that the innermost open block is not closed. -/
def finish (s : ReaderState) : Except ParseError (List Statement) :=
  match s.focus with
  | .statements =>
    match s.frames with
    | [] => .ok s.closeRun.items.reverse
    | frame :: _ => .error (.unterminated .ofNamespace (frame.start.line + 1))
  | .functionBody f _ =>
    .error (.unterminated f.kind.block (f.placement.range.start.line + 1))
  | .methodBody _ m _ =>
    .error (.unterminated m.function.kind.block (m.function.placement.range.start.line + 1))
  | .classBody b => .error (.unterminated .ofClass (b.start.line + 1))
  | .interfaceBody b => .error (.unterminated .ofInterface (b.start.line + 1))
  | .enumBody b _ => .error (.unterminated .ofEnum (b.start.line + 1))

end ReaderState

end BrightDoc
