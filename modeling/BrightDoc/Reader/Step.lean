import BrightDoc.Reader.EnumValue
import BrightDoc.Reader.State

/-!
How one line changes the state of the reader. A line is handled by the block it belongs to; comment
lines in a row are gathered first, and lines inside function bodies are only searched for the end of
the body.
-/

namespace BrightDoc

/-- A parameter from its text. Its type is the written one, else the one its name designates, else
the one its default implies. -/
def Param.ofText? (text : List Char) : Option Param := do
  let parts ← Line.paramParts? text
  let default := parts.default.map Expression.ofText
  let type :=
    match parts.typeToken with
    | some token => some (TypeRef.ofToken (String.ofList token))
    | none => (TypeRef.ofDesignatedName? parts.name).or (default.map Expression.type)
  return { name := String.ofList parts.name, type, default }

/-- The parameters with the given texts, or the error for the first text that is none. -/
def SourceLine.params (l : SourceLine) : List (List Char) → Except ParseError (List Param)
  | [] => .ok []
  | text :: more =>
    match Param.ofText? text with
    | some param => (l.params more).map (param :: ·)
    | none => .error (l.malformed .parameter text)

/-- The function with the given header, as far as the header tells. -/
def SourceLine.function (l : SourceLine) (header : Line.FunctionHeader)
    (annotations : List Annotation) : Except ParseError FunctionDecl :=
  (l.params (Line.parameterTexts header.params)).map fun params =>
    { name := String.ofList header.name
      kind := header.kind
      params
      returns :=
        (header.returns.map fun token => TypeRef.ofToken (String.ofList token)).or
          (TypeRef.ofDesignatedName? header.name)
      placement := { range := l.range, annotations } }

/-- The function with its end on the given line. -/
def FunctionDecl.endingAt (f : FunctionDecl) (last : SourceLine) : FunctionDecl :=
  { f with placement := { f.placement with range := ⟨f.placement.range.start, last.stop⟩ } }

/-- The class that is closed by the given line. -/
def OpenBlock.toClass (b : OpenBlock ClassItem) (last : SourceLine) : ClassDecl :=
  { name := b.name, parent := b.parent, body := b.body.reverse, placement := b.placement last }

/-- The interface that is closed by the given line. -/
def OpenBlock.toInterface (b : OpenBlock InterfaceItem) (last : SourceLine) : InterfaceDecl :=
  { name := b.name, parent := b.parent, body := b.body.reverse, placement := b.placement last }

/-- The enum that is closed by the given line. -/
def OpenBlock.toEnum (b : OpenBlock EnumItem) (last : SourceLine) : EnumDecl :=
  { name := b.name, body := b.body.reverse, placement := b.placement last }

/-- The number of open functions after a line of a function body. A comment line changes nothing;
any other line first opens the function literals in it and then closes what it ends. -/
def bodyDepth (depth : Nat) (l : SourceLine) : Nat :=
  if Line.isComment l.text then depth
  else depth + Line.openedFunctions l.code - Line.closedFunctions l.code

namespace ReaderState

/-- The error for an `end` line that closes nothing. -/
def strayEnd (l : SourceLine) (word : List Char) : Outcome ReaderState :=
  .fail (.unexpectedEnd (String.ofList word) l.number)

/-- An `end` line in a list of statements, which can only close a namespace. -/
def endNamespace (s : ReaderState) (l : SourceLine) (word : List Char) : Outcome ReaderState :=
  match s.frames with
  | frame :: outer =>
    if word = BlockKind.ofNamespace.word.toList then
      let head : NamespaceHead :=
        { name := frame.name
          placement := { range := ⟨frame.start, l.stop⟩, annotations := frame.annotations } }
      .ok { s with
        frames := outer
        items := .namespaceDecl head s.items.reverse :: frame.before }
    else strayEnd l word
  | [] => strayEnd l word

/-- A line that starts with the keyword of a declaration other than a function. -/
def declare (s : ReaderState) (l : SourceLine) (word : List Char) : Outcome ReaderState :=
  if word = "class".toList then
    match Line.inheritingHeader? "class" l.code with
    | some (name, parent) => .ok (s.openBlock l name parent .comment .classBody)
    | none => .fail (l.malformed .classHeader l.code)
  else if word = "interface".toList then
    match Line.inheritingHeader? "interface" l.code with
    | some (name, parent) => .ok (s.openBlock l name parent .comment .interfaceBody)
    | none => .fail (l.malformed .interfaceHeader l.code)
  else if word = "enum".toList then
    match Line.enumHeader? l.code with
    | some name => .ok (s.openBlock l name none .comment fun b => .enumBody b (some 0))
    | none => .fail (l.malformed .enumHeader l.code)
  else if word = "namespace".toList then
    match Line.namespaceHeader? l.code with
    | some name => .ok (s.openNamespace l name)
    | none => .fail (l.malformed .namespaceHeader l.code)
  else
    match Line.constant? l.code with
    | some (name, value) =>
      let decl : ConstDecl :=
        { name := String.ofList name
          value := .ofText value
          placement := { range := l.codeRange, annotations := s.pending } }
      .ok { s with
        items := (l.trailing?.map Statement.comment).toList ++ .constDecl decl :: s.items
        pending := [] }
    | none => .fail (l.malformed .constant l.code)

/-- An annotation line. The annotation waits for the next declaration. -/
def annotationLine (dialect : Dialect) (s : ReaderState) (l : SourceLine) (name : List Char) :
    Outcome ReaderState :=
  .feature dialect (.annotationLine l.number) (.ok (s.annotate l name))

/-- A line of a list of statements. A line that is no declaration is skipped, and annotations above
it belong to nothing. -/
def statementLine (dialect : Dialect) (s : ReaderState) (l : SourceLine) : Outcome ReaderState :=
  match Line.annotationName? l.text with
  | some name => s.annotationLine dialect l name
  | none =>
    match Line.blockEnd? l.code with
    | some word => s.endNamespace l word
    | none =>
      match Line.functionHeader? l.code with
      | some header =>
        match l.function header s.pending with
        | .ok f => .ok { s with focus := .functionBody f 1, pending := [] }
        | .error error => .fail error
      | none =>
        if Line.startsFunction l.code then .fail (l.malformed .functionHeader l.code)
        else
          match Line.declarationWord? l.code with
          | some word =>
            .feature dialect (.declaration (String.ofList word) l.number) (s.declare l word)
          | none => .ok { s with pending := [] }

/-- A line of a class. A line that is no member is skipped. -/
def classLine (dialect : Dialect) (s : ReaderState) (b : OpenBlock ClassItem) (l : SourceLine) :
    Outcome ReaderState :=
  match Line.annotationName? l.text with
  | some name => s.annotationLine dialect l name
  | none =>
    match Line.blockEnd? l.code with
    | some word =>
      if word = BlockKind.ofClass.word.toList then .ok (s.push (.classDecl (b.toClass l)))
      else strayEnd l word
    | none =>
      match Line.functionHeader? l.code with
      | some header =>
        match l.function header s.pending with
        | .ok f =>
          let method : Method :=
            { function := f, access := header.access, overrides := header.overrides }
          .ok { s with focus := .methodBody b method 1, pending := [] }
        | .error error => .fail error
      | none =>
        if Line.startsFunction l.code then .fail (l.malformed .methodHeader l.code)
        else
          match Line.field? l.code with
          | some parts =>
            let type :=
              match parts.typeToken with
              | some token => some (TypeRef.ofToken (String.ofList token))
              | none =>
                (TypeRef.ofDesignatedName? parts.name).or
                  (parts.value.map fun value => (Expression.ofText value).type)
            let field : Field :=
              { name := String.ofList parts.name
                type
                access := parts.access
                placement := { range := l.codeRange, annotations := s.pending } }
            .ok { s with
              focus :=
                .classBody ((b.push (.field field)).push? (l.trailing?.map ClassItem.comment))
              pending := [] }
          | none => .ok s

/-- A line of an interface. Methods have no body here, and fields have no annotations. -/
def interfaceLine (dialect : Dialect) (s : ReaderState) (b : OpenBlock InterfaceItem)
    (l : SourceLine) : Outcome ReaderState :=
  match Line.annotationName? l.text with
  | some name => s.annotationLine dialect l name
  | none =>
    match Line.blockEnd? l.code with
    | some word =>
      if word = BlockKind.ofInterface.word.toList then
        .ok (s.push (.interfaceDecl (b.toInterface l)))
      else strayEnd l word
    | none =>
      let trailing := l.trailing?.map InterfaceItem.comment
      match Line.functionHeader? l.code with
      | some header =>
        match l.function header s.pending with
        | .ok f =>
          .ok { s with
            focus := .interfaceBody ((b.push (.method f)).push? trailing)
            pending := [] }
        | .error error => .fail error
      | none =>
        match Line.interfaceField? l.code with
        | some (name, token) =>
          let field : InterfaceField :=
            { name := String.ofList name, typeToken := token.map String.ofList
              range := l.codeRange }
          .ok { s with
            focus := .interfaceBody ((b.push (.field field)).push? trailing)
            pending := [] }
        | none => .fail (l.malformed .interfaceMember l.code)

/-- A line of an enum. -/
def enumLine (s : ReaderState) (b : OpenBlock EnumItem) (next : Option Int) (l : SourceLine) :
    Outcome ReaderState :=
  match Line.blockEnd? l.code with
  | some word =>
    if word = BlockKind.ofEnum.word.toList then .ok (s.push (.enumDecl (b.toEnum l)))
    else strayEnd l word
  | none =>
    match Line.enumMember? l.code with
    | some (name, written) =>
      let assigned := EnumValue.assign written next
      let member : EnumMember :=
        { name := String.ofList name, value := assigned.value, range := l.codeRange }
      let block := (b.push (.member member)).push? (l.trailing?.map EnumItem.comment)
      let outcome := Outcome.ok { s with focus := .enumBody block assigned.next }
      if assigned.isOpen then outcome.warn (.openValue (String.ofList name) l.number)
      else outcome
    | none => .fail (l.malformed .enumMember l.code)

/-- A line outside function bodies: a comment line joins the comment lines just above it, and any
other line ends them. -/
def gather (s : ReaderState) (l : SourceLine)
    (handle : ReaderState → SourceLine → Outcome ReaderState) : Outcome ReaderState :=
  if Line.isComment l.text then .ok (s.addComment l)
  else if Line.isBlank l.text then .ok s.closeRun
  else handle s.closeRun l

/-- The state after one more line of a source in the given dialect. -/
def step (dialect : Dialect) (s : ReaderState) (l : SourceLine) : Outcome ReaderState :=
  match s.focus with
  | .functionBody f depth =>
    match bodyDepth depth l with
    | 0 => .ok (s.push (.function (f.endingAt l)))
    | left => .ok { s with focus := .functionBody f left }
  | .methodBody b m depth =>
    match bodyDepth depth l with
    | 0 =>
      .ok { s with
        focus := .classBody (b.push (.method { m with function := m.function.endingAt l })) }
    | left => .ok { s with focus := .methodBody b m left }
  | _ =>
    s.gather l fun s l =>
      match s.focus with
      | .classBody b => s.classLine dialect b l
      | .interfaceBody b => s.interfaceLine dialect b l
      | .enumBody b next => s.enumLine b next l
      | _ => s.statementLine dialect l

end ReaderState

end BrightDoc
