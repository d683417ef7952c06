import BrightDoc.Reader.Parse
import BrightDoc.Proofs.Tree.Outline

/-! # What one line does to the outline

The reader's state seen as the outline that it has read so far: a stack of lists of siblings that are
still open, the comment lines just read, and the annotations that wait. `Act` and `Move` say once all
that a line can do to this sketch, and `step_handled` that the reader does nothing else: each line
makes a move, or it is refused with an error that names this very line. What holds of every parsed
tree is shown for the moves, never for the reader's own cases. -/

namespace BrightDoc

/-- Whether an error says that a block is still open where the text ends. -/
def ParseError.isUnterminated : ParseError → Bool
  | unterminated .. => true
  | _ => false

/-- The type of a class field: the written one, else the one its name designates, else the one its
value implies. -/
def fieldType (parts : Line.FieldParts) : Option TypeRef :=
  match parts.typeToken with
  | some token => some (TypeRef.ofToken (String.ofList token))
  | none =>
    (TypeRef.ofDesignatedName? parts.name).or
      (parts.value.map fun value => (Expression.ofText value).type)

/-- `Reads l header`: the code of the line `l` is a first line that says `header`. -/
inductive Reads (l : SourceLine) : Header → Prop where
  | function {found : Line.FunctionHeader} {annotations : List Annotation} {f : FunctionDecl}
      (recognised : Line.functionHeader? l.code = some found)
      (built : l.function found annotations = .ok f) : Reads l (.function f.signature)
  | method {found : Line.FunctionHeader} {annotations : List Annotation} {f : FunctionDecl}
      (recognised : Line.functionHeader? l.code = some found)
      (built : l.function found annotations = .ok f) :
      Reads l (.method f.signature found.access found.overrides)
  | interfaceMethod {found : Line.FunctionHeader} {annotations : List Annotation}
      {f : FunctionDecl} (recognised : Line.functionHeader? l.code = some found)
      (built : l.function found annotations = .ok f) : Reads l (.interfaceMethod f.signature)
  | classDecl {name : List Char} {parent : Option (List Char)}
      (recognised : Line.inheritingHeader? "class" l.code = some (name, parent)) :
      Reads l (.classDecl (String.ofList name) (parent.map String.ofList))
  | interfaceDecl {name : List Char} {parent : Option (List Char)}
      (recognised : Line.inheritingHeader? "interface" l.code = some (name, parent)) :
      Reads l (.interfaceDecl (String.ofList name) (parent.map String.ofList))
  | enumDecl {name : List Char} (recognised : Line.enumHeader? l.code = some name) :
      Reads l (.enumDecl (String.ofList name))
  | namespaceDecl {name : List Char} (recognised : Line.namespaceHeader? l.code = some name) :
      Reads l (.namespaceDecl (String.ofList name))
  | constDecl {name value : List Char} (recognised : Line.constant? l.code = some (name, value)) :
      Reads l (.constDecl (String.ofList name) (.ofText value))
  | field {parts : Line.FieldParts} (recognised : Line.field? l.code = some parts) :
      Reads l (.field (String.ofList parts.name) (fieldType parts) parts.access)
  | interfaceField {name : List Char} {token : Option (List Char)}
      (recognised : Line.interfaceField? l.code = some (name, token)) :
      Reads l (.interfaceField (String.ofList name) (token.map String.ofList))
  | enumMember {name : List Char} {written : Option (List Char)} {next : Option Int}
      (recognised : Line.enumMember? l.code = some (name, written)) :
      Reads l (.enumMember (String.ofList name) (EnumValue.assign written next).value)

/-- The place of a declaration on a single line. The place of an interface method reaches over the
comment that ends the line. -/
def Header.rangeOn (l : SourceLine) : Header → Range
  | interfaceMethod _ => l.range
  | _ => l.codeRange

theorem Header.rangeOn_line (header : Header) (l : SourceLine) :
    (header.rangeOn l).start.line = l.index ∧ (header.rangeOn l).stop.line = l.index := by
  cases header <;> exact ⟨rfl, rfl⟩

/-- The comment that ends a line, as the nodes it gives to a list of siblings. -/
def SourceLine.trailingNodes (l : SourceLine) : List Outline :=
  (l.trailing?.map Outline.comment).toList

theorem trailingNodes_of_none {l : SourceLine} (none : l.trailing? = none) : l.trailingNodes = [] := by
  rw [SourceLine.trailingNodes, none]
  rfl

theorem trailingNodes_of_some {l : SourceLine} {c : Comment} (found : l.trailing? = some c) :
    l.trailingNodes = [.comment c] := by
  rw [SourceLine.trailingNodes, found]
  rfl

/-- The first line of a declaration that is not closed yet. -/
structure Head where
  header : Header
  start : Position
  annotations : List Annotation

/-- The declaration that is closed by the given line. -/
def Head.close (h : Head) (last : SourceLine) (body : List Outline) : Outline :=
  .decl h.header { range := ⟨h.start, last.stop⟩, annotations := h.annotations } body

/-- A list of siblings that is still open, newest first, and the declaration whose body it is. -/
structure Level where
  head : Option Head
  nodes : List Outline

/-- The outline as far as it has been read: the open lists of siblings, innermost first, the comment
that the lines just above form, and the annotations that wait. -/
structure Sketch where
  levels : List Level
  run : Option Comment
  pending : List Annotation

namespace Sketch

/-- The sketch with one more node in its innermost list. -/
def push (s : Sketch) (node : Outline) : Sketch :=
  match s.levels with
  | level :: outer => { s with levels := { level with nodes := node :: level.nodes } :: outer }
  | [] => s

/-- The sketch with the comment lines just read made a node. -/
def closeRun (s : Sketch) : Sketch :=
  match s.run with
  | some c => { s.push (.comment c) with run := none }
  | none => s

/-- The sketch after a comment line. -/
def addComment (s : Sketch) (l : SourceLine) : Sketch :=
  match s.run with
  | some c => { s with run := some (c.extend l) }
  | none => { s with run := some (.ofLine l) }

/-- The first lines of the open declarations, innermost first. -/
def heads (s : Sketch) : List Head :=
  s.levels.filterMap Level.head

/-- Whether an enum is open. -/
def inEnum (s : Sketch) : Bool :=
  s.heads.any fun head => head.header.isEnum

/-- Whether the next line belongs to a body of code. -/
def inCode (s : Sketch) : Bool :=
  match s.levels with
  | level :: _ => level.head.any fun head => head.header.hasCode
  | [] => false

end Sketch

/-- What a line outside comments and bodies of code does to the sketch, once the comment lines above
it are made a node. -/
inductive Act (l : SourceLine) : Sketch → Sketch → Prop where
  /-- The line is skipped; annotations above it may be dropped. -/
  | rest {levels : List Level} {pending left : List Annotation}
      (kept : left = pending ∨ left = []) :
      Act l ⟨levels, none, pending⟩ ⟨levels, none, left⟩
  /-- The line is an annotation. -/
  | annotate {levels : List Level} {pending : List Annotation} {name : List Char}
      (found : Line.annotationName? l.text = some name)
      (outside : Sketch.inEnum ⟨levels, none, pending⟩ = false) :
      Act l ⟨levels, none, pending⟩
        ⟨levels, none, pending ++ [{ name := String.ofList name, range := l.range }]⟩
  /-- The line is a declaration of its own, which takes the annotations or drops them. -/
  | item {head : Option Head} {nodes : List Outline} {outer : List Level}
      {pending annotations : List Annotation} {header : Header} (reads : Reads l header)
      (oneLine : header.isOneLine = true) (taken : annotations = pending ∨ annotations = []) :
      Act l ⟨⟨head, nodes⟩ :: outer, none, pending⟩
        ⟨⟨head, l.trailingNodes ++
          .decl header { range := header.rangeOn l, annotations } [] :: nodes⟩ :: outer, none, []⟩
  /-- The line is a member of an enum, which has nothing to do with annotations. -/
  | member {head : Head} {nodes : List Outline} {outer : List Level}
      {pending : List Annotation} {name value : String} (inEnum : head.header.isEnum = true)
      (reads : Reads l (.enumMember name value)) :
      Act l ⟨⟨some head, nodes⟩ :: outer, none, pending⟩
        ⟨⟨some head, l.trailingNodes ++
          .decl (.enumMember name value) { range := l.codeRange } [] :: nodes⟩ :: outer, none,
          pending⟩
  /-- The line opens a declaration. -/
  | openBlock {levels : List Level} {pending : List Annotation} {header : Header}
      (reads : Reads l header) (block : header.isOneLine = false) :
      Act l ⟨levels, none, pending⟩
        ⟨⟨some { header, start := l.start, annotations := pending },
          if header.hasCode then [] else l.trailingNodes⟩ :: levels, none, []⟩
  /-- The line closes the innermost declaration. -/
  | closeBlock {head : Head} {nodes siblings : List Outline} {outside : Option Head}
      {outer : List Level} {pending : List Annotation} :
      Act l ⟨⟨some head, nodes⟩ :: ⟨outside, siblings⟩ :: outer, none, pending⟩
        ⟨⟨outside, head.close l nodes.reverse :: siblings⟩ :: outer, none, pending⟩

/-- A block whose body is part of the tree starts with the comment that ends its first line. -/
theorem Act.openBodiless {l : SourceLine} {levels : List Level} {pending : List Annotation}
    {header : Header} (reads : Reads l header) (block : header.isOneLine = false)
    (bodiless : header.hasCode = false) :
    Act l ⟨levels, none, pending⟩
      ⟨⟨some { header, start := l.start, annotations := pending }, l.trailingNodes⟩ :: levels,
        none, []⟩ := by
  have opening : Act l ⟨levels, none, pending⟩ _ := Act.openBlock reads block
  simpa only [bodiless, Bool.false_eq_true, if_false] using opening

/-- What a line does to the sketch. -/
inductive Move (l : SourceLine) : Sketch → Sketch → Prop where
  /-- The line is in a body of code and does not end it. -/
  | inCode {s : Sketch} (inside : s.inCode = true) : Move l s s
  /-- The line ends a body of code. -/
  | endCode {head : Head} {nodes siblings : List Outline} {outside : Option Head}
      {outer : List Level} {run : Option Comment} {pending : List Annotation}
      (code : head.header.hasCode = true) :
      Move l ⟨⟨some head, nodes⟩ :: ⟨outside, siblings⟩ :: outer, run, pending⟩
        ⟨⟨outside, head.close l nodes.reverse :: siblings⟩ :: outer, run, pending⟩
  /-- The line is a comment line outside bodies of code. -/
  | gather {s : Sketch} (outside : s.inCode = false) (comment : Line.isComment l.text = true) :
      Move l s (s.addComment l)
  /-- Any other line ends the comment lines above it. -/
  | act {s t : Sketch} (outside : s.inCode = false) (code : Line.isComment l.text = false)
      (act : Act l s.closeRun t) : Move l s t

end BrightDoc
