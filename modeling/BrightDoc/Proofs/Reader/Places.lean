import BrightDoc.Proofs.Reader.Sketch
import BrightDoc.Proofs.Line.Recognised
import Mathlib.Data.List.Chain

/-! # Places in a text

What it means for the comments and declarations of an outline to stand in a given text: their
stretches are stretches of the text that are not empty, a comment is either a piece of a code line or
all of its lines, and a declaration is what its first line says. Siblings follow each other line by
line, and a body lies between the first and the last line of its declaration. -/

namespace BrightDoc

/-- The place is one of the text: its line is there, and its column is one of that line. -/
def Position.In (lines : List (List Char)) (p : Position) : Prop :=
  ∃ line, lines[p.line]? = some line ∧ Text.IsColumn line p.column

/-- Places come in the order of their lines, and on one line in that of their columns. -/
def Position.Before (p q : Position) : Prop :=
  p.line < q.line ∨ p.line = q.line ∧ p.column < q.column

/-- A stretch of the text that is not empty. -/
structure Range.Valid (lines : List (List Char)) (r : Range) : Prop where
  start : r.start.In lines
  stop : r.stop.In lines
  ordered : r.start.Before r.stop

theorem Range.Valid.line_le {lines : List (List Char)} {r : Range} (valid : r.Valid lines) :
    r.start.line ≤ r.stop.line := by
  rcases valid.ordered with lt | ⟨same, -⟩ <;> omega

/-- The comment ends a code line: it is the piece of the line that its range says, after some code. -/
def Comment.IsTrailing (lines : List (List Char)) (c : Comment) : Prop :=
  ∃ index code text rest, lines[index]? = some (code ++ text ++ rest) ∧
    Line.isComment (code ++ text ++ rest) = false ∧ Line.Inked code ∧ text ≠ [] ∧
    c = { text := String.ofList text
          range := .onLine index (Text.byteLength code) (Text.byteLength (code ++ text)) }

/-- All lines of the comment are comment lines. -/
def Comment.IsFullLine (lines : List (List Char)) (c : Comment) : Prop :=
  ∀ index, c.range.start.line ≤ index → index ≤ c.range.stop.line →
    ∃ line, lines[index]? = some line ∧ Line.isComment line = true

/-- The comment is one of the text. -/
structure Comment.PlacedIn (lines : List (List Char)) (c : Comment) : Prop where
  valid : c.range.Valid lines
  sort : c.IsTrailing lines ∨ c.IsFullLine lines

/-- The annotation is a line of the text. -/
structure Annotation.PlacedIn (lines : List (List Char)) (a : Annotation) : Prop where
  valid : a.range.Valid lines
  oneLine : a.range.stop.line = a.range.start.line

/-- The declaration is one of the text: its first line is no comment line and says the header, and it
is a single line or a block as the header wants. -/
structure Header.PlacedAt (lines : List (List Char)) (header : Header) (placement : Placement) :
    Prop where
  valid : placement.range.Valid lines
  annotations : ∀ a ∈ placement.annotations, a.PlacedIn lines
  read : ∃ text, lines[placement.range.start.line]? = some text ∧ Line.isComment text = false ∧
    Reads ⟨placement.range.start.line, text⟩ header
  oneLine : header.isOneLine = true → placement.range.stop.line = placement.range.start.line
  block : header.isOneLine = false → placement.range.start.line < placement.range.stop.line

namespace Outline

/-- The node is the comment that ends the given line. -/
def Trails (lines : List (List Char)) (line : Nat) (node : Outline) : Prop :=
  ∃ c, node = comment c ∧ c.IsTrailing lines ∧ c.range.start.line = line

/-- The second node may directly follow the first one in a list of siblings: it starts on a later
line, or it is the comment that ends the line of a declaration on a single line. -/
def Follows (lines : List (List Char)) (first second : Outline) : Prop :=
  first.range.stop.line < second.range.start.line ∨
    first.isOneLine = true ∧ second.Trails lines first.range.stop.line

end Outline

/-- The nodes of a body lie between the first and the last line of their declaration; only the first
one may be the comment that ends the first line. -/
def Placement.Encloses (lines : List (List Char)) (p : Placement) (body : List Outline) : Prop :=
  ∀ index node, body[index]? = some node →
    (p.range.start.line < node.range.start.line ∧ node.range.stop.line < p.range.stop.line) ∨
      (index = 0 ∧ node.Trails lines p.range.start.line)

/-- The node and all nodes in it stand in the text, each body in order inside its declaration. -/
inductive Outline.Placed (lines : List (List Char)) : Outline → Prop where
  | comment {c : Comment} (placed : c.PlacedIn lines) : Placed lines (.comment c)
  | decl {header : Header} {placement : Placement} {body : List Outline}
      (placed : header.PlacedAt lines placement) (ordered : body.IsChain (Outline.Follows lines))
      (enclosed : placement.Encloses lines body) (inner : ∀ node ∈ body, Placed lines node) :
      Placed lines (.decl header placement body)

theorem Outline.Placed.line_le {lines : List (List Char)} {node : Outline}
    (placed : node.Placed lines) : node.range.start.line ≤ node.range.stop.line := by
  cases placed with
  | comment placed => exact placed.valid.line_le
  | decl placed ordered enclosed inner => exact placed.valid.line_le

/-- All declarations of a placed node stand in the text. -/
theorem Outline.Placed.declarations {lines : List (List Char)} {node : Outline}
    (placed : node.Placed lines) :
    ∀ found ∈ node.declarations, found.1.PlacedAt lines found.2 := by
  induction placed with
  | comment placed => intro found inside; simp [Outline.declarations] at inside
  | @decl header placement body placed ordered enclosed inner ih =>
    intro found inside
    rw [Outline.declarations, List.mem_cons] at inside
    rcases inside with rfl | inside
    · exact placed
    · obtain ⟨node, member, inside⟩ := exists_of_mem_declarationsOf inside
      exact ih node member found inside

section Lines

variable {lines : List (List Char)} {l : SourceLine}

theorem SourceLine.code_isPrefix (l : SourceLine) : l.code <+: l.text :=
  ⟨_, Line.splitComment_append l.text⟩

theorem SourceLine.start_in (here : lines[l.index]? = some l.text) : l.start.In lines :=
  ⟨l.text, here, Line.startColumn_isColumn l.text⟩

theorem SourceLine.stop_in (here : lines[l.index]? = some l.text) : l.stop.In lines :=
  ⟨l.text, here, Line.endColumn_isColumn l.text⟩

/-- A line on which something is written covers a stretch of the text. -/
theorem SourceLine.range_valid (here : lines[l.index]? = some l.text)
    (inked : Line.Inked l.text) : l.range.Valid lines := by
  obtain ⟨c, member, notWhite⟩ := inked
  exact ⟨start_in here, stop_in here,
    Or.inr ⟨rfl, Line.startColumn_lt_endColumn (List.prefix_refl l.text) member notWhite⟩⟩

/-- So does its code, where something is written in it. -/
theorem SourceLine.codeRange_valid (here : lines[l.index]? = some l.text)
    (inked : Line.Inked l.code) : l.codeRange.Valid lines := by
  obtain ⟨c, member, notWhite⟩ := inked
  refine ⟨start_in here, ⟨l.text, here, ?_⟩,
    Or.inr ⟨rfl, Line.startColumn_lt_endColumn l.code_isPrefix member notWhite⟩⟩
  exact (Line.endColumn_isColumn l.code).extend l.code_isPrefix

/-- The comment that ends a code line is a piece of it. -/
theorem SourceLine.trailing?_isTrailing {c : Comment} (here : lines[l.index]? = some l.text)
    (notComment : Line.isComment l.text = false) (inked : Line.Inked l.code)
    (found : l.trailing? = some c) : c.IsTrailing lines ∧ c.range.start.line = l.index := by
  obtain ⟨text, cut, rfl⟩ := Option.map_eq_some_iff.mp found
  obtain ⟨rest, rfl⟩ := Line.cutComment_some cut
  obtain ⟨dropped, written⟩ := Text.dropEndWhile_isPrefix Text.isWhite ('\'' :: rest)
  have whole : l.code ++ Text.trimEnd ('\'' :: rest) ++ dropped = l.text := by
    rw [List.append_assoc, Text.trimEnd, written]
    have parts := Line.splitComment_append l.text
    rw [cut] at parts
    exact parts
  have trimmed : Text.trim ('\'' :: rest) = Text.trimEnd ('\'' :: rest) :=
    Text.trim_cons_of_inked (by decide) rest
  refine ⟨⟨l.index, l.code, Text.trimEnd ('\'' :: rest), dropped, ?_, ?_, inked, ?_, ?_⟩, rfl⟩
  · rw [whole]
    exact here
  · rw [whole]
    exact notComment
  · intro empty
    have blank := Text.dropEndWhile_eq_nil_iff.mp empty
    have apostrophe : Text.isWhite '\'' = true := List.all_eq_true.mp blank '\'' List.mem_cons_self
    exact absurd apostrophe (by decide)
  · rw [trimmed, Text.byteLength_append]
    rfl

/-- A piece of a line that is not empty is a stretch of the text. -/
theorem Comment.IsTrailing.valid {c : Comment} (trailing : c.IsTrailing lines) :
    c.range.Valid lines := by
  obtain ⟨index, code, text, rest, here, -, -, nonempty, rfl⟩ := trailing
  refine ⟨⟨_, here, ?_⟩, ⟨_, here, ?_⟩, Or.inr ⟨rfl, ?_⟩⟩
  · rw [List.append_assoc]
    exact Text.isColumn_of_append code (text ++ rest)
  · exact Text.isColumn_of_append (code ++ text) rest
  · cases text with
    | nil => exact absurd rfl nonempty
    | cons c cs =>
      have := c.utf8Size_pos
      simp only [Range.onLine, Text.byteLength_append, Text.byteLength]
      omega

theorem Comment.IsTrailing.oneLine {c : Comment} (trailing : c.IsTrailing lines) :
    c.range.stop.line = c.range.start.line := by
  obtain ⟨index, code, text, rest, here, -, -, nonempty, rfl⟩ := trailing
  rfl

/-- The line of a trailing comment is no comment line. -/
theorem Comment.IsTrailing.line {c : Comment} (trailing : c.IsTrailing lines) :
    ∃ line, lines[c.range.start.line]? = some line ∧ Line.isComment line = false := by
  obtain ⟨index, code, text, rest, here, notComment, -, -, rfl⟩ := trailing
  exact ⟨_, here, notComment⟩

/-- A first line has code on it. -/
theorem Reads.inked {header : Header} (reads : Reads l header) : Line.Inked l.code := by
  cases reads with
  | function recognised built => exact (Line.functionHeader?_eq_some recognised).1
  | method recognised built => exact (Line.functionHeader?_eq_some recognised).1
  | interfaceMethod recognised built => exact (Line.functionHeader?_eq_some recognised).1
  | classDecl recognised => exact (Line.inheritingHeader?_eq_some recognised).1
  | interfaceDecl recognised => exact (Line.inheritingHeader?_eq_some recognised).1
  | enumDecl recognised => exact (Line.enumHeader?_eq_some recognised).1
  | namespaceDecl recognised => exact (Line.namespaceHeader?_eq_some recognised).1
  | constDecl recognised => exact (Line.constant?_eq_some recognised).1
  | field recognised => exact (Line.field?_eq_some recognised).1
  | interfaceField recognised => exact (Line.interfaceField?_eq_some recognised).1
  | enumMember recognised => exact (Line.enumMember?_eq_some recognised).1

end Lines

end BrightDoc
