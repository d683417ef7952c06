import BrightDoc.Tree.Statement

/-! # Moving a tree down

The tree of a text that stands some lines further down in a longer text: all places in it have their
lines moved down, and nothing else changes. -/

namespace BrightDoc

/-- The place `n` lines further down. -/
def Position.shift (n : Nat) (p : Position) : Position :=
  { p with line := p.line + n }

/-- The stretch `n` lines further down. -/
def Range.shift (n : Nat) (r : Range) : Range :=
  ⟨r.start.shift n, r.stop.shift n⟩

/-- The comment `n` lines further down. -/
def Comment.shift (n : Nat) (c : Comment) : Comment :=
  { c with range := c.range.shift n }

/-- The annotation `n` lines further down. -/
def Annotation.shift (n : Nat) (a : Annotation) : Annotation :=
  { a with range := a.range.shift n }

/-- The place of a declaration `n` lines further down. -/
def Placement.shift (n : Nat) (p : Placement) : Placement :=
  { range := p.range.shift n, annotations := p.annotations.map (·.shift n) }

/-- The function `n` lines further down. -/
def FunctionDecl.shift (n : Nat) (f : FunctionDecl) : FunctionDecl :=
  { f with placement := f.placement.shift n }

/-- The method `n` lines further down. -/
def Method.shift (n : Nat) (m : Method) : Method :=
  { m with function := m.function.shift n }

/-- The class member `n` lines further down. -/
def ClassItem.shift (n : Nat) : ClassItem → ClassItem
  | comment c => comment (c.shift n)
  | field f => field { f with placement := f.placement.shift n }
  | method m => method (m.shift n)

/-- The class `n` lines further down. -/
def ClassDecl.shift (n : Nat) (c : ClassDecl) : ClassDecl :=
  { c with body := c.body.map (ClassItem.shift n), placement := c.placement.shift n }

/-- The interface member `n` lines further down. -/
def InterfaceItem.shift (n : Nat) : InterfaceItem → InterfaceItem
  | comment c => comment (c.shift n)
  | field f => field { f with range := f.range.shift n }
  | method f => method (f.shift n)

/-- The interface `n` lines further down. -/
def InterfaceDecl.shift (n : Nat) (i : InterfaceDecl) : InterfaceDecl :=
  { i with body := i.body.map (InterfaceItem.shift n), placement := i.placement.shift n }

/-- The enum member `n` lines further down. -/
def EnumItem.shift (n : Nat) : EnumItem → EnumItem
  | comment c => comment (c.shift n)
  | member m => member { m with range := m.range.shift n }

/-- The enum `n` lines further down. -/
def EnumDecl.shift (n : Nat) (e : EnumDecl) : EnumDecl :=
  { e with body := e.body.map (EnumItem.shift n), placement := e.placement.shift n }

/-- The constant `n` lines further down. -/
def ConstDecl.shift (n : Nat) (c : ConstDecl) : ConstDecl :=
  { c with placement := c.placement.shift n }

/-- The name of a namespace with its place `n` lines further down. -/
def NamespaceHead.shift (n : Nat) (h : NamespaceHead) : NamespaceHead :=
  { h with placement := h.placement.shift n }

mutual

/-- The statement `n` lines further down. -/
def Statement.shift (n : Nat) : Statement → Statement
  | .comment c => .comment (c.shift n)
  | .function f => .function (f.shift n)
  | .classDecl c => .classDecl (c.shift n)
  | .interfaceDecl i => .interfaceDecl (i.shift n)
  | .enumDecl e => .enumDecl (e.shift n)
  | .constDecl c => .constDecl (c.shift n)
  | .namespaceDecl head body => .namespaceDecl (head.shift n) (shiftEach n body)

/-- The statements `n` lines further down. -/
def shiftEach (n : Nat) : List Statement → List Statement
  | [] => []
  | statement :: more => statement.shift n :: shiftEach n more

end

theorem shiftEach_eq_map (n : Nat) (statements : List Statement) :
    shiftEach n statements = statements.map (Statement.shift n) := by
  induction statements with
  | nil => simp [shiftEach]
  | cons statement more ih => simp [shiftEach, ih]

end BrightDoc
