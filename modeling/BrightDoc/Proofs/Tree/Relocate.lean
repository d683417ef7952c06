import BrightDoc.Proofs.Tree.Shift

/-! # Other places for a tree

A tree with each of its places changed by a rule, and nothing else. Moving a tree down is a rule of this
kind, and so is forgetting the columns of a tree. -/

namespace BrightDoc

/-- The place without its column. -/
def Position.flat (p : Position) : Position :=
  { line := p.line }

section Relocate

variable (g : Position → Position)

/-- The stretch with its ends changed. -/
def Range.relocate (r : Range) : Range :=
  ⟨g r.start, g r.stop⟩

/-- The comment with its places changed. -/
def Comment.relocate (c : Comment) : Comment :=
  { c with range := c.range.relocate g }

/-- The annotation with its places changed. -/
def Annotation.relocate (a : Annotation) : Annotation :=
  { a with range := a.range.relocate g }

/-- The place of a declaration and of its annotations, changed. -/
def Placement.relocate (p : Placement) : Placement :=
  { range := p.range.relocate g, annotations := p.annotations.map (·.relocate g) }

/-- The function with its places changed. -/
def FunctionDecl.relocate (f : FunctionDecl) : FunctionDecl :=
  { f with placement := f.placement.relocate g }

/-- The method with its places changed. -/
def Method.relocate (m : Method) : Method :=
  { m with function := m.function.relocate g }

/-- The class member with its places changed. -/
def ClassItem.relocate : ClassItem → ClassItem
  | comment c => comment (c.relocate g)
  | field f => field { f with placement := f.placement.relocate g }
  | method m => method (m.relocate g)

/-- The class with its places changed. -/
def ClassDecl.relocate (c : ClassDecl) : ClassDecl :=
  { c with body := c.body.map (ClassItem.relocate g), placement := c.placement.relocate g }

/-- The interface member with its places changed. -/
def InterfaceItem.relocate : InterfaceItem → InterfaceItem
  | comment c => comment (c.relocate g)
  | field f => field { f with range := f.range.relocate g }
  | method f => method (f.relocate g)

/-- The interface with its places changed. -/
def InterfaceDecl.relocate (i : InterfaceDecl) : InterfaceDecl :=
  { i with body := i.body.map (InterfaceItem.relocate g), placement := i.placement.relocate g }

/-- The enum member with its places changed. -/
def EnumItem.relocate : EnumItem → EnumItem
  | comment c => comment (c.relocate g)
  | member m => member { m with range := m.range.relocate g }

/-- The enum with its places changed. -/
def EnumDecl.relocate (e : EnumDecl) : EnumDecl :=
  { e with body := e.body.map (EnumItem.relocate g), placement := e.placement.relocate g }

/-- The constant with its places changed. -/
def ConstDecl.relocate (c : ConstDecl) : ConstDecl :=
  { c with placement := c.placement.relocate g }

/-- The name of a namespace with its places changed. -/
def NamespaceHead.relocate (h : NamespaceHead) : NamespaceHead :=
  { h with placement := h.placement.relocate g }

mutual

/-- The statement with its places changed. -/
def Statement.relocate : Statement → Statement
  | .comment c => .comment (c.relocate g)
  | .function f => .function (f.relocate g)
  | .classDecl c => .classDecl (c.relocate g)
  | .interfaceDecl i => .interfaceDecl (i.relocate g)
  | .enumDecl e => .enumDecl (e.relocate g)
  | .constDecl c => .constDecl (c.relocate g)
  | .namespaceDecl head body => .namespaceDecl (head.relocate g) (relocateEach body)

/-- The statements with their places changed. -/
def relocateEach : List Statement → List Statement
  | [] => []
  | statement :: more => statement.relocate :: relocateEach more

end

theorem relocateEach_eq_map (statements : List Statement) :
    relocateEach g statements = statements.map (Statement.relocate g) := by
  induction statements with
  | nil => simp [relocateEach]
  | cons statement more ih => simp [relocateEach, ih]

end Relocate

section Shift

variable (n : Nat)

theorem ClassItem.shift_eq_relocate :
    ClassItem.shift n = ClassItem.relocate (Position.shift n) := by
  funext item
  cases item <;> rfl

theorem InterfaceItem.shift_eq_relocate :
    InterfaceItem.shift n = InterfaceItem.relocate (Position.shift n) := by
  funext item
  cases item <;> rfl

theorem EnumItem.shift_eq_relocate :
    EnumItem.shift n = EnumItem.relocate (Position.shift n) := by
  funext item
  cases item <;> rfl

mutual

/-- Moving a statement down is a change of its places. -/
theorem Statement.shift_eq_relocate :
    (statement : Statement) → statement.shift n = statement.relocate (Position.shift n)
  | .comment c => by simp only [Statement.shift, Statement.relocate]; rfl
  | .function f => by simp only [Statement.shift, Statement.relocate]; rfl
  | .classDecl c => by
    simp only [Statement.shift, Statement.relocate, ClassDecl.shift, ClassDecl.relocate,
      ClassItem.shift_eq_relocate]
    rfl
  | .interfaceDecl i => by
    simp only [Statement.shift, Statement.relocate, InterfaceDecl.shift, InterfaceDecl.relocate,
      InterfaceItem.shift_eq_relocate]
    rfl
  | .enumDecl e => by
    simp only [Statement.shift, Statement.relocate, EnumDecl.shift, EnumDecl.relocate,
      EnumItem.shift_eq_relocate]
    rfl
  | .constDecl c => by simp only [Statement.shift, Statement.relocate]; rfl
  | .namespaceDecl head body => by
    simp only [Statement.shift, Statement.relocate, shiftEach_eq_relocateEach]
    rfl

theorem shiftEach_eq_relocateEach :
    (statements : List Statement) →
      shiftEach n statements = relocateEach (Position.shift n) statements
  | [] => by simp only [shiftEach, relocateEach]
  | statement :: more => by
    rw [shiftEach, relocateEach, Statement.shift_eq_relocate, shiftEach_eq_relocateEach]

end

end Shift

end BrightDoc
