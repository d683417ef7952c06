import BrightDoc.Tree.Statement

/-! # Changing the functions of a tree

The tree with each of its functions changed by one rule, at any depth. All else in it stays as it is. -/

namespace BrightDoc

variable (g : FunctionDecl → FunctionDecl)

/-- The class member, with its function changed if it is a method. -/
def ClassItem.recast : ClassItem → ClassItem
  | comment c => comment c
  | field f => field f
  | method m => method { m with function := g m.function }

/-- The interface member, changed if it is a method. -/
def InterfaceItem.recast : InterfaceItem → InterfaceItem
  | comment c => comment c
  | field f => field f
  | method f => method (g f)

mutual

/-- The statement with its functions changed. -/
def Statement.recast : Statement → Statement
  | .comment c => .comment c
  | .function f => .function (g f)
  | .classDecl c => .classDecl { c with body := c.body.map (ClassItem.recast g) }
  | .interfaceDecl i => .interfaceDecl { i with body := i.body.map (InterfaceItem.recast g) }
  | .enumDecl e => .enumDecl e
  | .constDecl c => .constDecl c
  | .namespaceDecl head body => .namespaceDecl head (recastEach body)

/-- The statements with their functions changed. -/
def recastEach : List Statement → List Statement
  | [] => []
  | statement :: more => statement.recast :: recastEach more

end

theorem recastEach_eq_map (statements : List Statement) :
    recastEach g statements = statements.map (Statement.recast g) := by
  induction statements with
  | nil => simp [recastEach]
  | cons statement more ih => simp [recastEach, ih]

theorem ClassItem.recast_id (item : ClassItem) : item.recast id = item := by
  cases item <;> rfl

theorem InterfaceItem.recast_id (item : InterfaceItem) : item.recast id = item := by
  cases item <;> rfl

mutual

/-- The rule that changes no function changes no tree. -/
theorem Statement.recast_id : (statement : Statement) → statement.recast id = statement
  | .comment c | .function f | .enumDecl e | .constDecl c => by simp [Statement.recast]
  | .classDecl c => by
    simp [Statement.recast, funext ClassItem.recast_id]
  | .interfaceDecl i => by
    simp [Statement.recast, funext InterfaceItem.recast_id]
  | .namespaceDecl head body => by
    rw [Statement.recast, recastEach_id body]

theorem recastEach_id : (statements : List Statement) → recastEach id statements = statements
  | [] => by simp [recastEach]
  | statement :: more => by rw [recastEach, Statement.recast_id statement, recastEach_id more]

end

end BrightDoc
