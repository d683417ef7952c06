import BrightDoc.Tree.Statement

/-! # Outlines

The tree of a source text in one shape for all its lists of siblings: top level, namespaces, classes,
interfaces and enums alike hold comments and declarations, and a declaration has a header, a place and
a body. Nothing is lost on the way from a tree to its outline, so a statement about every list of
siblings of a tree is one about the lists that `SiblingList` reaches from the outline. -/

namespace BrightDoc

/-- What the header of a function says. -/
structure Signature where
  name : String
  kind : FunctionKind
  params : List Param
  returns : Option TypeRef

/-- The signature of a function. -/
def FunctionDecl.signature (f : FunctionDecl) : Signature :=
  { name := f.name, kind := f.kind, params := f.params, returns := f.returns }

/-- What the first line of a declaration says. -/
inductive Header where
  | function (signature : Signature)
  | classDecl (name : String) (parent : Option String)
  | method (signature : Signature) (access : Option Access) (overrides : Bool)
  | field (name : String) (type : Option TypeRef) (access : Option Access)
  | interfaceDecl (name : String) (parent : Option String)
  | interfaceField (name : String) (typeToken : Option String)
  | interfaceMethod (signature : Signature)
  | enumDecl (name : String)
  | enumMember (name value : String)
  | constDecl (name : String) (value : Expression)
  | namespaceDecl (name : String)

namespace Header

/-- Whether the declaration is a single line, which a comment of the same list may follow. -/
def isOneLine : Header → Bool
  | field .. | interfaceField .. | interfaceMethod .. | enumMember .. | constDecl .. => true
  | _ => false

/-- Whether the declaration has a body of code, which is not part of the tree. -/
def hasCode : Header → Bool
  | function .. | method .. => true
  | _ => false

/-- A single line declares no body of code. -/
theorem hasCode_of_isOneLine {header : Header} (oneLine : header.isOneLine = true) :
    header.hasCode = false := by
  cases header <;> first | rfl | cases oneLine

/-- Whether the declaration is an enum, in which no line is an annotation. -/
def isEnum : Header → Bool
  | enumDecl .. => true
  | _ => false

/-- The signature in the header, if it is one of a function. -/
def signature? : Header → Option Signature
  | function signature | method signature _ _ | interfaceMethod signature => some signature
  | _ => none

end Header

/-- A comment or a declaration of an outline. -/
inductive Outline where
  | comment (comment : Comment)
  | decl (header : Header) (placement : Placement) (body : List Outline)

namespace Outline

/-- The stretch of source text that a node covers. -/
def range : Outline → Range
  | comment c => c.range
  | decl _ placement _ => placement.range

/-- The comment, if the node is one. -/
def comment? : Outline → Option Comment
  | comment c => some c
  | decl _ _ _ => none

/-- Whether the node is a declaration on a single line. -/
def isOneLine : Outline → Bool
  | comment _ => false
  | decl header _ _ => header.isOneLine

end Outline

/-- The comments of a list of siblings. -/
def commentsOf (siblings : List Outline) : List Comment :=
  siblings.filterMap Outline.comment?

/-- A class member in outline. -/
def ClassItem.outline : ClassItem → Outline
  | comment c => .comment c
  | field f => .decl (.field f.name f.type f.access) f.placement []
  | method m =>
    .decl (.method m.function.signature m.access m.overrides) m.function.placement []

/-- An interface member in outline. Fields have no annotations. -/
def InterfaceItem.outline : InterfaceItem → Outline
  | comment c => .comment c
  | field f => .decl (.interfaceField f.name f.typeToken) { range := f.range } []
  | method f => .decl (.interfaceMethod f.signature) f.placement []

/-- An enum member in outline. -/
def EnumItem.outline : EnumItem → Outline
  | comment c => .comment c
  | member m => .decl (.enumMember m.name m.value) { range := m.range } []

mutual

/-- A statement in outline. -/
def Statement.outline : Statement → Outline
  | .comment c => .comment c
  | .function f => .decl (.function f.signature) f.placement []
  | .classDecl c => .decl (.classDecl c.name c.parent) c.placement (c.body.map ClassItem.outline)
  | .interfaceDecl i =>
    .decl (.interfaceDecl i.name i.parent) i.placement (i.body.map InterfaceItem.outline)
  | .enumDecl e => .decl (.enumDecl e.name) e.placement (e.body.map EnumItem.outline)
  | .constDecl c => .decl (.constDecl c.name c.value) c.placement []
  | .namespaceDecl head body => .decl (.namespaceDecl head.name) head.placement (outlines body)

/-- A list of statements in outline. -/
def outlines : List Statement → List Outline
  | [] => []
  | statement :: more => statement.outline :: outlines more

end

theorem outlines_eq_map (statements : List Statement) :
    outlines statements = statements.map Statement.outline := by
  induction statements with
  | nil => simp [outlines]
  | cons statement more ih => simp [outlines, ih]

mutual

/-- The headers of a node's declarations with their places, each before those of its body. -/
def Outline.declarations : Outline → List (Header × Placement)
  | .comment _ => []
  | .decl header placement body => (header, placement) :: declarationsOf body

/-- The headers of some nodes' declarations with their places, in source order. -/
def declarationsOf : List Outline → List (Header × Placement)
  | [] => []
  | node :: more => node.declarations ++ declarationsOf more

end

theorem declarationsOf_append (first second : List Outline) :
    declarationsOf (first ++ second) = declarationsOf first ++ declarationsOf second := by
  induction first with
  | nil => simp [declarationsOf]
  | cons node more ih => simp [declarationsOf, ih]

theorem exists_of_mem_declarationsOf {nodes : List Outline} {found : Header × Placement}
    (inside : found ∈ declarationsOf nodes) : ∃ node ∈ nodes, found ∈ node.declarations := by
  induction nodes with
  | nil => simp [declarationsOf] at inside
  | cons node more ih =>
    rw [declarationsOf, List.mem_append] at inside
    rcases inside with inside | inside
    · exact ⟨node, List.mem_cons_self, inside⟩
    · obtain ⟨node, member, inside⟩ := ih inside
      exact ⟨node, List.mem_cons_of_mem _ member, inside⟩

/-- A property of all headers in a node. -/
def Outline.All (P : Header → Prop) (node : Outline) : Prop :=
  ∀ found ∈ node.declarations, P found.1

theorem all_comment {P : Header → Prop} (c : Comment) : (Outline.comment c).All P := by
  intro found inside
  rw [Outline.declarations] at inside
  cases inside

theorem forall_declarationsOf {P : Header → Prop} {nodes : List Outline} :
    (∀ found ∈ declarationsOf nodes, P found.1) ↔ ∀ node ∈ nodes, node.All P := by
  induction nodes with
  | nil => simp [declarationsOf]
  | cons node more ih =>
    rw [declarationsOf, List.forall_mem_append, List.forall_mem_cons, ih]
    exact Iff.rfl

theorem all_decl {P : Header → Prop} {header : Header} {placement : Placement}
    {body : List Outline} :
    (Outline.decl header placement body).All P ↔ P header ∧ ∀ node ∈ body, node.All P := by
  rw [Outline.All, Outline.declarations, List.forall_mem_cons, forall_declarationsOf]

theorem all_leaf {P : Header → Prop} {header : Header} {placement : Placement} :
    (Outline.decl header placement []).All P ↔ P header := by
  rw [all_decl]
  exact and_iff_left (by simp)

/-- The lists of siblings in an outline, each with the declaration whose body it is; the list of the
roots has none. -/
inductive SiblingList (roots : List Outline) : Option (Header × Placement) → List Outline → Prop where
  | root : SiblingList roots none roots
  | body {owner : Option (Header × Placement)} {siblings : List Outline} {header : Header}
      {placement : Placement} {body : List Outline} (outer : SiblingList roots owner siblings)
      (member : .decl header placement body ∈ siblings) :
      SiblingList roots (some (header, placement)) body

/-- What stands in a list of siblings is among the declarations of the outline. -/
theorem mem_declarationsOf {nodes : List Outline} {header : Header} {placement : Placement}
    {body : List Outline} (member : .decl header placement body ∈ nodes) :
    (header, placement) ∈ declarationsOf nodes ∧
      ∀ inner ∈ declarationsOf body, inner ∈ declarationsOf nodes := by
  induction nodes with
  | nil => simp at member
  | cons node more ih =>
    rcases List.mem_cons.mp member with rfl | member
    · simp only [declarationsOf, Outline.declarations, List.cons_append, List.mem_cons, true_or,
        true_and, List.mem_append]
      intro inner found
      exact Or.inr (Or.inl found)
    · have found := ih member
      simp only [declarationsOf, List.mem_append]
      exact ⟨Or.inr found.1, fun inner inside => Or.inr (found.2 inner inside)⟩

/-- The declarations of every list of siblings are among those of the outline. -/
theorem SiblingList.declarations_subset {roots : List Outline} {owner : Option (Header × Placement)}
    {siblings : List Outline} (reached : SiblingList roots owner siblings) :
    ∀ found ∈ declarationsOf siblings, found ∈ declarationsOf roots := by
  induction reached with
  | root => intro found inside; exact inside
  | body outer member ih =>
    intro found inside
    exact ih found ((mem_declarationsOf member).2 found inside)

end BrightDoc
