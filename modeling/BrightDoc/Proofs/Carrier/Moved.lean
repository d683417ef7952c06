import BrightDoc.Carrier.Plan
import BrightDoc.Proofs.Tree.Relocate

/-! # The carrier of a moved tree

A tree has the same entries wherever its text stands and however its lines are indented: its places only
decide which comment documents which declaration, and for that only the distances of their lines
matter. -/

namespace BrightDoc

/-- The rule moves every place down by `n` lines, to any column. -/
def MovesLines (n : Nat) (g : Position → Position) : Prop :=
  ∀ p, (g p).line = p.line + n

theorem movesLines_shift (n : Nat) : MovesLines n (Position.shift n) :=
  fun _ => rfl

theorem movesLines_flat : MovesLines 0 Position.flat :=
  fun _ => rfl

section Places

variable {n : Nat} {g : Position → Position}

namespace Placement

theorem topLine_relocate (moves : MovesLines n g) (p : Placement) :
    (p.relocate g).topLine = p.topLine + n := by
  obtain ⟨range, annotations⟩ := p
  cases annotations with
  | nil => exact moves range.start
  | cons a more => exact moves a.range.start

/-- What documents a declaration does so wherever both stand. -/
theorem isDocumentedBy_relocate (moves : MovesLines n g) (p : Placement) (c : Comment) :
    (p.relocate g).isDocumentedBy (c.relocate g) = p.isDocumentedBy c := by
  rw [isDocumentedBy, isDocumentedBy, topLine_relocate moves, Bool.eq_iff_iff]
  simp only [Comment.relocate, Placement.relocate, Range.relocate, moves _, Bool.or_eq_true, beq_iff_eq]
  omega

theorem comment?_relocate (moves : MovesLines n g) (p : Placement) (comments : List Comment) :
    (p.relocate g).comment? (comments.map (Comment.relocate g)) =
      (p.comment? comments).map (Comment.relocate g) := by
  simp only [comment?, List.find?_map, Function.comp_def, isDocumentedBy_relocate moves]

theorem topLine_shift (n : Nat) (p : Placement) : (p.shift n).topLine = p.topLine + n :=
  topLine_relocate (movesLines_shift n) p

end Placement

/-- The comments among moved items are the comments among the items, moved. -/
theorem filterMap_comment?_relocate {Item : Type} {move : Item → Item}
    {comment? : Item → Option Comment}
    (moved : ∀ item, comment? (move item) = (comment? item).map (Comment.relocate g))
    (items : List Item) :
    (items.map move).filterMap comment? = (items.filterMap comment?).map (Comment.relocate g) := by
  rw [List.filterMap_map, List.map_filterMap]
  congr 1
  funext item
  exact moved item

theorem ClassItem.comment?_relocate (item : ClassItem) :
    (item.relocate g).comment? = item.comment?.map (Comment.relocate g) := by
  cases item <;> rfl

theorem InterfaceItem.comment?_relocate (item : InterfaceItem) :
    (item.relocate g).comment? = item.comment?.map (Comment.relocate g) := by
  cases item <;> rfl

theorem Statement.comment?_relocate (statement : Statement) :
    (statement.relocate g).comment? = statement.comment?.map (Comment.relocate g) := by
  cases statement <;>
    simp only [Statement.relocate, Statement.comment?, Option.map_some, Option.map_none]

theorem filterMap_comment?_shift (n : Nat) (statements : List Statement) :
    (statements.map (Statement.shift n)).filterMap Statement.comment? =
      (statements.filterMap Statement.comment?).map (Comment.shift n) := by
  rw [funext (Statement.shift_eq_relocate n)]
  exact filterMap_comment?_relocate Statement.comment?_relocate statements

theorem Statement.placement?_shift (n : Nat) (statement : Statement) :
    (statement.shift n).placement? = statement.placement?.map (Placement.shift n) := by
  cases statement <;>
    simp only [Statement.shift, Statement.placement?, Option.map_some, Option.map_none] <;> rfl

end Places

end BrightDoc

namespace BrightDoc.Carrier

variable {n : Nat} {g : Position → Position} (escape : Bool) (scope : Scope)

section Declarations

variable (comment : Option Comment) (comments : List Comment)

theorem linesOf_relocate :
    Doc.linesOf escape (comment.map (Comment.relocate g)) = Doc.linesOf escape comment := by
  cases comment <;> rfl

theorem summary_relocate :
    Doc.summary escape (comment.map (Comment.relocate g)) = Doc.summary escape comment := by
  cases comment <;> rfl

theorem functionDoc_relocate (f : FunctionDecl) :
    FunctionDoc.of escape (comment.map (Comment.relocate g)) (f.relocate g) =
      FunctionDoc.of escape comment f := by
  simp only [FunctionDoc.of, linesOf_relocate]
  rfl

theorem functionPieces_relocate (f : FunctionDecl) :
    functionPieces escape scope (comment.map (Comment.relocate g)) (f.relocate g) =
      functionPieces escape scope comment f := by
  simp only [functionPieces, functionDoc_relocate]
  rfl

theorem methodPieces_relocate (owner : String) (m : Method) :
    methodPieces escape owner (comment.map (Comment.relocate g)) (m.relocate g) =
      methodPieces escape owner comment m := by
  simp only [methodPieces, Method.relocate, functionDoc_relocate]
  rfl

theorem interfaceMethodPieces_relocate (owner : String) (f : FunctionDecl) :
    interfaceMethodPieces escape owner (comment.map (Comment.relocate g)) (f.relocate g) =
      interfaceMethodPieces escape owner comment f := by
  simp only [interfaceMethodPieces, functionDoc_relocate]
  rfl

variable (moves : MovesLines n g)

include moves

theorem fieldTag_relocate (f : Field) :
    fieldTag escape (comments.map (Comment.relocate g))
        { f with placement := f.placement.relocate g } =
      fieldTag escape comments f := by
  simp only [fieldTag, Placement.comment?_relocate moves, summary_relocate]

theorem interfaceFieldTag_relocate (f : InterfaceField) :
    interfaceFieldTag escape (comments.map (Comment.relocate g))
        { f with range := f.range.relocate g } =
      interfaceFieldTag escape comments f := by
  have matched := Placement.comment?_relocate moves { range := f.range } comments
  simp only [Placement.relocate, List.map_nil] at matched
  simp only [interfaceFieldTag, matched, summary_relocate]

theorem classPieces_relocate (c : ClassDecl) :
    classPieces escape scope (comment.map (Comment.relocate g)) (c.relocate g) =
      classPieces escape scope comment c := by
  simp only [classPieces, ClassDecl.relocate, linesOf_relocate, List.flatMap_map,
    filterMap_comment?_relocate ClassItem.comment?_relocate]
  congr 6
  · funext item
    cases item with
    | field f => exact fieldTag_relocate escape _ moves f
    | comment c => rfl
    | method m => rfl
  · funext item
    cases item with
    | method m =>
      have place : (m.relocate g).function.placement = m.function.placement.relocate g := rfl
      dsimp only [ClassItem.relocate]
      rw [place, Placement.comment?_relocate moves, methodPieces_relocate]
    | comment c => rfl
    | field f => rfl

theorem interfacePieces_relocate (i : InterfaceDecl) :
    interfacePieces escape scope (comment.map (Comment.relocate g)) (i.relocate g) =
      interfacePieces escape scope comment i := by
  simp only [interfacePieces, InterfaceDecl.relocate, linesOf_relocate, List.flatMap_map,
    filterMap_comment?_relocate InterfaceItem.comment?_relocate]
  congr 6
  · funext item
    cases item with
    | field f => exact congrArg (fun tag => [tag]) (interfaceFieldTag_relocate escape _ moves f)
    | comment c => rfl
    | method f => rfl
  · funext item
    cases item with
    | method f =>
      have place : (f.relocate g).placement = f.placement.relocate g := rfl
      dsimp only [InterfaceItem.relocate]
      rw [place, Placement.comment?_relocate moves, interfaceMethodPieces_relocate]
    | comment c => rfl
    | field f => rfl

omit moves

theorem enumPieces_relocate (e : EnumDecl) :
    enumPieces escape scope (comment.map (Comment.relocate g)) (e.relocate g) =
      enumPieces escape scope comment e := by
  simp only [enumPieces, EnumDecl.relocate, linesOf_relocate, List.map_map]
  congr 4
  funext item
  cases item <;> rfl

theorem constPieces_relocate (c : ConstDecl) :
    constPieces escape scope (comment.map (Comment.relocate g)) (c.relocate g) =
      constPieces escape scope comment c := by
  simp only [constPieces, ConstDecl.relocate, linesOf_relocate]

theorem namespaceEntries_relocate (name : String) :
    namespaceEntries escape scope (comment.map (Comment.relocate g)) name =
      namespaceEntries escape scope comment name := by
  simp only [namespaceEntries, namespaceEntry, linesOf_relocate]

end Declarations

section Trees

variable {escape scope} {comments others : List Comment}

/-- What a statement gives depends on the comments only by the one that documents it. -/
theorem planStatement_congr {statement : Statement}
    (matched : ∀ p ∈ statement.placement?, p.comment? others = p.comment? comments) :
    planStatement escape scope others statement = planStatement escape scope comments statement := by
  cases statement with
  | comment c => simp only [planStatement]
  | function f => simp only [planStatement, matched f.placement rfl]
  | classDecl c => simp only [planStatement, matched c.placement rfl]
  | interfaceDecl i => simp only [planStatement, matched i.placement rfl]
  | enumDecl e => simp only [planStatement, matched e.placement rfl]
  | constDecl c => simp only [planStatement, matched c.placement rfl]
  | namespaceDecl head body => simp only [planStatement, matched head.placement rfl]

theorem planEach_congr {statements : List Statement}
    (matched : ∀ statement ∈ statements, ∀ p ∈ statement.placement?,
      p.comment? others = p.comment? comments) :
    planEach escape scope others statements = planEach escape scope comments statements := by
  induction statements with
  | nil => simp only [planEach]
  | cons statement more ih =>
    rw [List.forall_mem_cons] at matched
    rw [planEach, planEach, planStatement_congr matched.1, ih matched.2]

mutual

/-- A moved statement among moved comments gives the same entries. -/
theorem planStatement_relocate (moves : MovesLines n g) (scope : Scope) (comments : List Comment) :
    (statement : Statement) →
      planStatement escape scope (comments.map (Comment.relocate g)) (statement.relocate g) =
        planStatement escape scope comments statement
  | .comment c => by simp only [Statement.relocate, planStatement]
  | .function f => by
    have place : (f.relocate g).placement = f.placement.relocate g := rfl
    simp only [Statement.relocate, planStatement, place, Placement.comment?_relocate moves,
      functionPieces_relocate]
  | .classDecl c => by
    have place : (c.relocate g).placement = c.placement.relocate g := rfl
    simp only [Statement.relocate, planStatement, place, Placement.comment?_relocate moves,
      classPieces_relocate escape scope _ moves]
  | .interfaceDecl i => by
    have place : (i.relocate g).placement = i.placement.relocate g := rfl
    simp only [Statement.relocate, planStatement, place, Placement.comment?_relocate moves,
      interfacePieces_relocate escape scope _ moves]
  | .enumDecl e => by
    have place : (e.relocate g).placement = e.placement.relocate g := rfl
    simp only [Statement.relocate, planStatement, place, Placement.comment?_relocate moves,
      enumPieces_relocate]
  | .constDecl c => by
    have place : (c.relocate g).placement = c.placement.relocate g := rfl
    simp only [Statement.relocate, planStatement, place, Placement.comment?_relocate moves,
      constPieces_relocate]
  | .namespaceDecl head body => by
    have place : (head.relocate g).placement = head.placement.relocate g := rfl
    have name : (head.relocate g).name = head.name := rfl
    simp only [Statement.relocate, planStatement, place, name, Placement.comment?_relocate moves,
      namespaceEntries_relocate, relocateEach_eq_map,
      filterMap_comment?_relocate Statement.comment?_relocate]
    rw [← relocateEach_eq_map, planEach_relocate moves]

/-- Moved statements among moved comments give the same entries. -/
theorem planEach_relocate (moves : MovesLines n g) (scope : Scope) (comments : List Comment) :
    (statements : List Statement) →
      planEach escape scope (comments.map (Comment.relocate g)) (relocateEach g statements) =
        planEach escape scope comments statements
  | [] => by simp only [relocateEach, planEach]
  | statement :: more => by
    rw [relocateEach, planEach, planEach, planStatement_relocate moves, planEach_relocate moves]

end

theorem planEach_shift (n : Nat) (scope : Scope) (comments : List Comment)
    (statements : List Statement) :
    planEach escape scope (comments.map (Comment.shift n)) (shiftEach n statements) =
      planEach escape scope comments statements := by
  rw [shiftEach_eq_relocateEach]
  exact planEach_relocate (movesLines_shift n) scope comments statements

end Trees

end BrightDoc.Carrier
