import BrightDoc.Line.Layout
import BrightDoc.Proofs.Tree.Outline
import Mathlib.Data.List.Count
import Mathlib.Data.List.Range

/-! # The comment lines of an outline

Which comment lines of a text the nodes of an outline account for: a comment for its own lines, and a
declaration with a body of code for the lines that are skipped with it. How often a line is accounted
for is how many bodies of code it stands in and how many comments it is a line of. -/

namespace BrightDoc

/-- Whether the line with the given number is a comment line. -/
def isCommentAt (lines : List (List Char)) (index : Nat) : Bool :=
  lines[index]?.any Line.isComment

theorem isCommentAt_eq {lines : List (List Char)} {index : Nat} {text : List Char}
    (here : lines[index]? = some text) : isCommentAt lines index = Line.isComment text := by
  simp [isCommentAt, here]

/-- The numbers of the comment lines from the line `first` on and before the line `last`. -/
def commentLinesIn (lines : List (List Char)) (first last : Nat) : List Nat :=
  (List.range last).filter fun index => first ≤ index && isCommentAt lines index

theorem commentLinesIn_succ (lines : List (List Char)) {first last : Nat} (le : first ≤ last) :
    commentLinesIn lines first (last + 1) =
      commentLinesIn lines first last ++ if isCommentAt lines last then [last] else [] := by
  simp only [commentLinesIn, List.range_succ, List.filter_append, List.filter_singleton, le,
    decide_true, Bool.true_and, cond_eq_ite]

theorem commentLinesIn_self (lines : List (List Char)) (line : Nat) :
    commentLinesIn lines line line = [] := by
  simp only [commentLinesIn, List.filter_eq_nil_iff, List.mem_range]
  intro index before
  simp [Nat.not_le_of_lt before]

/-- A comment line is listed once if it lies between the two ends, and not at all otherwise. -/
theorem count_commentLinesIn {lines : List (List Char)} {index : Nat}
    (comment : isCommentAt lines index = true) (first last : Nat) :
    (commentLinesIn lines first last).count index = if first ≤ index ∧ index < last then 1 else 0 := by
  have nodup : (commentLinesIn lines first last).Nodup := List.nodup_range.filter _
  have member : index ∈ commentLinesIn lines first last ↔ first ≤ index ∧ index < last := by
    simp [commentLinesIn, comment, And.comm]
  simp only [nodup.count, member]

/-- Whether the line is one of those that the stretch covers. -/
def Range.covers (r : Range) (index : Nat) : Bool :=
  r.start.line ≤ index && index ≤ r.stop.line

theorem Range.covers_eq_false {r : Range} {index : Nat}
    (apart : r.stop.line < index ∨ index < r.start.line) : r.covers index = false := by
  simp only [Range.covers, Bool.and_eq_false_iff, decide_eq_false_iff_not]
  omega

/-- Whether the line comes after the first and before the last line of the stretch. -/
def Range.encloses (r : Range) (index : Nat) : Bool :=
  r.start.line < index && index < r.stop.line

mutual

/-- The comments in a node, at any depth. -/
def Outline.comments : Outline → List Comment
  | .comment c => [c]
  | .decl _ _ body => commentsWithin body

/-- The comments in some nodes, at any depth, in source order. -/
def commentsWithin : List Outline → List Comment
  | [] => []
  | node :: more => node.comments ++ commentsWithin more

end

mutual

/-- The comment lines that a node accounts for: its own ones if it is a comment, else those of its body,
and the ones skipped with its code. -/
def Outline.commentLines (lines : List (List Char)) : Outline → List Nat
  | .comment c => commentLinesIn lines c.range.start.line (c.range.stop.line + 1)
  | .decl header placement body =>
    commentLinesOf lines body ++
      if header.hasCode then
        commentLinesIn lines (placement.range.start.line + 1) placement.range.stop.line
      else []

/-- The comment lines that some nodes account for. -/
def commentLinesOf (lines : List (List Char)) : List Outline → List Nat
  | [] => []
  | node :: more => node.commentLines lines ++ commentLinesOf lines more

end

theorem commentLinesOf_append (lines : List (List Char)) (first second : List Outline) :
    commentLinesOf lines (first ++ second) =
      commentLinesOf lines first ++ commentLinesOf lines second := by
  induction first with
  | nil => simp [commentLinesOf]
  | cons node more ih => simp [commentLinesOf, ih]

theorem commentsWithin_append (first second : List Outline) :
    commentsWithin (first ++ second) = commentsWithin first ++ commentsWithin second := by
  induction first with
  | nil => simp [commentsWithin]
  | cons node more ih => simp [commentsWithin, ih]

theorem exists_of_mem_commentsWithin {nodes : List Outline} {c : Comment}
    (inside : c ∈ commentsWithin nodes) : ∃ node ∈ nodes, c ∈ node.comments := by
  induction nodes with
  | nil => simp [commentsWithin] at inside
  | cons node more ih =>
    rw [commentsWithin, List.mem_append] at inside
    rcases inside with inside | inside
    · exact ⟨node, List.mem_cons_self, inside⟩
    · obtain ⟨node, member, inside⟩ := ih inside
      exact ⟨node, List.mem_cons_of_mem _ member, inside⟩

@[simp] theorem commentLinesOf_nil (lines : List (List Char)) : commentLinesOf lines [] = [] := by
  simp [commentLinesOf]

@[simp] theorem commentLinesOf_singleton (lines : List (List Char)) (node : Outline) :
    commentLinesOf lines [node] = node.commentLines lines := by
  simp [commentLinesOf]

@[simp] theorem commentsWithin_singleton (node : Outline) : commentsWithin [node] = node.comments := by
  simp [commentsWithin]

/-- The declarations with a body of code in which the given line stands. -/
def codeAround (nodes : List Outline) (index : Nat) : List (Header × Placement) :=
  (declarationsOf nodes).filter fun found => found.1.hasCode && found.2.range.encloses index

/-- The comments that the given line is a line of. -/
def commentsOn (nodes : List Outline) (index : Nat) : List Comment :=
  (commentsWithin nodes).filter fun c => c.range.covers index

section Count

variable {lines : List (List Char)} {index : Nat}

theorem count_covered (comment : isCommentAt lines index = true) (r : Range) :
    (commentLinesIn lines r.start.line (r.stop.line + 1)).count index =
      if r.covers index then 1 else 0 := by
  rw [count_commentLinesIn comment]
  simp only [Range.covers, Nat.lt_succ_iff, Bool.and_eq_true, decide_eq_true_eq]

theorem count_enclosed (comment : isCommentAt lines index = true) (r : Range) :
    (commentLinesIn lines (r.start.line + 1) r.stop.line).count index =
      if r.encloses index then 1 else 0 := by
  rw [count_commentLinesIn comment]
  simp only [Range.encloses, Nat.succ_le_iff, Bool.and_eq_true, decide_eq_true_eq]

mutual

theorem count_commentLines (comment : isCommentAt lines index = true) (node : Outline) :
    (node.commentLines lines).count index =
      (codeAround [node] index).length + (commentsOn [node] index).length := by
  cases node with
  | comment c =>
    simp only [Outline.commentLines, codeAround, commentsOn, declarationsOf, commentsWithin_singleton,
      Outline.declarations, Outline.comments, count_covered comment, List.filter_cons]
    split <;> simp
  | decl header placement body =>
    have inner := count_commentLinesOf comment body
    simp only [codeAround, commentsOn] at inner
    simp only [Outline.commentLines, codeAround, commentsOn, declarationsOf, commentsWithin_singleton,
      Outline.declarations, Outline.comments, List.count_append, List.append_nil, List.filter_cons,
      inner]
    cases header.hasCode with
    | false => simp
    | true =>
      simp only [if_true, count_enclosed comment, Bool.true_and]
      split
      · simp only [List.length_cons]
        omega
      · omega

/-- How often a comment line is accounted for: once for each body of code around it, and once for each
comment that it is a line of. -/
theorem count_commentLinesOf (comment : isCommentAt lines index = true) (nodes : List Outline) :
    (commentLinesOf lines nodes).count index =
      (codeAround nodes index).length + (commentsOn nodes index).length := by
  cases nodes with
  | nil => simp [codeAround, commentsOn, declarationsOf, commentsWithin]
  | cons node more =>
    have first := count_commentLines comment node
    have rest := count_commentLinesOf comment more
    simp only [codeAround, commentsOn, declarationsOf, commentsWithin, List.append_nil] at first rest
    simp only [codeAround, commentsOn, declarationsOf, commentsWithin, commentLinesOf,
      List.count_append, List.filter_append, List.length_append, first, rest]
    omega

end

end Count

end BrightDoc
