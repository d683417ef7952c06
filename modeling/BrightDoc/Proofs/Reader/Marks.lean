import BrightDoc.Proofs.Reader.Simulation
import Mathlib.Data.List.Basic
import Mathlib.Data.List.Pairwise

/-! # The lines that declarations mark

A declaration marks the lines of its annotations and its own first line. Every line of a text adds
at most its own mark after all that are there, so in the order of the declarations the marks of an
outline grow from each one to the next: no two declarations, and no two annotations, share a line. -/

namespace BrightDoc

variable {dialect : Dialect}

/-- The lines of a declaration's annotations and its first line. -/
def Placement.marks (p : Placement) : List Nat :=
  p.annotations.map (fun a => a.range.start.line) ++ [p.range.start.line]

/-- The marks of all declarations in some nodes, in the order of the declarations. -/
def marksOf (nodes : List Outline) : List Nat :=
  (declarationsOf nodes).flatMap fun found => found.2.marks

theorem marksOf_append (first second : List Outline) :
    marksOf (first ++ second) = marksOf first ++ marksOf second := by
  rw [marksOf, declarationsOf_append, List.flatMap_append]
  rfl

@[simp] theorem marksOf_nil : marksOf [] = [] := by
  simp [marksOf, declarationsOf]

@[simp] theorem marksOf_comment (c : Comment) : marksOf [.comment c] = [] := by
  simp [marksOf, declarationsOf, Outline.declarations]

@[simp] theorem marksOf_decl (header : Header) (placement : Placement) (body : List Outline) :
    marksOf [.decl header placement body] = placement.marks ++ marksOf body := by
  simp [marksOf, declarationsOf, Outline.declarations]

@[simp] theorem marksOf_reverse_trailingNodes (l : SourceLine) :
    marksOf l.trailingNodes.reverse = [] := by
  cases found : l.trailing? with
  | none => simp [trailingNodes_of_none found]
  | some c => simp [trailingNodes_of_some found]

/-- The marks of an open declaration. -/
def Head.marks (head : Head) : List Nat :=
  head.annotations.map (fun a => a.range.start.line) ++ [head.start.line]

/-- The marks in the open lists, from the outermost to the innermost one. -/
def levelMarks : List Level → List Nat
  | [] => []
  | level :: outer =>
    levelMarks outer ++ (level.head.elim [] Head.marks ++ marksOf level.nodes.reverse)

/-- The marks of what has been read, and those of the annotations that wait. -/
def Sketch.marks (s : Sketch) : List Nat :=
  levelMarks s.levels ++ s.pending.map fun a => a.range.start.line

/-- What holds of the marks before the given line. -/
structure Sketch.Marked (line : Nat) (s : Sketch) : Prop where
  increasing : s.marks.Pairwise (· < ·)
  before : ∀ mark ∈ s.marks, mark < line
  quiet : s.inEnum = true → s.pending = []

/-- Nodes that are added to a list bring their own marks. -/
theorem levelMarks_push (head : Option Head) (added nodes : List Outline) (outer : List Level) :
    levelMarks (⟨head, added ++ nodes⟩ :: outer) =
      levelMarks (⟨head, nodes⟩ :: outer) ++ marksOf added.reverse := by
  simp only [levelMarks, List.reverse_append, marksOf_append, List.append_assoc]

theorem levelMarks_item (l : SourceLine) (head : Option Head) (nodes : List Outline)
    (outer : List Level) (header : Header) (annotations : List Annotation) :
    levelMarks (⟨head, l.trailingNodes ++
        .decl header { range := header.rangeOn l, annotations } [] :: nodes⟩ :: outer) =
      levelMarks (⟨head, nodes⟩ :: outer) ++
        (annotations.map (fun a => a.range.start.line) ++ [l.index]) := by
  rw [List.append_cons, levelMarks_push, List.reverse_append, marksOf_append,
    marksOf_reverse_trailingNodes, List.append_nil, List.reverse_singleton, marksOf_decl,
    marksOf_nil, List.append_nil, Placement.marks, (header.rangeOn_line l).1]

theorem levelMarks_openBlock (l : SourceLine) (levels : List Level) (header : Header)
    (annotations : List Annotation) :
    levelMarks (⟨some { header, start := l.start, annotations },
        if header.hasCode then [] else l.trailingNodes⟩ :: levels) =
      levelMarks levels ++ (annotations.map (fun a => a.range.start.line) ++ [l.index]) := by
  have body : marksOf (if header.hasCode then [] else l.trailingNodes).reverse = [] := by
    split
    · exact marksOf_nil
    · exact marksOf_reverse_trailingNodes l
  rw [levelMarks, body, List.append_nil]
  rfl

theorem levelMarks_closeBlock (l : SourceLine) (head : Head) (nodes siblings : List Outline)
    (outside : Option Head) (outer : List Level) :
    levelMarks (⟨outside, head.close l nodes.reverse :: siblings⟩ :: outer) =
      levelMarks (⟨some head, nodes⟩ :: ⟨outside, siblings⟩ :: outer) := by
  have pushed := levelMarks_push outside [head.close l nodes.reverse] siblings outer
  rw [List.reverse_singleton, Head.close, marksOf_decl] at pushed
  exact pushed

theorem pending_closeRun (s : Sketch) : s.closeRun.pending = s.pending := by
  obtain ⟨levels, run, pending⟩ := s
  cases run with
  | none => rfl
  | some c => cases levels <;> rfl

theorem marks_closeRun (s : Sketch) : s.closeRun.marks = s.marks := by
  obtain ⟨levels, run, pending⟩ := s
  cases run with
  | none => rfl
  | some c =>
    cases levels with
    | nil => rfl
    | cons level outer =>
      have pushed := levelMarks_push level.head [.comment c] level.nodes outer
      rw [List.reverse_singleton, marksOf_comment, List.append_nil] at pushed
      exact congrArg (· ++ pending.map fun a => a.range.start.line) pushed

/-- A line marks at most itself, after all marks that are there. -/
theorem marks_act {l : SourceLine} {s t : Sketch} (quiet : s.inEnum = true → s.pending = [])
    (act : Act l s t) : t.marks.Sublist (s.marks ++ [l.index]) := by
  cases act with
  | @rest levels pending left kept =>
    rcases kept with rfl | rfl
    · exact List.sublist_append_left _ _
    · rw [Sketch.marks, Sketch.marks, List.map_nil, List.append_nil, List.append_assoc]
      exact List.sublist_append_left _ _
  | annotate found outside =>
    rw [Sketch.marks, Sketch.marks, List.map_append, ← List.append_assoc]
    exact List.Sublist.refl _
  | @item head nodes outer pending annotations header reads oneLine taken =>
    rw [Sketch.marks, Sketch.marks, levelMarks_item, List.map_nil, List.append_nil,
      List.append_assoc]
    apply List.Sublist.append (List.Sublist.refl _)
    rcases taken with rfl | rfl
    · exact List.Sublist.refl _
    · exact List.sublist_append_right _ _
  | @member head nodes outer pending name value inEnum reads =>
    -- Inside an enum nothing waits, so the mark of the member comes last.
    have none : pending = [] := by
      apply quiet
      simp [Sketch.inEnum, Sketch.heads, inEnum]
    subst none
    have added := levelMarks_item l (some head) nodes outer (.enumMember name value) []
    rw [Sketch.marks, Sketch.marks, List.map_nil, List.append_nil, List.append_nil]
    rw [List.map_nil, List.nil_append] at added
    exact added ▸ List.Sublist.refl _
  | openBlock reads block =>
    rw [Sketch.marks, Sketch.marks, levelMarks_openBlock, List.map_nil, List.append_nil,
      List.append_assoc]
  | closeBlock =>
    rw [Sketch.marks, levelMarks_closeBlock]
    exact List.sublist_append_left _ _

theorem quiet_act {l : SourceLine} {s t : Sketch} (quiet : s.inEnum = true → s.pending = [])
    (act : Act l s t) : t.inEnum = true → t.pending = [] := by
  intro inside
  cases act with
  | rest kept =>
    rcases kept with rfl | rfl
    · exact quiet inside
    · rfl
  | @annotate levels pending name found outside =>
    have same : Sketch.inEnum ⟨levels, none, pending⟩ = true := inside
    rw [outside] at same
    cases same
  | item reads oneLine taken => rfl
  | member inEnum reads => exact quiet inside
  | openBlock reads block => rfl
  | closeBlock =>
    apply quiet
    simp only [Sketch.inEnum, Sketch.heads, List.any_eq_true] at inside ⊢
    obtain ⟨head, member, isEnum⟩ := inside
    exact ⟨head, List.mem_cons_of_mem _ member, isEnum⟩

theorem marked_act {l : SourceLine} {s t : Sketch} (marked : s.Marked l.index)
    (act : Act l s t) : t.Marked (l.index + 1) := by
  have sublist := marks_act marked.quiet act
  refine ⟨?_, ?_, quiet_act marked.quiet act⟩
  · apply List.Pairwise.sublist sublist
    rw [List.pairwise_append]
    refine ⟨marked.increasing, List.pairwise_singleton _ _, ?_⟩
    intro mark member last isLast
    rw [List.mem_singleton.mp isLast]
    exact marked.before mark member
  · intro mark member
    rcases List.mem_append.mp (sublist.subset member) with member | member
    · exact Nat.lt_succ_of_lt (marked.before mark member)
    · rw [List.mem_singleton.mp member]
      exact Nat.lt_succ_self _

/-- The comment lines just read mark nothing. -/
theorem Sketch.Marked.anyRun {line : Nat} {levels : List Level} {run : Option Comment}
    {pending : List Annotation} (marked : Sketch.Marked line ⟨levels, run, pending⟩)
    (other : Option Comment) : Sketch.Marked line ⟨levels, other, pending⟩ :=
  ⟨marked.increasing, marked.before, marked.quiet⟩

theorem marked_move {l : SourceLine} {s t : Sketch} (marked : s.Marked l.index)
    (move : Move l s t) : t.Marked (l.index + 1) := by
  have resting : s.Marked (l.index + 1) :=
    ⟨marked.increasing, fun mark member => Nat.lt_succ_of_lt (marked.before mark member),
      marked.quiet⟩
  cases move with
  | inCode inside => exact resting
  | endCode code => exact (marked_act (marked.anyRun none) Act.closeBlock).anyRun _
  | gather outside comment =>
    obtain ⟨levels, run, pending⟩ := s
    cases run <;> exact resting.anyRun _
  | act outside notComment act =>
    apply marked_act _ act
    have marks := marks_closeRun s
    refine ⟨?_, ?_, ?_⟩
    · rw [marks]
      exact marked.increasing
    · rw [marks]
      exact marked.before
    · intro inside
      rw [Sketch.inEnum, Sketch.heads_closeRun] at inside
      rw [pending_closeRun]
      exact marked.quiet inside

/-- The marks of what is read of a text grow from each one to the next. -/
theorem marked_of_read {lines : List (List Char)} {t : ReaderState}
    (read : (readFrom dialect 0 {} lines).result = .ok t) : t.sketch.Marked lines.length := by
  apply sketch_of_read read
  · exact ⟨List.Pairwise.nil, by simp [Sketch.marks, Sketch.start, levelMarks], fun _ => rfl⟩
  · intro index text s t here marked move
    exact marked_move marked move

end BrightDoc
