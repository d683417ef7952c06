import BrightDoc.Proofs.Line.Comments
import BrightDoc.Proofs.Reader.Declared
import BrightDoc.Proofs.Reader.Nesting
import BrightDoc.Proofs.Tree.CommentLines

/-! # Comments that end a header line

A comment may end the first line of a declaration. The line gives it to the tree, beside the declaration
or at the start of its body, and no other line gives a comment that reaches there; but where a body of
code follows, the comment is dropped. `Records` says for one line what is declared and which comments
come with it, and `Sketch.Headed` carries this through a text. -/

namespace BrightDoc

variable {dialect : Dialect}

@[simp] theorem commentsWithin_reverse_trailingNodes (l : SourceLine) :
    commentsWithin l.trailingNodes.reverse = l.trailing?.toList := by
  cases found : l.trailing? with
  | none => simp [trailingNodes_of_none found, commentsWithin]
  | some c => simp [trailingNodes_of_some found, Outline.comments]

/-- The comment that ends a line is on that line. -/
theorem SourceLine.trailing?_line {l : SourceLine} {c : Comment} (found : l.trailing? = some c) :
    c.range.start.line = l.index ∧ c.range.stop.line = l.index := by
  obtain ⟨text, -, rfl⟩ := Option.map_eq_some_iff.mp found
  exact ⟨rfl, rfl⟩

/-- The comments that a line gives to the tree as the first line of a declaration: the one that ends
the line, unless a body of code follows. -/
def SourceLine.headerComments (l : SourceLine) (header : Header) : List Comment :=
  if header.hasCode then [] else l.trailing?.toList

theorem SourceLine.headerComments_line {l : SourceLine} {header : Header} {c : Comment}
    (given : c ∈ l.headerComments header) :
    c.range.start.line = l.index ∧ c.range.stop.line = l.index := by
  rw [headerComments] at given
  split at given
  · cases given
  · exact trailing?_line (Option.mem_toList.mp given)

/-- The comments in the open lists, from the outermost to the innermost one. -/
def levelComments : List Level → List Comment
  | [] => []
  | level :: outer => levelComments outer ++ commentsWithin level.nodes.reverse

/-- The comments that have been read, but for the comment lines just above. -/
def Sketch.comments (s : Sketch) : List Comment :=
  levelComments s.levels

/-- Nodes that are added to a list bring their own comments. -/
theorem levelComments_push (head : Option Head) (added nodes : List Outline) (outer : List Level) :
    levelComments (⟨head, added ++ nodes⟩ :: outer) =
      levelComments (⟨head, nodes⟩ :: outer) ++ commentsWithin added.reverse := by
  simp only [levelComments, List.reverse_append, commentsWithin_append, List.append_assoc]

theorem comments_item (l : SourceLine) (head : Option Head) (nodes : List Outline)
    (outer : List Level) (header : Header) (placement : Placement) :
    levelComments (⟨head, l.trailingNodes ++ .decl header placement [] :: nodes⟩ :: outer) =
      levelComments (⟨head, nodes⟩ :: outer) ++ l.trailing?.toList := by
  rw [List.append_cons, levelComments_push, List.reverse_append, commentsWithin_append,
    commentsWithin_reverse_trailingNodes, List.reverse_singleton, commentsWithin_singleton,
    Outline.comments, commentsWithin, List.nil_append]

theorem comments_closeBlock (l : SourceLine) (head : Head) (nodes siblings : List Outline)
    (outside : Option Head) (outer : List Level) :
    levelComments (⟨outside, head.close l nodes.reverse :: siblings⟩ :: outer) =
      levelComments (⟨some head, nodes⟩ :: ⟨outside, siblings⟩ :: outer) := by
  have pushed := levelComments_push outside [head.close l nodes.reverse] siblings outer
  rw [List.reverse_singleton, commentsWithin_singleton, Head.close, Outline.comments] at pushed
  exact pushed

/-- `Records l s t`: between the two sketches the line `l` declares nothing and gives no comment, or it
declares something and gives the comments of its first line. -/
inductive Records (l : SourceLine) (s t : Sketch) : Prop where
  | nothing (declared : t.declared = s.declared) (comments : t.comments = s.comments)
  | header (head : Head) (declared : t.declared = s.declared ++ [head])
      (line : head.start.line = l.index)
      (comments : t.comments = s.comments ++ l.headerComments head.header)

theorem records_item {l : SourceLine} {head : Option Head} {nodes : List Outline}
    {outer : List Level} {run run' : Option Comment} {pending pending' annotations : List Annotation}
    {header : Header} (oneLine : header.isOneLine = true) :
    Records l ⟨⟨head, nodes⟩ :: outer, run, pending⟩
      ⟨⟨head, l.trailingNodes ++
        .decl header { range := header.rangeOn l, annotations } [] :: nodes⟩ :: outer, run',
        pending'⟩ := by
  refine .header _ (declared_item l head nodes outer header annotations) (header.rangeOn_line l).1 ?_
  rw [SourceLine.headerComments, Header.hasCode_of_isOneLine oneLine]
  exact comments_item l head nodes outer header _

theorem records_act {l : SourceLine} {s t : Sketch} (act : Act l s t) : Records l s t := by
  cases act with
  | rest kept => exact .nothing rfl rfl
  | annotate found outside => exact .nothing rfl rfl
  | item reads oneLine taken => exact records_item oneLine
  | @member head nodes outer pending name value inEnum reads =>
    exact records_item (show (Header.enumMember name value).isOneLine = true from rfl)
  | @openBlock levels pending header reads block =>
    refine .header _ (declared_openBlock l levels header pending) rfl ?_
    -- A body of code starts empty, whatever ends the line; any other body starts with the comment.
    rw [Sketch.comments, levelComments, SourceLine.headerComments]
    dsimp only
    split <;> simp [Sketch.comments, commentsWithin]
  | closeBlock => exact .nothing (declared_closeBlock l _ _ _ _ _) (comments_closeBlock l _ _ _ _ _)

/-- The comment lines just above add one comment at most. -/
theorem comments_closeRun (s : Sketch) :
    s.closeRun.comments = s.comments ∨ ∃ c ∈ s.run, s.closeRun.comments = s.comments ++ [c] := by
  obtain ⟨levels, run, pending⟩ := s
  cases run with
  | none => exact Or.inl rfl
  | some c =>
    cases levels with
    | nil => exact Or.inl rfl
    | cons level outer =>
      have pushed := levelComments_push level.head [.comment c] level.nodes outer
      rw [List.reverse_singleton, commentsWithin_singleton, Outline.comments] at pushed
      exact Or.inr ⟨c, rfl, pushed⟩

/-- The first line of the declaration gave just those of the comments that reach it. -/
def HeaderKept (lines : List (List Char)) (comments : List Comment) (head : Head) : Prop :=
  ∃ text, lines[head.start.line]? = some text ∧ Line.isComment text = false ∧
    comments.filter (fun c => c.range.covers head.start.line) =
      SourceLine.headerComments ⟨head.start.line, text⟩ head.header

/-- What holds of the comments and declarations before the given line. -/
structure Sketch.Headed (lines : List (List Char)) (line : Nat) (s : Sketch) : Prop where
  comments : ∀ c ∈ s.comments, c.range.stop.line < line
  heads : ∀ head ∈ s.declared, head.start.line < line ∧ HeaderKept lines s.comments head

section Headed

variable {lines : List (List Char)} {l : SourceLine} {s t : Sketch}

/-- Comments that do not reach the first line of a declaration change nothing for it. -/
theorem HeaderKept.append {comments added : List Comment} {head : Head}
    (kept : HeaderKept lines comments head)
    (apart : ∀ c ∈ added, c.range.covers head.start.line = false) :
    HeaderKept lines (comments ++ added) head := by
  obtain ⟨text, here, notComment, same⟩ := kept
  have none : added.filter (fun c => c.range.covers head.start.line) = [] := by
    rw [List.filter_eq_nil_iff]
    intro c member covered
    rw [apart c member] at covered
    cases covered
  refine ⟨text, here, notComment, ?_⟩
  rw [List.filter_append, none, List.append_nil, same]

theorem Sketch.Headed.transfer {first second : Nat} (headed : s.Headed lines first)
    (le : first ≤ second) (declared : t.declared = s.declared) (comments : t.comments = s.comments) :
    t.Headed lines second := by
  constructor
  · rw [comments]
    exact fun c member => Nat.lt_of_lt_of_le (headed.comments c member) le
  · rw [declared, comments]
    intro head member
    obtain ⟨before, kept⟩ := headed.heads head member
    exact ⟨Nat.lt_of_lt_of_le before le, kept⟩

/-- A comment of whole lines reaches no first line of a declaration. -/
theorem HeaderKept.not_covers {comments : List Comment} {head : Head} {c : Comment}
    (kept : HeaderKept lines comments head) (full : c.IsFullLine lines) :
    c.range.covers head.start.line = false := by
  obtain ⟨text, here, notComment, -⟩ := kept
  by_contra covered
  rw [Bool.not_eq_false, Range.covers, Bool.and_eq_true, decide_eq_true_eq, decide_eq_true_eq] at covered
  obtain ⟨other, there, comment⟩ := full _ covered.1 covered.2
  rw [here] at there
  cases there
  rw [notComment] at comment
  cases comment

theorem headed_closeRun {line : Nat} (nested : s.Nested lines line) (headed : s.Headed lines line) :
    s.closeRun.Headed lines line := by
  rcases comments_closeRun s with same | ⟨c, running, added⟩
  · exact headed.transfer (Nat.le_refl line) (declared_closeRun s) same
  obtain ⟨-, full, stop, -⟩ := nested.run c running
  constructor
  · rw [added]
    intro d member
    rcases List.mem_append.mp member with member | member
    · exact headed.comments d member
    · rw [List.mem_singleton.mp member]
      omega
  · rw [declared_closeRun, added]
    intro head member
    obtain ⟨before, kept⟩ := headed.heads head member
    refine ⟨before, kept.append ?_⟩
    intro d isRun
    rw [List.mem_singleton.mp isRun]
    exact kept.not_covers full

/-- A declaration that starts on the line gets what the line gives: no earlier comment reaches it. -/
theorem headerKept_here (headed : s.Headed lines l.index) (here : lines[l.index]? = some l.text)
    (notComment : Line.isComment l.text = false) {head : Head} (line : head.start.line = l.index) :
    HeaderKept lines (s.comments ++ l.headerComments head.header) head := by
  have old : s.comments.filter (fun c => c.range.covers l.index) = [] := by
    rw [List.filter_eq_nil_iff]
    intro c member
    rw [Range.covers_eq_false (Or.inl (headed.comments c member))]
    exact Bool.false_ne_true
  rw [HeaderKept, line]
  refine ⟨l.text, here, notComment, ?_⟩
  rw [List.filter_append, old, List.nil_append, List.filter_eq_self]
  intro c given
  simp [Range.covers, SourceLine.headerComments_line given]

theorem headed_records (headed : s.Headed lines l.index) (here : lines[l.index]? = some l.text)
    (notComment : Line.isComment l.text = false) (records : Records l s t) :
    t.Headed lines (l.index + 1) := by
  cases records with
  | nothing declared comments => exact headed.transfer (Nat.le_succ _) declared comments
  | header head declared line comments =>
    constructor
    · rw [comments]
      intro c member
      rcases List.mem_append.mp member with member | member
      · exact Nat.lt_succ_of_lt (headed.comments c member)
      · rw [(SourceLine.headerComments_line member).2]
        exact Nat.lt_succ_self _
    · rw [declared, comments]
      intro other member
      rcases List.mem_append.mp member with member | member
      · obtain ⟨before, kept⟩ := headed.heads other member
        refine ⟨Nat.lt_succ_of_lt before, kept.append ?_⟩
        intro c given
        rw [← (SourceLine.headerComments_line given).1] at before
        exact Range.covers_eq_false (Or.inr before)
      · rw [List.mem_singleton.mp member]
        exact ⟨line ▸ Nat.lt_succ_self _, headerKept_here headed here notComment line⟩

theorem headed_move (nested : s.Nested lines l.index) (headed : s.Headed lines l.index)
    (here : lines[l.index]? = some l.text) (move : Move l s t) : t.Headed lines (l.index + 1) := by
  cases move with
  | inCode inside => exact headed.transfer (Nat.le_succ _) rfl rfl
  | endCode code =>
    exact headed.transfer (Nat.le_succ _) (declared_closeBlock l _ _ _ _ _)
      (comments_closeBlock l _ _ _ _ _)
  | gather outside comment =>
    obtain ⟨levels, run, pending⟩ := s
    cases run <;> exact headed.transfer (Nat.le_succ _) rfl rfl
  | act outside notComment act =>
    exact headed_records (headed_closeRun nested headed) here notComment (records_act act)

end Headed

/-- The first lines of all declarations of a text keep their comments where the text has been read. -/
theorem headed_of_read {lines : List (List Char)} {t : ReaderState}
    (read : (readFrom dialect 0 {} lines).result = .ok t) : t.sketch.Headed lines lines.length := by
  have kept :=
    @sketch_of_read dialect (fun index s => s.Nested lines index ∧ s.Headed lines index) lines t read
  refine (kept ⟨nested_start lines, ?_, ?_⟩ ?_).2
  · simp [Sketch.comments, Sketch.start, levelComments, commentsWithin]
  · simp [Sketch.declared, Sketch.start, levelHeads]
  · rintro index text s u here ⟨nested, headed⟩ move
    exact ⟨nested_move nested here move, headed_move nested headed here move⟩

/-- The comments of a tree that reach the first line of a declaration are those that the line gave. -/
theorem commentsOn_header {lines : List (List Char)} {statements : List Statement}
    (read : (readLines dialect lines).result = .ok statements) {header : Header} {placement : Placement}
    (inside : (header, placement) ∈ declarationsOf (outlines statements)) :
    ∃ text, lines[placement.range.start.line]? = some text ∧
      commentsOn (outlines statements) placement.range.start.line =
        SourceLine.headerComments ⟨placement.range.start.line, text⟩ header := by
  obtain ⟨t, read, finished⟩ := readLines_ok read
  have headed := headed_closeRun (nested_of_read read) (headed_of_read read)
  have comments : t.sketch.closeRun.comments = commentsWithin (outlines statements) := by
    rw [Sketch.comments, ReaderState.finish_ok finished, levelComments, List.reverse_reverse]
    rfl
  have declared : t.sketch.closeRun.declared = headsOf (outlines statements) := by
    rw [declared_closeRun, declared_of_finish finished]
  have kept := headed.heads (Head.ofDeclaration (header, placement)) (by
    rw [declared]
    exact List.mem_map_of_mem inside)
  obtain ⟨-, text, here, -, same⟩ := kept
  rw [comments] at same
  exact ⟨text, here, same⟩

/-- A comment that ends the first line of a declaration is kept, as the only comment of the tree on that
line, exactly if no body of code follows. On the first line of a function or method with a body no comment
is kept at all. -/
theorem header_comment_kept_iff (dialect : Dialect) (source : String) (statements : List Statement)
    (parsed : (parse dialect source).result = .ok statements) :
    ∀ header placement, (header, placement) ∈ declarationsOf (outlines statements) →
      ∃ text, (Text.lines source.toList)[placement.range.start.line]? = some text ∧
        ∀ code comment, Line.EndsInComment text code comment →
          ((∃ c, commentsOn (outlines statements) placement.range.start.line = [c] ∧
              c.range.start.line = placement.range.start.line ∧
              c.range.stop.line = placement.range.start.line ∧
              c.text = String.ofList (Text.trim comment)) ↔ header.hasCode = false) ∧
          (header.hasCode = true →
            commentsOn (outlines statements) placement.range.start.line = []) := by
  intro header placement inside
  obtain ⟨text, here, same⟩ := commentsOn_header parsed inside
  refine ⟨text, here, ?_⟩
  intro code comment ends
  rw [same, SourceLine.headerComments]
  cases header.hasCode with
  | true => simp
  | false =>
    obtain ⟨c, found, said⟩ : ∃ c, SourceLine.trailing? ⟨placement.range.start.line, text⟩ = some c ∧
        c.text = String.ofList (Text.trim comment) := by
      rw [SourceLine.trailing?, Line.endsInComment_iff.mp ends]
      exact ⟨_, rfl, rfl⟩
    have line := SourceLine.trailing?_line found
    simp [found, line, said]

/-- The comment that ends the line of a field is kept, with an apostrophe in a literal before it. -/
theorem field_comment_kept :
    let line := " x = \"it's\" ' f "
    let noteC : Comment := { text := "' c", range := .onLine 0 8 11 }
    let noteF : Comment := { text := "' f", range := .onLine 1 12 15 }
    let field : Field :=
      { name := "x", type := some (.builtin .string), placement := { range := .onLine 1 1 11 } }
    let decl : ClassDecl :=
      { name := "C", body := [.comment noteC, .field field, .comment noteF]
        placement := { range := ⟨⟨0, 0⟩, ⟨2, 9⟩⟩ } }
    (parse .brighterScript ("class C ' c\n" ++ line ++ "\nend class")).result = .ok [.classDecl decl] ∧
      Line.EndsInComment line.toList " x = \"it's\" ".toList "' f ".toList ∧
      ∃ c, commentsOn (outlines [.classDecl decl]) 1 = [c] ∧ c.range.start.line = 1 ∧
        c.range.stop.line = 1 ∧ c.text = "' f" := by
  intro line noteC noteF field decl
  have parsed : (parse .brighterScript "class C ' c\n x = \"it's\" ' f \nend class").result =
      .ok [.classDecl decl] := by
    with_unfolding_all rfl
  have ends : Line.EndsInComment line.toList " x = \"it's\" ".toList "' f ".toList :=
    Line.endsInComment_iff.mpr (by decide)
  refine ⟨parsed, ends, ?_⟩
  obtain ⟨text, here, kept⟩ := header_comment_kept_iff _ _ _ parsed
    (.field "x" (some (.builtin .string)) none) field.placement (List.mem_of_getElem? (i := 1) rfl)
  have same : (Text.lines "class C ' c\n x = \"it's\" ' f \nend class".toList)[1]? =
      some line.toList := by decide
  cases here.symm.trans same
  exact (kept _ _ ends).1.mpr rfl

/-- The comment that ends the first line of a function is dropped. -/
theorem function_comment_dropped :
    let f : FunctionDecl := { name := "f", placement := { range := ⟨⟨0, 0⟩, ⟨1, 12⟩⟩ } }
    (parse .brightScript "function f() ' doc\nend function").result = .ok [.function f] ∧
      (Text.lines "function f() ' doc\nend function".toList)[f.placement.range.start.line]? =
        some "function f() ' doc".toList ∧
      Line.EndsInComment "function f() ' doc".toList "function f() ".toList "' doc".toList ∧
      commentsWithin (outlines [.function f]) = [] := by
  refine ⟨?_, by decide, Line.endsInComment_iff.mpr (by decide), ?_⟩
  · with_unfolding_all rfl
  · simp [outlines, Statement.outline, commentsWithin, Outline.comments]

end BrightDoc
