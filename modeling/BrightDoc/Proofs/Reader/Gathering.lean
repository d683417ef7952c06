import BrightDoc.Proofs.Reader.Arrangement
import BrightDoc.Proofs.Reader.Bodies
import BrightDoc.Proofs.Tree.CommentLines

/-! # Where the comment lines go

Every comment line of a text is kept in exactly one place: it is a line of a comment of the tree, or it
is skipped with the body of code it stands in. `Sketch.Gathered` keeps the account: the comment lines
of the nodes that are there, in their order, and those that are still waiting are all comment lines
read so far. A comment of whole lines is as long as it can be, and its text is what its lines say. -/

namespace BrightDoc

variable {dialect : Dialect}

/-- The lines of the text that a stretch covers. -/
def Range.linesOf (lines : List (List Char)) (r : Range) : List (List Char) :=
  (lines.drop r.start.line).take (r.stop.line + 1 - r.start.line)

/-- The comment is made of whole comment lines, with none just above them. Its text is that of its
lines, each without white space around it, joined by line feeds. -/
structure Comment.StartsRun (lines : List (List Char)) (c : Comment) : Prop where
  line_le : c.range.start.line ≤ c.range.stop.line
  full : c.IsFullLine lines
  above : ∀ index, index + 1 = c.range.start.line → isCommentAt lines index = false
  text : c.text = "\n".intercalate
    ((c.range.linesOf lines).map fun line => String.ofList (Text.trim line))

/-- The comment is a run of comment lines that is as long as it can be. -/
structure Comment.IsRun (lines : List (List Char)) (c : Comment) : Prop
    extends c.StartsRun lines where
  below : isCommentAt lines (c.range.stop.line + 1) = false

theorem Comment.startsRun_ofLine {lines : List (List Char)} {l : SourceLine}
    (here : lines[l.index]? = some l.text) (comment : Line.isComment l.text = true)
    (above : ∀ index, index + 1 = l.index → isCommentAt lines index = false) :
    (Comment.ofLine l).StartsRun lines := by
  refine ⟨Nat.le_refl _, ?_, above, ?_⟩
  · intro index low high
    have same : index = l.index := Nat.le_antisymm high low
    rw [same]
    exact ⟨l.text, here, comment⟩
  · have only : (Comment.ofLine l).range.linesOf lines = [l.text] := by
      simp [Range.linesOf, Comment.ofLine, SourceLine.range, SourceLine.start, SourceLine.stop,
        List.take_one, here]
    rw [only]
    rfl

theorem Comment.StartsRun.extend {lines : List (List Char)} {l : SourceLine} {c : Comment}
    (starts : c.StartsRun lines) (stop : c.range.stop.line + 1 = l.index)
    (here : lines[l.index]? = some l.text) (comment : Line.isComment l.text = true) :
    (c.extend l).StartsRun lines := by
  have le := starts.line_le
  refine ⟨?_, ?_, starts.above, ?_⟩
  · change c.range.start.line ≤ l.index
    omega
  · intro index low high
    by_cases last : index = l.index
    · rw [last]
      exact ⟨l.text, here, comment⟩
    · have high : index ≤ l.index := high
      exact starts.full index low (by omega)
  · have longer : (c.extend l).range.linesOf lines = c.range.linesOf lines ++ [l.text] := by
      have length : l.index + 1 - c.range.start.line =
          c.range.stop.line + 1 - c.range.start.line + 1 := by omega
      have next : c.range.start.line + (c.range.stop.line + 1 - c.range.start.line) = l.index := by
        omega
      simp only [Range.linesOf, Comment.extend, SourceLine.stop, length, List.take_add_one,
        List.getElem?_drop, next, here, Option.toList_some]
    have some : c.range.linesOf lines ≠ [] := by
      obtain ⟨line, first, -⟩ := starts.full c.range.start.line (Nat.le_refl _) le
      have inside := (List.getElem?_eq_some_iff.mp first).1
      intro empty
      have none := congrArg List.length empty
      simp only [Range.linesOf, List.length_take, List.length_drop, List.length_nil] at none
      omega
    rw [longer, List.map_append,
      String.intercalate_append_of_ne_nil (by simpa using some) (by simp), ← starts.text]
    rfl

/-- Whether the open list is a body of code. -/
def Level.hasCode (level : Level) : Bool :=
  level.head.any fun head => head.header.hasCode

/-- The comment lines of an open body of code before the given line. -/
def Level.codeLines (lines : List (List Char)) (line : Nat) (level : Level) : List Nat :=
  match level.head with
  | some head =>
    if head.header.hasCode then commentLinesIn lines (head.start.line + 1) line else []
  | none => []

theorem Level.codeLines_of_plain {level : Level} (plain : level.hasCode = false)
    (lines : List (List Char)) (line : Nat) : level.codeLines lines line = [] := by
  obtain ⟨head, nodes⟩ := level
  cases head with
  | none => rfl
  | some head =>
    have plain : head.header.hasCode = false := plain
    simp [codeLines, plain]

/-- The comment lines that the nodes of the open lists account for, from the outermost to the innermost
list. -/
def levelCommentLines (lines : List (List Char)) : List Level → List Nat
  | [] => []
  | level :: outer => levelCommentLines lines outer ++ commentLinesOf lines level.nodes.reverse

/-- Nodes that are added to a list bring their own comment lines. -/
theorem levelCommentLines_push (lines : List (List Char)) (head : Option Head)
    (added nodes : List Outline) (outer : List Level) :
    levelCommentLines lines (⟨head, added ++ nodes⟩ :: outer) =
      levelCommentLines lines (⟨head, nodes⟩ :: outer) ++ commentLinesOf lines added.reverse := by
  simp only [levelCommentLines, List.reverse_append, commentLinesOf_append, List.append_assoc]

/-- The comment lines that no node accounts for yet: those of the innermost body of code, and those that
the next comment is made of. -/
def Sketch.waiting (lines : List (List Char)) (line : Nat) (s : Sketch) : List Nat :=
  (s.levels.head?.elim [] fun level => level.codeLines lines line) ++
    s.run.elim [] fun c => (Outline.comment c).commentLines lines

/-- The comment has its place in the text: at the end of a code line, or as a run of comment lines. -/
def Comment.IsKept (lines : List (List Char)) (c : Comment) : Prop :=
  c.IsTrailing lines ∨ c.IsRun lines

/-- Only runs have comment lines. -/
theorem Comment.IsKept.isRun {lines : List (List Char)} {c : Comment} {index : Nat}
    (kept : c.IsKept lines) (covered : c.range.covers index = true)
    (comment : isCommentAt lines index = true) : c.IsRun lines := by
  rcases kept with trailing | run
  · obtain ⟨text, here, notComment⟩ := trailing.line
    have oneLine := trailing.oneLine
    simp only [Range.covers, Bool.and_eq_true, decide_eq_true_eq] at covered
    rw [show index = c.range.start.line by omega, isCommentAt_eq here, notComment] at comment
    cases comment
  · exact run

theorem Comment.IsKept.line_le {lines : List (List Char)} {c : Comment} (kept : c.IsKept lines) :
    c.range.start.line ≤ c.range.stop.line := by
  rcases kept with trailing | run
  · exact Nat.le_of_eq trailing.oneLine.symm
  · exact run.line_le

/-- The account of the comment lines before the given line. Only the innermost list may be a body of
code. -/
structure Sketch.Accounts (lines : List (List Char)) (line : Nat) (s : Sketch) : Prop where
  shape : ∃ level outer, s.levels = level :: outer ∧ ∀ other ∈ outer, other.hasCode = false
  complete : levelCommentLines lines s.levels ++ s.waiting lines line = commentLinesIn lines 0 line
  kept : ∀ level ∈ s.levels, ∀ node ∈ level.nodes, ∀ c ∈ node.comments, c.IsKept lines

/-- What holds of the comment lines before the given line: the account is right, and a comment line
directly before the given line, outside bodies of code, is part of the next comment. -/
structure Sketch.Gathered (lines : List (List Char)) (line : Nat) (s : Sketch) : Prop
    extends s.Accounts lines line where
  starts : ∀ c ∈ s.run, c.StartsRun lines
  quiet : s.run = none → s.inCode = false → ∀ index, index + 1 = line →
    isCommentAt lines index = false

section Account

variable {lines : List (List Char)} {l : SourceLine}

theorem commentLinesIn_after (here : lines[l.index]? = some l.text)
    (notComment : Line.isComment l.text = false) {first : Nat} (le : first ≤ l.index) :
    commentLinesIn lines first (l.index + 1) = commentLinesIn lines first l.index := by
  rw [commentLinesIn_succ lines le, isCommentAt_eq here, notComment]
  simp

theorem commentLinesIn_comment (here : lines[l.index]? = some l.text)
    (comment : Line.isComment l.text = true) {first : Nat} (le : first ≤ l.index) :
    commentLinesIn lines first (l.index + 1) = commentLinesIn lines first l.index ++ [l.index] := by
  rw [commentLinesIn_succ lines le, isCommentAt_eq here, comment]
  simp

/-- The comment that ends a code line accounts for no comment line. -/
theorem commentLinesOf_trailingNodes (here : lines[l.index]? = some l.text)
    (notComment : Line.isComment l.text = false) :
    commentLinesOf lines l.trailingNodes.reverse = [] := by
  cases found : l.trailing? with
  | none => simp [trailingNodes_of_none found]
  | some c =>
    obtain ⟨text, cut, rfl⟩ := Option.map_eq_some_iff.mp found
    rw [trailingNodes_of_some found, List.reverse_singleton, commentLinesOf_singleton]
    exact (commentLinesIn_after here notComment (Nat.le_refl _)).trans (commentLinesIn_self lines _)

theorem isKept_trailingNodes {header : Header} (here : lines[l.index]? = some l.text)
    (notComment : Line.isComment l.text = false) (reads : Reads l header) :
    ∀ node ∈ l.trailingNodes, ∀ c ∈ node.comments, c.IsKept lines := by
  cases found : l.trailing? with
  | none => simp [trailingNodes_of_none found]
  | some c =>
    rw [trailingNodes_of_some found]
    intro node member other inside
    rw [List.mem_singleton.mp member, Outline.comments, List.mem_singleton] at inside
    rw [inside]
    exact Or.inl (trailing?_placed here notComment reads found).2.1

/-- After a code line that leaves nothing waiting, nothing has to be done but to account for its
nodes. -/
theorem gathered_of_code {level : Level} {outer : List Level} {pending : List Annotation}
    (here : lines[l.index]? = some l.text) (notComment : Line.isComment l.text = false)
    (plain : ∀ other ∈ outer, other.hasCode = false)
    (free : level.codeLines lines (l.index + 1) = [])
    (complete : levelCommentLines lines (level :: outer) = commentLinesIn lines 0 l.index)
    (kept : ∀ other ∈ level :: outer, ∀ node ∈ other.nodes, ∀ c ∈ node.comments, c.IsKept lines) :
    Sketch.Gathered lines (l.index + 1) ⟨level :: outer, none, pending⟩ := by
  refine ⟨⟨⟨level, outer, rfl, plain⟩, ?_, kept⟩, ?_, ?_⟩
  · rw [commentLinesIn_after here notComment (Nat.zero_le _), complete]
    simp [Sketch.waiting, free]
  · intro c found
    cases found
  · intro _ _ index last
    rw [Nat.add_right_cancel last, isCommentAt_eq here, notComment]

/-- Outside bodies of code, with no comment under way, the nodes account for everything. -/
theorem Sketch.Accounts.settled {line : Nat} {levels : List Level} {pending : List Annotation}
    (accounts : Sketch.Accounts lines line ⟨levels, none, pending⟩)
    (outside : Sketch.inCode ⟨levels, none, pending⟩ = false) :
    levelCommentLines lines levels = commentLinesIn lines 0 line := by
  obtain ⟨⟨level, outer, rfl, plain⟩, complete, kept⟩ := accounts
  simpa [Sketch.waiting, Level.codeLines_of_plain outside] using complete

theorem gathered_item {head : Option Head} {nodes : List Outline} {outer : List Level}
    {pending left : List Annotation} {header : Header} {placement : Placement}
    (accounts : Sketch.Accounts lines l.index ⟨⟨head, nodes⟩ :: outer, none, pending⟩)
    (outside : Sketch.inCode ⟨⟨head, nodes⟩ :: outer, none, pending⟩ = false)
    (here : lines[l.index]? = some l.text) (notComment : Line.isComment l.text = false)
    (reads : Reads l header) (oneLine : header.isOneLine = true) :
    Sketch.Gathered lines (l.index + 1)
      ⟨⟨head, l.trailingNodes ++ .decl header placement [] :: nodes⟩ :: outer, none, left⟩ := by
  have settled := accounts.settled outside
  obtain ⟨⟨level, rest, same, plain⟩, -, kept⟩ := accounts
  cases same
  have bodiless := Header.hasCode_of_isOneLine oneLine
  refine gathered_of_code here notComment plain ?_ ?_ ?_
  · exact Level.codeLines_of_plain outside lines _
  · rw [List.append_cons, levelCommentLines_push, List.reverse_append, commentLinesOf_append,
      commentLinesOf_trailingNodes here notComment, List.append_nil, List.reverse_singleton,
      commentLinesOf_singleton, Outline.commentLines, bodiless, settled]
    simp
  · intro other member node inside
    rcases List.mem_cons.mp member with rfl | member
    · rcases List.mem_append.mp inside with inside | inside
      · exact isKept_trailingNodes here notComment reads node inside
      rcases List.mem_cons.mp inside with rfl | inside
      · simp [Outline.comments, commentsWithin]
      · exact kept _ List.mem_cons_self node inside
    · exact kept other (List.mem_cons_of_mem _ member) node inside

theorem gathered_openBlock {levels : List Level} {pending : List Annotation} {header : Header}
    (accounts : Sketch.Accounts lines l.index ⟨levels, none, pending⟩)
    (outside : Sketch.inCode ⟨levels, none, pending⟩ = false)
    (here : lines[l.index]? = some l.text) (notComment : Line.isComment l.text = false)
    (reads : Reads l header) :
    Sketch.Gathered lines (l.index + 1)
      ⟨⟨some { header, start := l.start, annotations := pending },
        if header.hasCode then [] else l.trailingNodes⟩ :: levels, none, []⟩ := by
  have settled := accounts.settled outside
  obtain ⟨⟨level, outer, rfl, plain⟩, -, kept⟩ := accounts
  refine gathered_of_code here notComment ?_ ?_ ?_ ?_
  · intro other member
    rcases List.mem_cons.mp member with rfl | member
    · exact outside
    · exact plain other member
  · simp only [Level.codeLines]
    split
    · exact commentLinesIn_self lines _
    · rfl
  · rw [levelCommentLines, settled]
    split
    · simp
    · rw [commentLinesOf_trailingNodes here notComment, List.append_nil]
  · intro other member node inside
    rcases List.mem_cons.mp member with rfl | member
    · dsimp only at inside
      split at inside
      · cases inside
      · exact isKept_trailingNodes here notComment reads node inside
    · exact kept other member node inside

/-- A declaration accounts for the comment lines of its body, and for those of its code before the line
that closes it. -/
theorem levelCommentLines_close (head : Head) (nodes siblings : List Outline)
    (outside : Option Head) (outer : List Level) :
    levelCommentLines lines (⟨outside, head.close l nodes.reverse :: siblings⟩ :: outer) =
      levelCommentLines lines (⟨some head, nodes⟩ :: ⟨outside, siblings⟩ :: outer) ++
        Level.codeLines lines l.index ⟨some head, nodes⟩ := by
  have pushed := levelCommentLines_push lines outside [head.close l nodes.reverse] siblings outer
  rw [List.reverse_singleton, commentLinesOf_singleton, Head.close, Outline.commentLines,
    ← List.append_assoc] at pushed
  exact pushed

theorem isKept_close {head : Head} {nodes siblings : List Outline} {outside : Option Head}
    {outer : List Level}
    (kept : ∀ level ∈ (⟨some head, nodes⟩ : Level) :: ⟨outside, siblings⟩ :: outer,
      ∀ node ∈ level.nodes, ∀ c ∈ node.comments, c.IsKept lines) :
    ∀ level ∈ (⟨outside, head.close l nodes.reverse :: siblings⟩ : Level) :: outer,
      ∀ node ∈ level.nodes, ∀ c ∈ node.comments, c.IsKept lines := by
  intro level member node inside c listed
  rcases List.mem_cons.mp member with rfl | member
  · rcases List.mem_cons.mp inside with rfl | inside
    · rw [Head.close, Outline.comments] at listed
      obtain ⟨inner, among, listed⟩ := exists_of_mem_commentsWithin listed
      exact kept _ List.mem_cons_self inner (List.mem_reverse.mp among) c listed
    · exact kept ⟨outside, siblings⟩ (by simp) node inside c listed
  · exact kept level (by simp [member]) node inside c listed

/-- The line that closes a declaration makes a node of it, which accounts for what was waiting in its
code. -/
theorem gathered_close {head : Head} {nodes siblings : List Outline} {outside : Option Head}
    {outer : List Level} {pending : List Annotation}
    (accounts : Sketch.Accounts lines l.index
      ⟨⟨some head, nodes⟩ :: ⟨outside, siblings⟩ :: outer, none, pending⟩)
    (here : lines[l.index]? = some l.text) (notComment : Line.isComment l.text = false) :
    Sketch.Gathered lines (l.index + 1)
      ⟨⟨outside, head.close l nodes.reverse :: siblings⟩ :: outer, none, pending⟩ := by
  obtain ⟨⟨level, rest, same, plain⟩, complete, kept⟩ := accounts
  cases same
  refine gathered_of_code here notComment ?_ ?_ ?_ (isKept_close kept)
  · intro other member
    exact plain other (List.mem_cons_of_mem _ member)
  · exact Level.codeLines_of_plain (plain ⟨outside, siblings⟩ List.mem_cons_self) lines _
  · rw [levelCommentLines_close, ← complete]
    simp [Sketch.waiting]

theorem gathered_rest {levels : List Level} {pending left : List Annotation}
    (accounts : Sketch.Accounts lines l.index ⟨levels, none, pending⟩)
    (outside : Sketch.inCode ⟨levels, none, pending⟩ = false)
    (here : lines[l.index]? = some l.text) (notComment : Line.isComment l.text = false) :
    Sketch.Gathered lines (l.index + 1) ⟨levels, none, left⟩ := by
  have settled := accounts.settled outside
  obtain ⟨⟨level, outer, rfl, plain⟩, -, kept⟩ := accounts
  exact gathered_of_code here notComment plain (Level.codeLines_of_plain outside lines _) settled kept

theorem gathered_act {s t : Sketch} (accounts : s.Accounts lines l.index)
    (outside : s.inCode = false) (here : lines[l.index]? = some l.text)
    (notComment : Line.isComment l.text = false) (act : Act l s t) :
    t.Gathered lines (l.index + 1) := by
  cases act with
  | rest kept => exact gathered_rest accounts outside here notComment
  | annotate found _ => exact gathered_rest accounts outside here notComment
  | item reads oneLine taken => exact gathered_item accounts outside here notComment reads oneLine
  | member inEnum reads => exact gathered_item accounts outside here notComment reads rfl
  | openBlock reads block => exact gathered_openBlock accounts outside here notComment reads
  | closeBlock => exact gathered_close accounts here notComment

/-- Before a line that is no comment line, and at the end of the text, the comment under way is
finished. -/
theorem accounts_closeRun {line : Nat} {s : Sketch} (nested : s.Nested lines line)
    (gathered : s.Gathered lines line) (stops : isCommentAt lines line = false) :
    s.closeRun.Accounts lines line := by
  obtain ⟨levels, run, pending⟩ := s
  cases run with
  | none => exact gathered.toAccounts
  | some c =>
    have finished : c.IsRun lines := by
      refine ⟨gathered.starts c rfl, ?_⟩
      rw [(nested.run c rfl).2.2.1]
      exact stops
    obtain ⟨⟨level, outer, rfl, plain⟩, complete, kept⟩ := gathered.toAccounts
    have outside : level.hasCode = false := by
      cases code : level.hasCode with
      | false => rfl
      | true => cases nested.code code
    refine ⟨⟨_, outer, rfl, plain⟩, ?_, ?_⟩
    · have pushed := levelCommentLines_push lines level.head [.comment c] level.nodes outer
      rw [List.reverse_singleton, commentLinesOf_singleton] at pushed
      rw [← complete]
      simpa [Sketch.closeRun, Sketch.push, Sketch.waiting, Level.codeLines_of_plain outside,
        Level.codeLines_of_plain (show Level.hasCode ⟨level.head, .comment c :: level.nodes⟩ = false
          from outside)] using pushed
    · intro other member node inside
      rcases List.mem_cons.mp member with rfl | member
      · rcases List.mem_cons.mp inside with rfl | inside
        · intro d listed
          rw [Outline.comments, List.mem_singleton] at listed
          rw [listed]
          exact Or.inr finished
        · exact kept level List.mem_cons_self node inside
      · exact kept other (List.mem_cons_of_mem _ member) node inside

/-- A comment line outside bodies of code goes to the comment under way. -/
theorem gathered_comment {s : Sketch} (nested : s.Nested lines l.index)
    (gathered : s.Gathered lines l.index) (outside : s.inCode = false)
    (here : lines[l.index]? = some l.text) (comment : Line.isComment l.text = true) :
    (s.addComment l).Gathered lines (l.index + 1) := by
  obtain ⟨levels, run, pending⟩ := s
  obtain ⟨⟨level, outer, rfl, plain⟩, complete, kept⟩ := gathered.toAccounts
  have inner : ∀ line, level.codeLines lines line = [] := Level.codeLines_of_plain outside lines
  have whole := commentLinesIn_comment here comment (Nat.zero_le l.index)
  cases run with
  | none =>
    have starts := Comment.startsRun_ofLine here comment (gathered.quiet rfl outside)
    have own := commentLinesIn_comment here comment (Nat.le_refl l.index)
    rw [commentLinesIn_self, List.nil_append] at own
    refine ⟨⟨⟨level, outer, rfl, plain⟩, ?_, kept⟩, ?_, ?_⟩
    · rw [whole, ← complete]
      simp [Sketch.addComment, Sketch.waiting, inner, Outline.commentLines, Comment.ofLine,
        SourceLine.range, SourceLine.start, SourceLine.stop, own]
    · intro c found
      cases found
      exact starts
    · intro free
      cases free
  | some c =>
    have stop := (nested.run c rfl).2.2.1
    have before := gathered.starts c rfl
    have starts := before.extend stop here comment
    have own := commentLinesIn_comment here comment
      (show c.range.start.line ≤ l.index by have := before.line_le; omega)
    refine ⟨⟨⟨level, outer, rfl, plain⟩, ?_, kept⟩, ?_, ?_⟩
    · rw [whole, ← complete]
      simp [Sketch.addComment, Sketch.waiting, inner, Outline.commentLines, Comment.extend,
        SourceLine.stop, own, stop]
    · intro d found
      cases found
      exact starts
    · intro free
      cases free

/-- A line in a body of code waits with the body, if it is a comment line. -/
theorem gathered_inCode {s : Sketch} (nested : s.Nested lines l.index)
    (gathered : s.Gathered lines l.index) (inside : s.inCode = true) :
    s.Gathered lines (l.index + 1) := by
  have free := nested.code inside
  have fit := nested.open_levels free
  obtain ⟨⟨level, outer, same, plain⟩, complete, kept⟩ := gathered.toAccounts
  refine ⟨⟨⟨level, outer, same, plain⟩, ?_, kept⟩, gathered.starts, ?_⟩
  · obtain ⟨levels, run, pending⟩ := s
    dsimp only at same free
    subst same free
    obtain ⟨head, nodes⟩ := level
    cases head with
    | none => cases inside
    | some head =>
      have code : head.header.hasCode = true := inside
      have before := (fit.2 head rfl).2.1
      rw [commentLinesIn_succ lines (Nat.zero_le _), ← complete]
      simp [Sketch.waiting, Level.codeLines, code, commentLinesIn_succ lines (Nat.succ_le_of_lt before)]
  · intro _ outside
    rw [inside] at outside
    cases outside

theorem gathered_move {s t : Sketch} (nested : s.Nested lines l.index)
    (gathered : s.Gathered lines l.index) (here : lines[l.index]? = some l.text)
    (still : s.inCode = true → Line.isComment l.text = true → t = s) (move : Move l s t) :
    t.Gathered lines (l.index + 1) := by
  cases move with
  | inCode inside => exact gathered_inCode nested gathered inside
  | @endCode head nodes siblings outside outer run pending code =>
    have free : run = none := nested.code code
    subst free
    refine gathered_close gathered.toAccounts here ?_
    -- A comment line would have left the body open.
    cases comment : Line.isComment l.text with
    | false => rfl
    | true =>
      have same := congrArg (fun s : Sketch => s.levels.length) (still code comment)
      simp at same
  | gather outside comment => exact gathered_comment nested gathered outside here comment
  | act outside notComment act =>
    have accounts := accounts_closeRun nested gathered (isCommentAt_eq here ▸ notComment)
    exact gathered_act accounts (s.inCode_closeRun.trans outside) here notComment act

end Account

theorem gathered_start (lines : List (List Char)) : Sketch.start.Gathered lines 0 := by
  refine ⟨⟨⟨⟨none, []⟩, [], rfl, by simp⟩, ?_, ?_⟩, ?_, ?_⟩
  · simp [Sketch.start, Sketch.waiting, levelCommentLines, Level.codeLines, commentLinesIn]
  · simp [Sketch.start]
  · intro c found
    cases found
  · intro _ _ index bad
    cases bad

/-- The account of the comment lines is right where a text has been read. -/
theorem gathered_of_read {lines : List (List Char)} {t : ReaderState}
    (read : (readFrom dialect 0 {} lines).result = .ok t) : t.sketch.Gathered lines lines.length := by
  have kept := @state_of_read dialect
    (fun index s => s.focus.IsOpen ∧ s.sketch.Nested lines index ∧ s.sketch.Gathered lines index)
    lines t read ⟨trivial, nested_start lines, gathered_start lines⟩
  refine (kept ?_).2.2
  rintro index text s u here ⟨isOpen, nested, gathered⟩ stepped
  have move := ReaderState.move_of_step stepped
  refine ⟨ReaderState.step_isOpen isOpen stepped, nested_move nested here move,
    gathered_move nested gathered here ?_ move⟩
  intro inside comment
  rw [ReaderState.step_comment_inCode isOpen inside comment] at stepped
  cases stepped
  rfl

/-- The tree of a text accounts for all comment lines, in their order, and keeps its comments as the
text has them. -/
theorem commentLinesOf_outlines {lines : List (List Char)} {statements : List Statement}
    (read : (readLines dialect lines).result = .ok statements) :
    commentLinesOf lines (outlines statements) = commentLinesIn lines 0 lines.length ∧
      ∀ c ∈ commentsWithin (outlines statements), c.IsKept lines := by
  obtain ⟨t, read, finished⟩ := readLines_ok read
  have stops : isCommentAt lines lines.length = false := by simp [isCommentAt]
  have accounts := accounts_closeRun (nested_of_read read) (gathered_of_read read) stops
  have free := (nested_closeRun (nested_of_read read)).2
  have levels := ReaderState.finish_ok finished
  generalize t.sketch.closeRun = s at accounts free levels
  obtain ⟨open_, run, pending⟩ := s
  dsimp only at free levels
  subst free levels
  refine ⟨?_, ?_⟩
  · simpa [levelCommentLines] using accounts.settled rfl
  · intro c listed
    obtain ⟨node, member, listed⟩ := exists_of_mem_commentsWithin listed
    exact accounts.kept _ List.mem_cons_self node (List.mem_reverse.mpr member) c listed

/-- A comment line stands in one body of code, or it is a line of one comment. -/
theorem length_codeAround_add {lines : List (List Char)} {statements : List Statement}
    (read : (readLines dialect lines).result = .ok statements) {index : Nat}
    (comment : isCommentAt lines index = true) :
    (codeAround (outlines statements) index).length +
      (commentsOn (outlines statements) index).length = 1 := by
  have inside : index < lines.length := by
    by_contra beyond
    simp [isCommentAt, List.getElem?_eq_none (Nat.le_of_not_lt beyond)] at comment
  rw [← count_commentLinesOf comment, (commentLinesOf_outlines read).1,
    count_commentLinesIn comment, if_pos ⟨Nat.zero_le _, inside⟩]

/-- Each comment line of a source is kept in one place only: it stands in one body of code, or it is a
line of one comment of the tree, which is made of whole lines. Every comment of whole lines stands
outside all bodies of code, is as long as it can be, and says what its lines say. -/
theorem comment_lines_kept_once (dialect : Dialect) (source : String) (statements : List Statement)
    (parsed : (parse dialect source).result = .ok statements) :
    (∀ index text, (Text.lines source.toList)[index]? = some text → Line.isComment text = true →
      (codeAround (outlines statements) index).length +
          (commentsOn (outlines statements) index).length = 1 ∧
        ∀ c ∈ commentsOn (outlines statements) index, c.IsFullLine (Text.lines source.toList)) ∧
    ∀ c ∈ commentsWithin (outlines statements), c.IsFullLine (Text.lines source.toList) →
      c.IsRun (Text.lines source.toList) ∧
        ∀ index, c.range.covers index = true → codeAround (outlines statements) index = [] := by
  have read : (readLines dialect (Text.lines source.toList)).result = .ok statements := parsed
  have kept := (commentLinesOf_outlines read).2
  refine ⟨?_, ?_⟩
  · intro index text here comment
    have comment := (isCommentAt_eq here).trans comment
    refine ⟨length_codeAround_add read comment, ?_⟩
    intro c listed
    obtain ⟨listed, covered⟩ := List.mem_filter.mp listed
    exact ((kept c listed).isRun covered comment).full
  · intro c listed full
    have comment : ∀ index, c.range.covers index = true →
        isCommentAt (Text.lines source.toList) index = true := by
      intro index covered
      simp only [Range.covers, Bool.and_eq_true, decide_eq_true_eq] at covered
      obtain ⟨line, here, comment⟩ := full index covered.1 covered.2
      exact (isCommentAt_eq here).trans comment
    have first : c.range.covers c.range.start.line = true := by
      simpa [Range.covers] using (kept c listed).line_le
    refine ⟨(kept c listed).isRun first (comment _ first), ?_⟩
    intro index covered
    have once := length_codeAround_add read (comment index covered)
    have some : 0 < (commentsOn (outlines statements) index).length :=
      List.length_pos_of_mem (List.mem_filter.mpr ⟨listed, covered⟩)
    exact List.length_eq_zero_iff.mp (by omega)

/-- Comment lines before and in a function, and in a class after the comment that ends its first line:
the last ones make one comment. -/
theorem class_comment_kept_once :
    let source := "' a\nsub f()\n' in f\nend sub\nclass C ' c\n ' one \nrem two\nend class"
    ∃ statements, (parse .brightScript source).result = .ok statements ∧
      (commentsWithin (outlines statements)).map Comment.text = ["' a", "' c", "' one\nrem two"] ∧
      (codeAround (outlines statements) 2).length + (commentsOn (outlines statements) 2).length = 1 := by
  intro source
  have run : (parse .brightScript source).result.toOption.map
      (fun statements => (commentsWithin (outlines statements)).map Comment.text) =
        some ["' a", "' c", "' one\nrem two"] := by decide +kernel
  cases parsed : (parse .brightScript source).result with
  | error e =>
    rw [parsed] at run
    cases run
  | ok statements =>
    rw [parsed] at run
    have kept := (comment_lines_kept_once .brightScript source statements parsed).1
    exact ⟨statements, rfl, Option.some.inj run, (kept 2 "' in f".toList (by decide) (by decide)).1⟩

end BrightDoc
