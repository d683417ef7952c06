import BrightDoc.Proofs.Doc.Tags
import BrightDoc.Proofs.Line.Reindented
import BrightDoc.Proofs.Reader.Gathering

/-! # Comments are carried over as they are written

A comment that is written from texts, each with a mark, blanks and asterisks before it, gives just those
texts to its documentation block, one line for each. -/

namespace BrightDoc.Text

/-- Dropping from the two ends of a text can be done in either order. -/
theorem dropWhile_dropEndWhile (p q : Char → Bool) (cs : List Char) :
    (dropEndWhile q cs).dropWhile p = dropEndWhile q (cs.dropWhile p) := by
  induction cs with
  | nil => rfl
  | cons c cs ih =>
    rw [List.dropWhile_cons]
    split
    · rename_i dropped
      rw [← ih, dropEndWhile]
      split
      · rename_i nothing
        rw [nothing]
        split
        · rfl
        · exact List.dropWhile_cons_of_pos dropped
      · exact List.dropWhile_cons_of_pos dropped
    · rename_i kept
      rw [dropEndWhile]
      split
      · split
        · rfl
        · exact List.dropWhile_cons_of_neg kept
      · exact List.dropWhile_cons_of_neg kept

theorem trim_trimEnd (cs : List Char) : trim (trimEnd cs) = trim cs := by
  obtain ⟨after, same, white⟩ := exists_append_dropEndWhile isWhite cs
  rw [trimEnd, ← trim_append_of_white white, ← same]

/-- A trimmed text ends and starts with characters that are no white space. -/
theorem ends_of_trim_eq {cs : List Char} (trimmed : trim cs = cs) :
    trimEnd cs = cs ∧ ∀ c ∈ cs.head?, isWhite c = false := by
  have inside : trim cs <:+ trimEnd cs := List.dropWhile_suffix isWhite
  have kept : trimEnd cs <+: cs := dropEndWhile_isPrefix isWhite cs
  rw [trimmed] at inside
  have whole : trimEnd cs = cs := kept.eq_of_length_le inside.length_le
  refine ⟨whole, ?_⟩
  intro c first
  rw [trim, whole, trimStart] at trimmed
  have stops := List.head?_dropWhile_not isWhite cs
  rw [trimmed, first] at stops
  simpa using stops

end BrightDoc.Text

namespace BrightDoc.Doc

open BrightDoc.Text

theorem isInfix_of_contains {word : String} {cs : List Char} (found : contains word cs = true) :
    word.toList <:+: cs := by
  obtain ⟨rest, found⟩ := Option.isSome_iff_exists.mp found
  obtain ⟨part, isEnd, here⟩ := leftmost?_eq_some found
  rw [after?, List.isPrefixOf?_eq_some_iff_append_eq] at here
  have starts : word.toList <+: part := ⟨rest, here⟩
  exact starts.isInfix.trans isEnd.isInfix

end BrightDoc.Doc

namespace BrightDoc.Written

open BrightDoc.Line BrightDoc.Text BrightDoc.Doc

/-- What starts a comment line: an apostrophe, or the word `rem` with a space after it, where each letter
may be a capital one. -/
inductive Mark where
  | apostrophe
  | word (r e m : Bool)

/-- The mark without the space after it. -/
def Mark.letters : Mark → List Char
  | apostrophe => ['\'']
  | word r e m => [if r then 'R' else 'r', if e then 'E' else 'e', if m then 'M' else 'm']

/-- The space after the mark, where it has to have one. -/
def Mark.space : Mark → List Char
  | apostrophe => []
  | word .. => [' ']

/-- A line of a comment: a text after a mark, with blanks before the mark, and with blanks and asterisks
between the two. -/
structure CommentLine where
  indent : List Char := []
  mark : Mark
  lead : List Char := []
  stars : Nat := 0
  gap : List Char := []
  text : List Char
  blank : ∀ c ∈ indent ++ lead ++ gap, isSpace c = true
  trimmed : trim text = text
  starless : text.head? ≠ some '*'
  closerless : ¬ "*/".toList <:+: text
  untagged : ¬ "@module".toList <:+: text

namespace CommentLine

variable (l : CommentLine)

/-- What follows the mark. -/
def tail : List Char :=
  l.mark.space ++ (l.lead ++ (List.replicate l.stars '*' ++ (l.gap ++ l.text)))

/-- The line as it is written. -/
def chars : List Char :=
  l.indent ++ (l.mark.letters ++ l.tail)

/-- The line of a documentation block that has the text. -/
def shown : String :=
  if l.text = [] then " *" else " * " ++ String.ofList l.text

theorem indent_blank : ∀ c ∈ l.indent, isSpace c = true :=
  fun c member => l.blank c (by simp [member])

theorem lead_blank : ∀ c ∈ l.lead, isSpace c = true :=
  fun c member => l.blank c (by simp [member])

theorem gap_blank : ∀ c ∈ l.gap, isSpace c = true :=
  fun c member => l.blank c (by simp [member])

theorem space_blank : ∀ c ∈ l.mark.space, isSpace c = true := by
  cases l.mark with
  | apostrophe => simp [Mark.space]
  | word r e m => simp [Mark.space, isSpace]

theorem skipSpace_text : skipSpace l.text = l.text := by
  refine (takeWhile_of_head? ?_).2
  intro c first
  have inked := (ends_of_trim_eq l.trimmed).2 c first
  cases space : isSpace c with
  | false => rfl
  | true =>
    rw [isWhite_of_isSpace space] at inked
    cases inked

/-- Asterisks are not taken from the text itself. -/
theorem dropWhile_star_text : l.text.dropWhile (· == '*') = l.text := by
  refine (takeWhile_of_head? ?_).2
  intro c first
  rw [beq_eq_false_iff_ne]
  rintro rfl
  exact l.starless first

theorem strip_tail :
    skipSpace ((skipSpace l.tail).dropWhile (· == '*')) = l.text := by
  have skipped : skipSpace l.tail = skipSpace (List.replicate l.stars '*' ++ (l.gap ++ l.text)) := by
    rw [tail, skipSpace_append l.space_blank, skipSpace_append l.lead_blank]
  rw [skipped]
  cases l.stars with
  | zero =>
    rw [List.replicate_zero, List.nil_append, skipSpace_append l.gap_blank, l.skipSpace_text,
      l.dropWhile_star_text, l.skipSpace_text]
  | succ stars =>
    have atStar : skipSpace (List.replicate (stars + 1) '*' ++ (l.gap ++ l.text)) =
        List.replicate (stars + 1) '*' ++ (l.gap ++ l.text) := rfl
    have stops : (l.gap ++ l.text).dropWhile (· == '*') = l.gap ++ l.text := by
      cases blanks : l.gap with
      | nil => exact l.dropWhile_star_text
      | cons c gap =>
        have blank : isSpace c = true := l.gap_blank c (blanks ▸ List.mem_cons_self)
        refine List.dropWhile_cons_of_neg ?_
        rw [beq_iff_eq]
        rintro rfl
        cases blank
    rw [atStar, List.dropWhile_append_of_pos (by simp), stops, skipSpace_append l.gap_blank,
      l.skipSpace_text]

/-- The mark is found, and it ends where the line goes on after it. -/
theorem afterMark?_letters {rest : List Char} (apart : rest = [] ∨ ∃ more, rest = l.mark.space ++ more) :
    afterMark? (l.mark.letters ++ rest) = some rest := by
  cases found : l.mark with
  | apostrophe => rfl
  | word r e m =>
    rw [found] at apart
    rcases apart with rfl | ⟨more, rfl⟩
    · cases r <;> cases e <;> cases m <;> rfl
    · cases r <;> cases e <;> cases m <;> rfl

/-- Trimming a line keeps its mark. -/
theorem trim_chars : trim l.chars = l.mark.letters ++ trimEnd l.tail := by
  rw [chars, trim_of_white_append fun c member => isWhite_of_isSpace (l.indent_blank c member)]
  cases l.mark with
  | apostrophe =>
    exact (trim_cons_of_inked (by decide) _).trans (dropEndWhile_append_cons isWhite (by decide) [] _)
  | word r e m =>
    have first : isWhite (if r then 'R' else 'r') = false := by cases r <;> decide
    have last : isWhite (if m then 'M' else 'm') = false := by cases m <;> decide
    exact (trim_cons_of_inked first _).trans (dropEndWhile_append_cons isWhite last
      [if r then 'R' else 'r', if e then 'E' else 'e'] _)

theorem trimEnd_tail : trimEnd l.tail = [] ∨ ∃ more, trimEnd l.tail = l.mark.space ++ more := by
  rw [tail, trimEnd, dropEndWhile_append]
  split
  · left
    exact dropEndWhile_eq_nil_iff.mpr
      (List.all_eq_true.mpr fun c member => isWhite_of_isSpace (l.space_blank c member))
  · exact Or.inr ⟨_, rfl⟩

/-- Without its mark a line is its text. -/
theorem stripMark_trim_chars : stripMark (trim l.chars) = l.text := by
  rw [l.trim_chars, stripMark, l.afterMark?_letters l.trimEnd_tail]
  dsimp only
  rw [skipSpace, skipSpace, trimEnd, dropWhile_dropEndWhile, dropWhile_dropEndWhile,
    dropWhile_dropEndWhile, ← trimEnd, trim_trimEnd, ← skipSpace, ← skipSpace, l.strip_tail, l.trimmed]

theorem isComment_chars : isComment l.chars = true := by
  rw [isComment, chars, skipSpace_append l.indent_blank, tail]
  cases l.mark with
  | apostrophe => rfl
  | word r e m => cases r <;> cases e <;> cases m <;> rfl

theorem dropOpener_text (plain : ¬ "/*".toList <+: l.text) : dropOpener l.text = l.text := by
  rw [dropOpener, l.skipSpace_text]
  split
  · rename_i rest opens
    exact absurd ⟨rest, opens.symm⟩ plain
  · rfl

theorem blockLine_text : blockLine l.text = l.shown := by
  rw [blockLine, shown, trimEnd, dropEndWhile_append, ← trimEnd, (ends_of_trim_eq l.trimmed).1]
  split
  · rfl
  · exact String.ofList_append

end CommentLine

/-- The comment has the text of the given lines. -/
def WrittenFrom (written : List CommentLine) (c : Comment) : Prop :=
  c.text = "\n".intercalate (written.map fun l => String.ofList (trim l.chars))

section Comments

variable {c : Comment} {written : List CommentLine}

theorem bareLines_written (said : WrittenFrom written c) (nonempty : written ≠ [])
    (oneLine : ∀ l ∈ written, '\n' ∉ l.chars) : bareLines c = written.map CommentLine.text := by
  have lines : pieces '\n' c.text.toList = written.map fun l => trim l.chars := by
    rw [said, String.toList_intercalate, show "\n".toList = ['\n'] from rfl,
      pieces_intercalate '\n' (by simpa using nonempty), List.map_map, List.flatMap_map,
      List.map_eq_flatMap]
    refine List.flatMap_congr fun l member => ?_
    have feedless : '\n' ∉ trim l.chars :=
      fun feed => oneLine l member ((trim_isInfix l.chars).subset feed)
    rw [Function.comp_apply, String.toList_ofList, pieces_of_notMem feedless]
  rw [bareLines, lines, List.map_map]
  exact List.map_congr_left fun l _ => l.stripMark_trim_chars

/-- The texts that a comment is written from are the lines of its block. -/
theorem openBlock_written (said : WrittenFrom written c) (nonempty : written ≠ [])
    (oneLine : ∀ l ∈ written, '\n' ∉ l.chars)
    (plain : ∀ l ∈ written.head?, ¬ "/*".toList <+: l.text) :
    openBlock false (some c) = "/**" :: written.map CommentLine.shown := by
  have untagged : (bareLines c).filter (fun line => !contains "@module" line) =
      written.map CommentLine.text := by
    rw [bareLines_written said nonempty oneLine, List.filter_eq_self]
    intro text member
    obtain ⟨l, -, rfl⟩ := List.mem_map.mp member
    cases tagged : contains "@module" l.text with
    | false => rfl
    | true => exact absurd (isInfix_of_contains tagged) l.untagged
  have opened : dropFirstOpener (written.map CommentLine.text) = written.map CommentLine.text := by
    cases written with
    | nil => rfl
    | cons first more =>
      exact congrArg (· :: more.map CommentLine.text) (first.dropOpener_text (plain first rfl))
  rw [openBlock, linesOf, commentLines, untagged, opened, List.map_map]
  refine congrArg ("/**" :: ·) (List.map_congr_left ?_)
  intro l _
  have kept : dropClosers l.text = l.text := dropClosers_of_closerless l.closerless
  exact (congrArg blockLine kept).trans l.blockLine_text

end Comments

section Reading

/-- Comment lines go to the comment that the lines above them form. -/
theorem readFrom_comments (dialect : Dialect) {texts : List (List Char)}
    (comments : ∀ text ∈ texts, isComment text = true) (index : Nat) (c : Comment) :
    ∃ whole : Comment, readFrom dialect index { run := some c } texts = .ok { run := some whole } ∧
      whole.text = "\n".intercalate (c.text :: texts.map fun text => String.ofList (trim text)) := by
  induction texts generalizing index c with
  | nil => exact ⟨c, rfl, rfl⟩
  | cons text more ih =>
    rw [List.forall_mem_cons] at comments
    have step : ReaderState.step dialect { run := some c } ⟨index, text⟩ =
        .ok { run := some (c.extend ⟨index, text⟩) } := by
      simp only [ReaderState.step, ReaderState.gather, comments.1]
      rfl
    obtain ⟨whole, read, said⟩ := ih comments.2 (index + 1) (c.extend ⟨index, text⟩)
    refine ⟨whole, ?_, ?_⟩
    · rw [readFrom, step, Outcome.ok_andThen, read]
    · rw [said]
      rfl

/-- Comment lines alone are read as a single comment. -/
theorem parse_comments (dialect : Dialect) {source : String} {texts : List (List Char)}
    (lines_eq : lines source.toList = texts) (nonempty : texts ≠ [])
    (comments : ∀ text ∈ texts, isComment text = true) :
    ∃ c : Comment, parse dialect source = .ok [.comment c] ∧
      c.text = "\n".intercalate (texts.map fun text => String.ofList (trim text)) := by
  cases texts with
  | nil => exact absurd rfl nonempty
  | cons text more =>
    rw [List.forall_mem_cons] at comments
    have step : ReaderState.step dialect {} ⟨0, text⟩ = .ok { run := some (.ofLine ⟨0, text⟩) } := by
      simp only [ReaderState.step, ReaderState.gather, comments.1]
      rfl
    obtain ⟨c, read, said⟩ := readFrom_comments dialect comments.2 1 (.ofLine ⟨0, text⟩)
    refine ⟨c, ?_, said⟩
    rw [parse, lines_eq, readLines, readFrom, step, Outcome.ok_andThen, read, Outcome.ok_andThen]
    rfl

/-- A comment of a tree that covers the lines has their text. -/
theorem writtenFrom_of_linesOf {dialect : Dialect} {source : String} {statements : List Statement}
    (parsed : (parse dialect source).result = .ok statements) {c : Comment}
    (inside : c ∈ commentsWithin (outlines statements)) {written : List CommentLine}
    (nonempty : written ≠ [])
    (same : c.range.linesOf (lines source.toList) = written.map CommentLine.chars) :
    WrittenFrom written c := by
  have kept := (commentLinesOf_outlines parsed).2 c inside
  obtain ⟨first, more, rfl⟩ := List.exists_cons_of_ne_nil nonempty
  -- The first line is a comment line, so the comment is not one that ends a code line.
  have here : (lines source.toList)[c.range.start.line]? = some first.chars := by
    have head := congrArg List.head? same
    have some : c.range.stop.line + 1 - c.range.start.line ≠ 0 := by
      have := kept.line_le
      omega
    rwa [Range.linesOf, List.head?_take, if_neg some, List.head?_drop] at head
  have covered : c.range.covers c.range.start.line = true := by
    simpa [Range.covers] using kept.line_le
  have run := kept.isRun covered ((isCommentAt_eq here).trans first.isComment_chars)
  rw [WrittenFrom, run.text, same, List.map_map]
  rfl

end Reading

/-- A comment is carried over as it is written. Texts on comment lines, each after a mark and any blanks
and asterisks, are read as one comment, and wherever such lines make up a comment of a tree, its block has
the texts line by line and nothing else. -/
theorem comment_carried_verbatim (dialect : Dialect) (written : List CommentLine)
    (nonempty : written ≠ []) (plain : ∀ l ∈ written.head?, ¬ "/*".toList <+: l.text) :
    (∀ source : String, lines source.toList = written.map CommentLine.chars →
      ∃ c, parse dialect source = .ok [.comment c] ∧
        openBlock false (some c) = "/**" :: written.map CommentLine.shown) ∧
    ∀ (source : String) (statements : List Statement),
      (parse dialect source).result = .ok statements →
      ∀ c ∈ commentsWithin (outlines statements),
        c.range.linesOf (lines source.toList) = written.map CommentLine.chars →
        openBlock false (some c) = "/**" :: written.map CommentLine.shown := by
  refine ⟨?_, ?_⟩
  · intro source same
    obtain ⟨c, read, said⟩ := parse_comments dialect same (by simpa using nonempty) (by
      intro text member
      obtain ⟨l, -, rfl⟩ := List.mem_map.mp member
      exact l.isComment_chars)
    rw [List.map_map] at said
    have oneLine : ∀ l ∈ written, '\n' ∉ l.chars :=
      fun l member => lines_notMem (same ▸ List.mem_map_of_mem member)
    exact ⟨c, read, openBlock_written said nonempty oneLine plain⟩
  · intro source statements parsed c inside same
    have oneLine : ∀ l ∈ written, '\n' ∉ l.chars := by
      intro l member
      have among : l.chars ∈ c.range.linesOf (lines source.toList) :=
        same ▸ List.mem_map_of_mem member
      exact lines_notMem (List.mem_of_mem_drop (List.mem_of_mem_take among))
    exact openBlock_written (writtenFrom_of_linesOf parsed inside nonempty same) nonempty oneLine plain

/-- A text that looks like markup after asterisks, a line without text, and an apostrophe and a slash in
the text, alone and in a class. -/
theorem starred_comment_carried :
    let written : List CommentLine := [
      { indent := [' ', '\t'], mark := .apostrophe, stars := 2, gap := [' '], text := "a < 'b'".toList
        blank := List.all_eq_true.mp (by decide), trimmed := by decide, starless := by decide
        closerless := by decide, untagged := by decide },
      { mark := .word true false true, text := []
        blank := List.all_eq_true.mp (by decide), trimmed := by decide, starless := by decide
        closerless := by decide, untagged := by decide },
      { mark := .apostrophe, lead := [' '], stars := 1, text := "/x*".toList
        blank := List.all_eq_true.mp (by decide), trimmed := by decide, starless := by decide
        closerless := by decide, untagged := by decide }]
    let source := " \t'** a < 'b'\nReM \n' */x*"
    let comment : Comment := { text := "'** a < 'b'\nReM\n' */x*", range := ⟨⟨1, 2⟩, ⟨3, 6⟩⟩ }
    lines source.toList = written.map CommentLine.chars ∧
    (∃ c, parse .brightScript source = .ok [.comment c] ∧
      openBlock false (some c) = ["/**", " * a < 'b'", " *", " * /x*"]) ∧
    (∃ statements,
      (parse .brightScript ("class C\n" ++ source ++ "\nend class")).result = .ok statements ∧
      commentsWithin (outlines statements) = [comment]) ∧
    openBlock false (some comment) = ["/**", " * a < 'b'", " *", " * /x*"] := by
  intro written source comment
  have plain : ∀ l ∈ written.head?, ¬ "/*".toList <+: l.text := by
    intro l first
    cases first
    decide
  obtain ⟨alone, within⟩ := comment_carried_verbatim .brightScript written (List.cons_ne_nil _ _) plain
  have shown : written.map CommentLine.shown = [" * a < 'b'", " *", " * /x*"] := by decide +kernel
  rw [shown] at alone within
  have same : lines source.toList = written.map CommentLine.chars := by decide +kernel
  refine ⟨same, alone source same, ?_⟩
  have run : (parse .brightScript ("class C\n" ++ source ++ "\nend class")).result.toOption.map
      (fun statements => commentsWithin (outlines statements)) = some [comment] := by decide +kernel
  cases parsed : (parse .brightScript ("class C\n" ++ source ++ "\nend class")).result with
  | error e =>
    rw [parsed] at run
    cases run
  | ok statements =>
    rw [parsed] at run
    have only : commentsWithin (outlines statements) = [comment] := Option.some.inj run
    refine ⟨⟨statements, rfl, only⟩, within _ _ parsed comment ?_ (by decide +kernel)⟩
    rw [only]
    exact List.mem_cons_self

end BrightDoc.Written
