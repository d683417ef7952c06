import BrightDoc.Doc.Comment
import BrightDoc.Proofs.Text.Columns
import BrightDoc.Proofs.Text.Pieces

/-! # Documentation lines without closing marks

What a comment gives to a documentation block holds no mark that would close the block: the marks are
dropped from it, and neither escaping nor trimming brings a new one about. Main statement: a comment
opens its block and goes on with starred lines, and neither these nor its summary close the block. -/

namespace BrightDoc.Doc

open BrightDoc.Text

/-- The mark that closes a documentation block does not occur in the text. -/
def Closerless (cs : List Char) : Prop :=
  ¬ ['*', '/'] <:+: cs

instance (cs : List Char) : Decidable (Closerless cs) :=
  inferInstanceAs (Decidable (¬ ['*', '/'] <:+: cs))

theorem closerless_nil : Closerless [] := by
  simp [Closerless]

theorem closerless_cons {c : Char} {cs : List Char} :
    Closerless (c :: cs) ↔ (c = '*' → cs.head? ≠ some '/') ∧ Closerless cs := by
  have start : ['*', '/'] <+: c :: cs ↔ c = '*' ∧ cs.head? = some '/' := by
    cases cs with
    | nil => simp
    | cons d ds =>
      simp only [List.cons_prefix_cons, List.nil_prefix, and_true, List.head?_cons,
        Option.some.injEq]
      exact and_congr eq_comm eq_comm
  rw [Closerless, Closerless, List.infix_cons_iff, start, not_or, not_and]

theorem Closerless.part {part cs : List Char} (closerless : Closerless cs)
    (inside : part <:+: cs) : Closerless part :=
  fun found => closerless (found.trans inside)

theorem closerless_of_notMem_star {cs : List Char} (free : '*' ∉ cs) : Closerless cs :=
  fun found => free (found.subset (by simp))

theorem closerless_of_notMem_slash {cs : List Char} (free : '/' ∉ cs) : Closerless cs :=
  fun found => free (found.subset (by simp))

/-- Around a character that is neither asterisk nor slash the two sides have nothing to do with each
other. -/
theorem closerless_append_cons {c : Char} (notStar : c ≠ '*') (notSlash : c ≠ '/')
    {before after : List Char} :
    Closerless (before ++ c :: after) ↔ Closerless before ∧ Closerless after := by
  induction before with
  | nil => simp [closerless_cons, closerless_nil, notStar]
  | cons b before ih =>
    rw [List.cons_append, closerless_cons, closerless_cons, ih]
    have head : (before ++ c :: after).head? = some '/' ↔ before.head? = some '/' := by
      cases before with
      | nil => simp [notSlash]
      | cons d ds => rfl
    rw [ne_eq, head, and_assoc]

theorem closerless_dropClosersFrom (stars : Nat) (closed : Bool) (cs : List Char) :
    Closerless (dropClosersFrom stars closed cs) := by
  induction cs generalizing stars closed with
  | nil =>
    rw [dropClosersFrom]
    apply closerless_of_notMem_slash
    intro member
    exact absurd (List.eq_of_mem_replicate member) (by decide)
  | cons c cs ih =>
    rw [dropClosersFrom]
    split
    · exact ih _ _
    rename_i notStar
    split
    · exact ih _ _
    rename_i open_
    split
    · exact ih _ _
    cases stars with
    | zero =>
      rw [List.replicate_zero, List.nil_append, closerless_cons]
      exact ⟨fun star => absurd star notStar, ih _ _⟩
    | succ stars =>
      -- Asterisks are written out only before a character that does not close the block.
      have notSlash : c ≠ '/' := by
        intro slash
        simp [slash] at open_
      rw [closerless_append_cons notStar notSlash]
      refine ⟨closerless_of_notMem_slash ?_, ih _ _⟩
      intro member
      exact absurd (List.eq_of_mem_replicate member) (by decide)

theorem closerless_dropClosers (cs : List Char) : Closerless (dropClosers cs) :=
  closerless_dropClosersFrom 0 false cs

/-- A text without closing marks keeps all its asterisks. -/
theorem dropClosersFrom_of_closerless (stars : Nat) {cs : List Char}
    (closerless : Closerless (List.replicate stars '*' ++ cs)) :
    dropClosersFrom stars false cs = List.replicate stars '*' ++ cs := by
  induction cs generalizing stars with
  | nil => rw [dropClosersFrom, List.append_nil]
  | cons c cs ih =>
    rw [dropClosersFrom]
    split
    · rename_i star
      have shifted : List.replicate stars '*' ++ c :: cs = List.replicate (stars + 1) '*' ++ cs := by
        rw [star, List.replicate_succ', List.append_assoc]
        rfl
      rw [shifted] at closerless ⊢
      exact ih (stars + 1) closerless
    split
    · rename_i closes
      simp only [Bool.and_eq_true, decide_eq_true_eq] at closes
      -- The last of the asterisks would make a closing mark with the slash.
      refine absurd ?_ closerless
      obtain ⟨before, more⟩ : ∃ before, stars = before + 1 := ⟨stars - 1, by omega⟩
      rw [closes.1, more, List.replicate_succ', List.append_assoc]
      exact ⟨List.replicate before '*', cs, by simp⟩
    · rw [Bool.false_and, if_neg Bool.false_ne_true,
        ih 0 (closerless.part ⟨List.replicate stars '*' ++ [c], [], by simp⟩)]
      rfl

theorem dropClosers_of_closerless {cs : List Char} (closerless : Closerless cs) : dropClosers cs = cs :=
  dropClosersFrom_of_closerless 0 closerless

theorem entity_eq (c : Char) :
    entity c = [c] ∨ ∃ rest, entity c = '&' :: rest ∧ '*' ∉ rest ∧ '/' ∉ rest ∧ '\n' ∉ rest := by
  unfold entity
  split
  all_goals first
    | exact Or.inl rfl
    | exact Or.inr ⟨_, rfl, by decide, by decide, by decide⟩

theorem closerless_escapeMarkup {cs : List Char} (closerless : Closerless cs) :
    Closerless (escapeMarkup cs) := by
  induction cs with
  | nil => exact closerless_nil
  | cons c cs ih =>
    rw [closerless_cons] at closerless
    have rest := ih closerless.2
    rw [escapeMarkup, List.flatMap_cons]
    rcases entity_eq c with same | ⟨tail, written, noStar, -⟩
    · rw [same, List.singleton_append, closerless_cons]
      refine ⟨?_, rest⟩
      -- A slash comes first in the escaped text only where it does in the text itself.
      intro star slash
      apply closerless.1 star
      cases cs with
      | nil => exact slash
      | cons d ds =>
        rw [List.flatMap_cons] at slash
        rcases entity_eq d with same | ⟨tail, written, -⟩
        · rw [same] at slash
          exact slash
        · rw [written] at slash
          cases slash
    · rw [written]
      have apart : ∀ lead : List Char, '*' ∉ lead → Closerless (lead ++ cs.flatMap entity) := by
        intro lead free
        induction lead with
        | nil => exact rest
        | cons d lead ih =>
          rw [List.mem_cons, not_or] at free
          rw [List.cons_append, closerless_cons]
          exact ⟨fun star => absurd star (Ne.symm free.1), ih free.2⟩
      apply apart
      rw [List.mem_cons, not_or]
      exact ⟨by decide, noStar⟩

theorem closerless_shown {cs : List Char} (escape : Bool) (closerless : Closerless cs) :
    Closerless (shown escape cs) := by
  rw [shown]
  split
  · exact closerless_escapeMarkup closerless
  · exact closerless

theorem mem_dropClosersFrom {stars : Nat} {closed : Bool} {cs : List Char} {c : Char}
    (member : c ∈ dropClosersFrom stars closed cs) : c = '*' ∨ c ∈ cs := by
  induction cs generalizing stars closed with
  | nil => exact Or.inl (List.eq_of_mem_replicate member)
  | cons d cs ih =>
    rw [dropClosersFrom] at member
    split at member
    · exact (ih member).imp_right (List.mem_cons_of_mem d)
    split at member
    · exact (ih member).imp_right (List.mem_cons_of_mem d)
    split at member
    · exact (ih member).imp_right (List.mem_cons_of_mem d)
    rcases List.mem_append.mp member with star | member
    · exact Or.inl (List.eq_of_mem_replicate star)
    rcases List.mem_cons.mp member with rfl | member
    · exact Or.inr List.mem_cons_self
    · exact (ih member).imp_right (List.mem_cons_of_mem d)

theorem feedless_shown {cs : List Char} (escape : Bool) (feedless : '\n' ∉ cs) :
    '\n' ∉ shown escape (dropClosers cs) := by
  have dropped : '\n' ∉ dropClosers cs := by
    intro member
    rcases mem_dropClosersFrom member with star | member
    · cases star
    · exact feedless member
  rw [shown]
  split
  · intro member
    obtain ⟨c, inside, member⟩ := List.mem_flatMap.mp member
    rcases entity_eq c with same | ⟨rest, written, -, -, noFeed⟩
    · rw [same] at member
      rw [List.mem_singleton.mp member] at dropped
      exact dropped inside
    · rw [written, List.mem_cons] at member
      rcases member with amp | member
      · cases amp
      · exact noFeed member
  · exact dropped

theorem trim_isInfix (cs : List Char) : trim cs <:+: cs :=
  (List.dropWhile_suffix isWhite).isInfix.trans (dropEndWhile_isPrefix isWhite cs).isInfix

theorem afterMark?_suffix {line rest : List Char} (found : afterMark? line = some rest) :
    rest <:+ line := by
  have skipped : skipSpace line <:+ line := List.dropWhile_suffix isSpace
  refine List.IsSuffix.trans ?_ skipped
  rw [afterMark?] at found
  split at found
  · rename_i cs start
    cases found
    rw [start]
    exact List.suffix_cons _ _
  · split at found
    · rename_i keyword
      split at found
      · cases found
        obtain ⟨spelled, spelling, same⟩ := Option.map_eq_some_iff.mp keyword
        rw [← same]
        exact ⟨_, (spelling?_append spelling).symm⟩
      · cases found
    · cases found

theorem stripMark_isInfix (line : List Char) : stripMark line <:+: line := by
  rw [stripMark]
  split
  · rename_i rest found
    have inside : skipSpace ((skipSpace rest).dropWhile (· == '*')) <:+ rest :=
      (List.dropWhile_suffix isSpace).trans
        ((List.dropWhile_suffix (· == '*')).trans (List.dropWhile_suffix isSpace))
    exact (trim_isInfix _).trans (inside.trans (afterMark?_suffix found)).isInfix
  · exact trim_isInfix line

theorem dropOpener_isInfix (line : List Char) : dropOpener line <:+: line := by
  have skipped : skipSpace line <:+ line := List.dropWhile_suffix isSpace
  refine List.IsSuffix.isInfix (List.IsSuffix.trans ?_ skipped)
  rw [dropOpener]
  split
  · rename_i rest start
    have inside : rest <:+ skipSpace line := by
      rw [start]
      exact (List.suffix_cons _ _).trans (List.suffix_cons _ _)
    exact (List.dropWhile_suffix isSpace).trans ((List.dropWhile_suffix (· == '*')).trans inside)
  · exact List.suffix_refl _

theorem bareLines_feedless {c : Comment} {line : List Char} (member : line ∈ bareLines c) :
    '\n' ∉ line := by
  obtain ⟨piece, inside, rfl⟩ := List.mem_map.mp member
  exact fun feed => (infix_of_mem_pieces inside).2 ((stripMark_isInfix piece).subset feed)

/-- A line that leaves its documentation block as it is. -/
structure DocLine (s : String) : Prop where
  starred : [' ', '*'] <+: s.toList
  feedless : '\n' ∉ s.toList
  closerless : Closerless s.toList

instance (s : String) : Decidable (DocLine s) :=
  decidable_of_iff ([' ', '*'] <+: s.toList ∧ '\n' ∉ s.toList ∧ Closerless s.toList)
    ⟨fun ⟨starred, feedless, closerless⟩ => ⟨starred, feedless, closerless⟩,
      fun line => ⟨line.starred, line.feedless, line.closerless⟩⟩

theorem docLine_blockLine {text : List Char} (feedless : '\n' ∉ text)
    (closerless : Closerless text) : DocLine (blockLine text) := by
  -- The asterisk is never trimmed.
  have kept : trimEnd (" * ".toList ++ text) = [' ', '*'] ++ trimEnd (' ' :: text) :=
    dropEndWhile_append_cons isWhite (c := '*') (by decide) [' '] (' ' :: text)
  refine ⟨?_, ?_, ?_⟩
  · rw [blockLine, String.toList_ofList, kept]
    exact List.prefix_append _ _
  · rw [blockLine, String.toList_ofList]
    intro feed
    have feed := (dropEndWhile_isPrefix isWhite _).subset feed
    rw [List.mem_append] at feed
    rcases feed with feed | feed
    · exact absurd feed (by decide)
    · exact feedless feed
  · rw [blockLine, String.toList_ofList, kept]
    have whole : Closerless ([' ', '*'] ++ ' ' :: text) := by
      rw [closerless_append_cons (by decide) (by decide)]
      exact ⟨closerless_of_notMem_slash (by decide), closerless⟩
    exact whole.part (List.prefix_append_right_inj _ |>.mpr
      (dropEndWhile_isPrefix isWhite (' ' :: text))).isInfix

theorem docLine_commentLines {escape : Bool} {c : Comment} {s : String}
    (member : s ∈ commentLines escape c) : DocLine s := by
  obtain ⟨line, inside, rfl⟩ := List.mem_map.mp member
  have feedless : '\n' ∉ line := by
    have kept : ∀ line ∈ (bareLines c).filter fun line => !contains "@module" line, '\n' ∉ line :=
      fun line member => bareLines_feedless (List.mem_of_mem_filter member)
    generalize (bareLines c).filter (fun line => !contains "@module" line) = lines at inside kept
    cases lines with
    | nil => cases inside
    | cons first more =>
      rcases List.mem_cons.mp inside with rfl | inside
      · intro feed
        exact kept first List.mem_cons_self ((dropOpener_isInfix first).subset feed)
      · exact kept line (List.mem_cons_of_mem _ inside)
  exact docLine_blockLine (feedless_shown escape feedless)
    (closerless_shown escape (closerless_dropClosers line))

/-- The lines that a comment gives to a documentation block leave it as it is. -/
theorem docLine_linesOf {escape : Bool} {comment : Option Comment} {s : String}
    (member : s ∈ linesOf escape comment) : DocLine s := by
  cases comment with
  | none => cases member
  | some c => exact docLine_commentLines member

/-- The text has a single line and closes no documentation block. -/
def CleanText (cs : List Char) : Prop :=
  '\n' ∉ cs ∧ Closerless cs

theorem CleanText.part {part cs : List Char} (clean : CleanText cs) (inside : part <:+: cs) :
    CleanText part :=
  ⟨fun feed => clean.1 (inside.subset feed), clean.2.part inside⟩

theorem clean_summary (escape : Bool) (comment : Option Comment) :
    CleanText (summary escape comment).toList := by
  cases comment with
  | none => exact ⟨List.not_mem_nil, closerless_nil⟩
  | some c =>
    rw [summary, String.toList_ofList]
    refine ⟨feedless_shown escape ?_, closerless_shown escape (closerless_dropClosers _)⟩
    intro feed
    rcases mem_intercalate feed with space | ⟨line, inside, feed⟩
    · exact absurd space (by decide)
    · exact bareLines_feedless (List.mem_of_mem_filter inside) feed

/-- The line does not end in white space. -/
def EndsTrimmed (s : String) : Prop :=
  ∀ c ∈ s.toList.getLast?, isWhite c = false

theorem endsTrimmed_blockLine (text : List Char) : EndsTrimmed (blockLine text) := by
  intro c last
  rw [blockLine, String.toList_ofList] at last
  exact getLast?_dropEndWhile last

theorem endsTrimmed_linesOf {escape : Bool} {comment : Option Comment} {s : String}
    (member : s ∈ linesOf escape comment) : EndsTrimmed s := by
  cases comment with
  | none => cases member
  | some c =>
    obtain ⟨line, -, rfl⟩ := List.mem_map.mp member
    exact endsTrimmed_blockLine _

/-- Whatever its text, a comment closes no block: no line that it gives to a block holds the closing
mark, and neither does its summary. The block is opened, and only starred lines without white space at
their ends come after that. -/
theorem comment_never_closes (escape : Bool) (comment : Option Comment) :
    (∀ line ∈ openBlock escape comment, Closerless line.toList) ∧
      Closerless (summary escape comment).toList ∧
      ∃ lines, openBlock escape comment = "/**" :: lines ∧
        ∀ line ∈ lines, [' ', '*'] <+: line.toList ∧ EndsTrimmed line := by
  refine ⟨?_, (clean_summary escape comment).2, linesOf escape comment, rfl, ?_⟩
  · intro line member
    rcases List.mem_cons.mp member with rfl | member
    · decide
    · exact (docLine_linesOf member).closerless
  · intro line member
    exact ⟨(docLine_linesOf member).starred, endsTrimmed_linesOf member⟩

end BrightDoc.Doc
