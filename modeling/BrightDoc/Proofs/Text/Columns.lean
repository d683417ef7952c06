import BrightDoc.Reader.State

/-! # Columns of a line

Columns are counted in UTF-8 bytes, so not every number up to the length of a line is one: a column is
the length of a beginning of the line. The columns where a line, its code and its comment start and
end are all of this sort, and where something is written the end comes after the start. -/

namespace BrightDoc.Text

/-- A place between two characters of the line, by the bytes before it. -/
def IsColumn (line : List Char) (column : Nat) : Prop :=
  ∃ start, start <+: line ∧ byteLength start = column

theorem isColumn_of_append (start rest : List Char) : IsColumn (start ++ rest) (byteLength start) :=
  ⟨start, List.prefix_append start rest, rfl⟩

/-- No column lies beyond the end of its line. -/
theorem IsColumn.le {line : List Char} {column : Nat} (h : IsColumn line column) :
    column ≤ byteLength line := by
  obtain ⟨start, ⟨rest, rfl⟩, rfl⟩ := h
  rw [byteLength_append]
  omega

/-- The columns of a beginning of a line are columns of the line. -/
theorem IsColumn.extend {start line : List Char} {column : Nat} (h : IsColumn start column)
    (isStart : start <+: line) : IsColumn line column := by
  obtain ⟨first, before, length⟩ := h
  exact ⟨first, before.trans isStart, length⟩

theorem dropEndWhile_isPrefix (p : Char → Bool) (cs : List Char) : dropEndWhile p cs <+: cs := by
  induction cs with
  | nil => exact List.prefix_refl _
  | cons c cs ih =>
    rw [dropEndWhile]
    split
    · split
      · exact List.nil_prefix
      · exact List.cons_prefix_cons.mpr ⟨rfl, List.nil_prefix⟩
    · exact List.cons_prefix_cons.mpr ⟨rfl, ih⟩

/-- What is left does not end in a character that is dropped. -/
theorem getLast?_dropEndWhile {p : Char → Bool} {cs : List Char} {c : Char}
    (last : (dropEndWhile p cs).getLast? = some c) : p c = false := by
  induction cs with
  | nil => cases last
  | cons d cs ih =>
    rw [dropEndWhile] at last
    split at last
    · split at last
      · cases last
      · rename_i kept
        cases last
        exact Bool.eq_false_iff.mpr kept
    · rename_i rest remains
      rw [List.getLast?_cons_of_ne_nil remains] at last
      exact ih last

/-- Dropping at the end stops at a character that is not dropped. -/
theorem dropEndWhile_append_cons (p : Char → Bool) {c : Char} (kept : p c = false)
    (before after : List Char) :
    dropEndWhile p (before ++ c :: after) = before ++ c :: dropEndWhile p after := by
  have last : dropEndWhile p (c :: after) = c :: dropEndWhile p after := by
    rw [dropEndWhile]
    split
    · rename_i empty
      simp [kept, empty]
    · rfl
  induction before with
  | nil => exact last
  | cons b before ih =>
    rw [List.cons_append, dropEndWhile, ih]
    cases before <;> rfl

theorem dropEndWhile_append_of_all {p : Char → Bool} {after : List Char} (all : ∀ c ∈ after, p c = true)
    (cs : List Char) : dropEndWhile p (cs ++ after) = dropEndWhile p cs := by
  induction cs with
  | nil => exact dropEndWhile_eq_nil_iff.mpr (List.all_eq_true.mpr all)
  | cons c cs ih => rw [List.cons_append, dropEndWhile, ih, dropEndWhile]

theorem dropEndWhile_append (p : Char → Bool) (cs ds : List Char) :
    dropEndWhile p (cs ++ ds) =
      if dropEndWhile p ds = [] then dropEndWhile p cs else cs ++ dropEndWhile p ds := by
  split
  · rename_i empty
    exact dropEndWhile_append_of_all (List.all_eq_true.mp (dropEndWhile_eq_nil_iff.mp empty)) cs
  · rename_i remains
    induction cs with
    | nil => rfl
    | cons c cs ih =>
      rw [List.cons_append, dropEndWhile, ih]
      split
      · rename_i empty
        exact absurd (List.append_eq_nil_iff.mp empty).2 remains
      · rfl

/-- A text in which something is written is some white space, and then a character that is none. -/
theorem split_at_first_inked {cs : List Char} {c : Char} (member : c ∈ cs)
    (inked : isWhite c = false) :
    ∃ lead first rest, cs = lead ++ first :: rest ∧ (∀ d ∈ lead, isWhite d = true) ∧
      isWhite first = false := by
  induction cs with
  | nil => cases member
  | cons d ds ih =>
    cases white : isWhite d with
    | false => exact ⟨[], d, ds, rfl, by simp, white⟩
    | true =>
      have member : c ∈ ds := by
        rcases List.mem_cons.mp member with rfl | member
        · rw [white] at inked
          cases inked
        · exact member
      obtain ⟨lead, first, rest, split, allWhite, notWhite⟩ := ih member
      refine ⟨d :: lead, first, rest, by rw [split]; rfl, ?_, notWhite⟩
      intro e found
      rcases List.mem_cons.mp found with rfl | found
      · exact white
      · exact allWhite e found

/-- The white space at the start of a text that goes on with another character. -/
theorem takeWhile_white_append {lead : List Char} (allWhite : ∀ d ∈ lead, isWhite d = true)
    {first : Char} (notWhite : isWhite first = false) (rest : List Char) :
    (lead ++ first :: rest).takeWhile isWhite = lead := by
  rw [List.takeWhile_append_of_pos allWhite, List.takeWhile_cons_of_neg (by simp [notWhite]),
    List.append_nil]

/-- White space only at its start, a text that starts with another character is trimmed at its end
alone. -/
theorem trim_cons_of_inked {c : Char} (inked : isWhite c = false) (cs : List Char) :
    trim (c :: cs) = trimEnd (c :: cs) := by
  have kept : trimEnd (c :: cs) = c :: trimEnd cs := dropEndWhile_append_cons isWhite inked [] cs
  rw [trim, kept, trimStart, List.dropWhile_cons_of_neg (by simp [inked])]

end BrightDoc.Text

namespace BrightDoc.Line

open BrightDoc.Text

theorem startColumn_isColumn (line : List Char) : IsColumn line (startColumn line) :=
  ⟨line.takeWhile isWhite, List.takeWhile_prefix isWhite, rfl⟩

theorem endColumn_isColumn (line : List Char) : IsColumn line (endColumn line) :=
  ⟨trimEnd line, dropEndWhile_isPrefix isWhite line, rfl⟩

/-- A line starts before a part of it ends in which something is written. -/
theorem startColumn_lt_endColumn {code line : List Char} (isStart : code <+: line) {c : Char}
    (member : c ∈ code) (inked : isWhite c = false) : startColumn line < endColumn code := by
  obtain ⟨lead, first, rest, rfl, allWhite, notWhite⟩ := split_at_first_inked member inked
  obtain ⟨tail, rfl⟩ := isStart
  have start : (lead ++ first :: rest ++ tail).takeWhile isWhite = lead := by
    rw [List.append_assoc, List.cons_append]
    exact takeWhile_white_append allWhite notWhite (rest ++ tail)
  have stop : trimEnd (lead ++ first :: rest) = lead ++ first :: trimEnd rest :=
    dropEndWhile_append_cons isWhite notWhite lead rest
  rw [startColumn, endColumn, start, stop, byteLength_append, byteLength]
  have := first.utf8Size_pos
  omega

theorem splitComment_append (line : List Char) :
    (splitComment line).1 ++ (splitComment line).2.getD [] = line :=
  cutComment_append false line

/-- The comment that ends a line starts with its apostrophe. -/
theorem cutComment_some {quoted : Bool} {line text : List Char}
    (found : (cutComment quoted line).2 = some text) : ∃ rest, text = '\'' :: rest := by
  induction line generalizing quoted with
  | nil => cases found
  | cons c cs ih =>
    rw [cutComment] at found
    split at found
    · rename_i here
      simp only [Bool.and_eq_true, decide_eq_true_eq] at here
      cases found
      exact ⟨cs, by rw [here.1]⟩
    · exact ih found

end BrightDoc.Line
