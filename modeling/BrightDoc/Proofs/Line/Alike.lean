import BrightDoc.Reader.Step

/-! # Lines that differ in texts only

Two lines of a body of code that differ only between the quotes of closed string literals and after the
apostrophe of a comment open and close the same functions: three scanners, one for comments, one for
literals and one for keywords, agree on where a literal ends. -/

namespace BrightDoc.Line

open BrightDoc.Text

/-- The lines agree character by character, but for the text between the two quotes of a literal and the
text after the apostrophe of a comment. A literal that is not closed is part of the code. -/
inductive SameCode : List Char → List Char → Prop where
  | done : SameCode [] []
  | char {c : Char} {line other : List Char} (noQuote : c ≠ '"') (noApostrophe : c ≠ '\'')
      (rest : SameCode line other) : SameCode (c :: line) (c :: other)
  | literal {text changed line other : List Char} (closed : '"' ∉ text) (stillClosed : '"' ∉ changed)
      (rest : SameCode line other) :
      SameCode ('"' :: (text ++ '"' :: line)) ('"' :: (changed ++ '"' :: other))
  | unclosed {text : List Char} (quoteless : '"' ∉ text) : SameCode ('"' :: text) ('"' :: text)
  | comment (text changed : List Char) : SameCode ('\'' :: text) ('\'' :: changed)

/-- The lines say the same to a reader that skips them: they have the same code, or both are comment
lines. -/
def Alike (line other : List Char) : Prop :=
  SameCode line other ∨ isComment line = true ∧ isComment other = true

/-- A line that is not changed has the same code. -/
theorem SameCode.refl (line : List Char) : SameCode line line := by
  induction length : line.length using Nat.strongRecOn generalizing line with
  | ind n ih =>
    cases line with
    | nil => exact .done
    | cons c rest =>
      by_cases quote : c = '"'
      · subst quote
        by_cases closed : '"' ∈ rest
        · obtain ⟨text, more, rfl, quoteless⟩ := List.eq_append_cons_of_mem closed
          refine .literal quoteless quoteless (ih more.length ?_ more rfl)
          simp only [List.length_cons, List.length_append] at length
          omega
        · exact .unclosed closed
      · by_cases apostrophe : c = '\''
        · subst apostrophe
          exact .comment rest rest
        · exact .char quote apostrophe (ih rest.length (by simp [← length]) rest rfl)

/-- Lines with the same code have it after the same words, too. -/
theorem SameCode.after {line other : List Char} (same : SameCode line other) (code : List Char)
    (noQuote : '"' ∉ code) (noApostrophe : '\'' ∉ code) : SameCode (code ++ line) (code ++ other) := by
  induction code with
  | nil => exact same
  | cons c code ih =>
    rw [List.mem_cons, not_or] at noQuote noApostrophe
    exact .char (Ne.symm noQuote.1) (Ne.symm noApostrophe.1) (ih noQuote.2 noApostrophe.2)

theorem SameCode.symm {line other : List Char} (same : SameCode line other) :
    SameCode other line := by
  induction same with
  | done => exact .done
  | char noQuote noApostrophe rest ih => exact .char noQuote noApostrophe ih
  | literal closed stillClosed rest ih => exact .literal stillClosed closed ih
  | unclosed quoteless => exact .unclosed quoteless
  | comment text changed => exact .comment changed text

/-- Blanks at the start are the same. -/
theorem SameCode.skipSpace {line other : List Char} (same : SameCode line other) :
    SameCode (skipSpace line) (skipSpace other) := by
  induction same with
  | done => exact .done
  | char noQuote noApostrophe rest ih =>
    unfold Text.skipSpace at ih ⊢
    rw [List.dropWhile_cons, List.dropWhile_cons]
    split
    · exact ih
    · exact .char noQuote noApostrophe rest
  | literal closed stillClosed rest ih => exact .literal closed stillClosed rest
  | unclosed quoteless => exact .unclosed quoteless
  | comment text changed => exact .comment text changed

/-- A keyword at the start is the same, if it is made of letters. -/
theorem SameCode.spelling? {word line other found rest : List Char} (same : SameCode line other)
    (noQuote : '"' ∉ word) (noApostrophe : '\'' ∉ word)
    (spelled : spelling? word line = some (found, rest)) :
    ∃ rest', Text.spelling? word other = some (found, rest') ∧ SameCode rest rest' := by
  have quote : foldChar '"' = '"' := rfl
  have apostrophe : foldChar '\'' = '\'' := rfl
  induction word generalizing line other found with
  | nil =>
    cases spelled
    exact ⟨other, rfl, same⟩
  | cons w word ih =>
    rw [List.mem_cons, not_or] at noQuote noApostrophe
    cases same with
    | done => cases spelled
    | @char c line other _ _ same =>
      rw [Text.spelling?] at spelled ⊢
      split at spelled
      · rename_i fits
        obtain ⟨⟨found', rest'⟩, more, heq⟩ := Option.map_eq_some_iff.mp spelled
        cases heq
        obtain ⟨after, again, same⟩ := ih same noQuote.2 noApostrophe.2 more
        exact ⟨after, by simp [fits, again], same⟩
      · cases spelled
    | literal closed stillClosed same =>
      rw [Text.spelling?, quote, if_neg noQuote.1] at spelled
      cases spelled
    | unclosed quoteless =>
      rw [Text.spelling?, quote, if_neg noQuote.1] at spelled
      cases spelled
    | comment text changed =>
      rw [Text.spelling?, apostrophe, if_neg noApostrophe.1] at spelled
      cases spelled

theorem SameCode.isComment_of_isComment {line other : List Char} (same : SameCode line other)
    (comment : isComment line = true) : isComment other = true := by
  have start := same.skipSpace
  unfold isComment at comment ⊢
  generalize Text.skipSpace line = line at comment start
  generalize Text.skipSpace other = other at start
  cases start with
  | done => exact comment
  | literal closed stillClosed rest => cases comment
  | unclosed quoteless => cases comment
  | comment text changed => rfl
  | @char c line other noQuote noApostrophe rest =>
    split at comment
    · rename_i start
      exact absurd (List.cons.inj start).1 noApostrophe
    split
    · rfl
    -- The word `rem` is followed by nothing or by a blank, so it is in both lines.
    obtain ⟨after, keyword⟩ : ∃ after, afterKeyword? "rem" (c :: line) = some after := by
      cases keyword : afterKeyword? "rem" (c :: line) with
      | none => simp [keyword] at comment
      | some after => exact ⟨after, rfl⟩
    obtain ⟨⟨found, _⟩, spelled, rfl⟩ := Option.map_eq_some_iff.mp keyword
    obtain ⟨after', again, same⟩ :=
      (SameCode.char noQuote noApostrophe rest).spelling? (by decide) (by decide) spelled
    have keyword' : afterKeyword? "rem" (c :: other) = some after' := by
      rw [afterKeyword?, again]
      rfl
    rw [keyword] at comment
    rw [keyword']
    cases after' with
    | nil => rfl
    | cons d after' =>
      cases same with
      | char noQuote noApostrophe rest => exact comment
      | literal closed stillClosed rest => exact comment
      | unclosed quoteless => exact comment
      | comment text changed => exact comment

/-- Whether a line is a comment line depends on its code only. -/
theorem SameCode.isComment_eq {line other : List Char} (same : SameCode line other) :
    isComment other = isComment line := by
  rw [Bool.eq_iff_iff]
  exact ⟨same.symm.isComment_of_isComment, same.isComment_of_isComment⟩

/-- No comment starts in a literal, and after its closing quote the line goes on as code. -/
theorem cutComment_closed {text : List Char} (closed : '"' ∉ text) (line : List Char) :
    cutComment true (text ++ '"' :: line) =
      (text ++ '"' :: (cutComment false line).1, (cutComment false line).2) := by
  induction text with
  | nil => rfl
  | cons c text ih =>
    rw [List.mem_cons, not_or] at closed
    rw [List.cons_append, cutComment, if_neg (by simp), if_neg (Ne.symm closed.1), ih closed.2]
    rfl

/-- A closed literal is emptied, whatever is in it. -/
theorem emptyStringsFrom_closed {text : List Char} (closed : '"' ∉ text) (held line : List Char) :
    emptyStringsFrom (some held) (text ++ '"' :: line) =
      '"' :: '"' :: emptyStringsFrom none line := by
  induction text generalizing held with
  | nil => rfl
  | cons c text ih =>
    rw [List.mem_cons, not_or] at closed
    rw [List.cons_append, emptyStringsFrom, if_neg (Ne.symm closed.1), ih closed.2]

/-- With its literals emptied, the code before the comment is the same. -/
theorem SameCode.emptyStrings_eq {line other : List Char} (same : SameCode line other) :
    emptyStrings (splitComment other).1 = emptyStrings (splitComment line).1 := by
  unfold emptyStrings splitComment
  induction same with
  | done => rfl
  | @char c line other noQuote noApostrophe rest ih =>
    have code : ∀ cs : List Char, (cutComment false (c :: cs)).1 = c :: (cutComment false cs).1 := by
      intro cs
      rw [cutComment, if_neg (by simp [noApostrophe]), if_neg noQuote]
    simp only [code, emptyStringsFrom, if_neg noQuote, ih]
  | @literal text changed line other closed stillClosed rest ih =>
    have code : ∀ text line : List Char, '"' ∉ text →
        emptyStringsFrom none (cutComment false ('"' :: (text ++ '"' :: line))).1 =
          '"' :: '"' :: emptyStringsFrom none (cutComment false line).1 := by
      intro text line closed
      have cut : (cutComment false ('"' :: (text ++ '"' :: line))).1 =
          '"' :: (cutComment true (text ++ '"' :: line)).1 := rfl
      rw [cut, cutComment_closed closed]
      exact emptyStringsFrom_closed closed [] _
    rw [code text line closed, code changed other stillClosed, ih]
  | unclosed quoteless => rfl
  | comment text changed => rfl

end BrightDoc.Line

namespace BrightDoc

/-- Alike lines leave the same number of functions open. -/
theorem bodyDepth_of_alike {line other : List Char} (alike : Line.Alike line other)
    (depth index : Nat) : bodyDepth depth ⟨index, other⟩ = bodyDepth depth ⟨index, line⟩ := by
  rcases alike with same | ⟨comment, comment'⟩
  · have code := same.emptyStrings_eq
    simp only [bodyDepth, SourceLine.code, Line.openedFunctions, Line.closedFunctions,
      same.isComment_eq, code]
  · simp only [bodyDepth, comment, comment', if_true]

end BrightDoc
