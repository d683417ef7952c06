import BrightDoc.Proofs.Line.Literals
import BrightDoc.Reader.Step

/-! # Lines with other blanks before them

A line is recognised as what it is after the blanks that it starts with. So two lines that agree from
there on are the same comment, annotation, header or member, in which the same functions are opened and
closed; only the columns differ. -/

namespace BrightDoc.Line

open BrightDoc.Text

/-- The lines agree after the blanks that they start with. -/
def Reindented (line other : List Char) : Prop :=
  skipSpace line = skipSpace other

theorem Reindented.skipSpace_eq {line other : List Char} (same : Reindented line other) :
    skipSpace line = skipSpace other :=
  same

theorem Reindented.symm {line other : List Char} (same : Reindented line other) :
    Reindented other line :=
  Eq.symm same

theorem skipSpace_append {blanks : List Char} (blank : ∀ c ∈ blanks, isSpace c = true)
    (line : List Char) : skipSpace (blanks ++ line) = skipSpace line :=
  List.dropWhile_append_of_pos blank

theorem reindented_append {blanks : List Char} (blank : ∀ c ∈ blanks, isSpace c = true)
    (line : List Char) : Reindented line (blanks ++ line) :=
  (skipSpace_append blank line).symm

/-- A line is what follows its blanks, after the blanks. -/
theorem exists_blanks (line : List Char) :
    ∃ blanks, (∀ c ∈ blanks, isSpace c = true) ∧ line = blanks ++ skipSpace line :=
  ⟨line.takeWhile isSpace, fun _ => List.mem_takeWhile_imp,
    (List.takeWhile_append_dropWhile).symm⟩

/-- What blanks do not change is the same of lines that agree after them. -/
theorem Reindented.eq_of_append {α : Type} {f : List Char → α}
    (kept : ∀ blanks line, (∀ c ∈ blanks, isSpace c = true) → f (blanks ++ line) = f line)
    {line other : List Char} (same : Reindented line other) : f line = f other := by
  obtain ⟨blanks, blank, split⟩ := exists_blanks line
  obtain ⟨blanks', blank', split'⟩ := exists_blanks other
  rw [split, split', kept _ _ blank, kept _ _ blank', same.skipSpace_eq]

/-- A blank is no quote, no apostrophe, no character of a word, and no letter of a keyword. -/
theorem isSpace_apart {c : Char} (blank : isSpace c = true) :
    c ≠ '"' ∧ c ≠ '\'' ∧ isWord c = false ∧ foldChar c = c := by
  have ascii : c.toNat < 128 := by
    simp only [isSpace, Bool.or_eq_true, Bool.and_eq_true, decide_eq_true_eq, beq_iff_eq] at blank
    rcases blank with rfl | blank
    · decide
    · omega
  revert blank
  exact of_ascii (P := fun c => isSpace c = true →
    c ≠ '"' ∧ c ≠ '\'' ∧ isWord c = false ∧ foldChar c = c) (by decide +kernel) ascii

section Layout

variable {line other : List Char}

theorem Reindented.isComment_eq (same : Reindented line other) : isComment line = isComment other := by
  rw [isComment, isComment, same.skipSpace_eq]

theorem Reindented.annotationName?_eq (same : Reindented line other) :
    annotationName? line = annotationName? other := by
  rw [annotationName?, annotationName?, same.skipSpace_eq]

theorem Reindented.isBlank_eq (same : Reindented line other) : isBlank line = isBlank other := by
  refine same.eq_of_append fun blanks line blank => ?_
  rw [isBlank, List.all_append, List.all_eq_true.mpr blank, Bool.true_and, isBlank]

theorem Reindented.trim_eq (same : Reindented line other) : trim line = trim other :=
  same.eq_of_append fun _ line blank =>
    trim_of_white_append (fun c member => isWhite_of_isSpace (blank c member)) line

/-- No comment starts in the blanks before a line. -/
theorem splitComment_blanks {blanks : List Char} (blank : ∀ c ∈ blanks, isSpace c = true)
    (line : List Char) :
    splitComment (blanks ++ line) = (blanks ++ (splitComment line).1, (splitComment line).2) := by
  induction blanks with
  | nil => rfl
  | cons c blanks ih =>
    rw [List.forall_mem_cons] at blank
    obtain ⟨noQuote, noApostrophe, -⟩ := isSpace_apart blank.1
    have rest : cutComment false (blanks ++ line) = _ := ih blank.2
    rw [splitComment, List.cons_append, cutComment, if_neg (by simp [noApostrophe]), if_neg noQuote,
      rest]
    rfl

theorem Reindented.comment_eq (same : Reindented line other) :
    (splitComment line).2 = (splitComment other).2 :=
  same.eq_of_append (f := fun line => (splitComment line).2) fun _ line blank => by
    rw [splitComment_blanks blank line]

theorem Reindented.code (same : Reindented line other) :
    Reindented (splitComment line).1 (splitComment other).1 :=
  same.eq_of_append (f := fun line => skipSpace (splitComment line).1) fun _ line blank => by
    rw [splitComment_blanks blank line, skipSpace_append blank]

end Layout

section Code

variable {code other : List Char} (same : Reindented code other)

include same

theorem Reindented.blockEnd?_eq : blockEnd? code = blockEnd? other := by
  rw [blockEnd?, blockEnd?, same.skipSpace_eq]

theorem Reindented.functionLead?_eq : functionLead? code = functionLead? other := by
  rw [functionLead?, functionLead?, same.skipSpace_eq]

theorem Reindented.functionHeader?_eq : functionHeader? code = functionHeader? other := by
  rw [functionHeader?, functionHeader?, same.functionLead?_eq]

theorem Reindented.startsFunction_eq : startsFunction code = startsFunction other := by
  rw [startsFunction, startsFunction, same.functionLead?_eq]

theorem Reindented.declarationWord?_eq : declarationWord? code = declarationWord? other := by
  rw [declarationWord?, declarationWord?, same.skipSpace_eq]

theorem Reindented.afterWord?_eq (word : String) : afterWord? word code = afterWord? word other := by
  rw [afterWord?, afterWord?, same.skipSpace_eq]

theorem Reindented.inheritingHeader?_eq (word : String) :
    inheritingHeader? word code = inheritingHeader? word other := by
  rw [inheritingHeader?, inheritingHeader?, same.afterWord?_eq]

theorem Reindented.enumHeader?_eq : enumHeader? code = enumHeader? other := by
  rw [enumHeader?, enumHeader?, same.afterWord?_eq]

theorem Reindented.namespaceHeader?_eq : namespaceHeader? code = namespaceHeader? other := by
  rw [namespaceHeader?, namespaceHeader?, same.afterWord?_eq]

theorem Reindented.constant?_eq : constant? code = constant? other := by
  rw [constant?, constant?, same.afterWord?_eq]

theorem Reindented.field?_eq : field? code = field? other := by
  rw [field?, field?, same.skipSpace_eq]

theorem Reindented.interfaceField?_eq : interfaceField? code = interfaceField? other := by
  rw [interfaceField?, interfaceField?, same.skipSpace_eq]

theorem Reindented.enumMember?_eq : enumMember? code = enumMember? other := by
  rw [enumMember?, enumMember?, same.skipSpace_eq]

end Code

section Bodies

variable {blanks : List Char} (blank : ∀ c ∈ blanks, isSpace c = true)

include blank

theorem emptyStrings_blanks (code : List Char) :
    emptyStrings (blanks ++ code) = blanks ++ emptyStrings code := by
  unfold emptyStrings
  induction blanks with
  | nil => rfl
  | cons c blanks ih =>
    rw [List.forall_mem_cons] at blank
    rw [List.cons_append, emptyStringsFrom, if_neg (isSpace_apart blank.1).1, ih blank.2]
    rfl

/-- No word starts in the blanks before a text. -/
theorem countWordStarts_blanks {p : List Char → Bool}
    (none : ∀ c cs, isSpace c = true → p (c :: cs) = false) (code : List Char) :
    countWordStarts p false (blanks ++ code) = countWordStarts p false code := by
  induction blanks with
  | nil => rfl
  | cons c blanks ih =>
    rw [List.forall_mem_cons] at blank
    rw [List.cons_append, countWordStarts, none c _ blank.1, (isSpace_apart blank.1).2.2.1,
      ih blank.2]
    simp

end Bodies

/-- A keyword does not start with a blank. -/
theorem spelling?_blank {c w : Char} (blank : isSpace c = true) (letter : isSpace w = false)
    (word cs : List Char) : spelling? (w :: word) (c :: cs) = none := by
  rw [spelling?, (isSpace_apart blank).2.2.2, if_neg]
  rintro rfl
  rw [blank] at letter
  cases letter

theorem opensFunction_blank (c : Char) (cs : List Char) (blank : isSpace c = true) :
    opensFunction (c :: cs) = false := by
  have function := spelling?_blank blank (show isSpace 'f' = false by decide) "unction".toList cs
  have sub := spelling?_blank blank (show isSpace 's' = false by decide) "ub".toList cs
  have none : firstSpelling? ["function", "sub"] (c :: cs) = none := by
    simp only [firstSpelling?, List.findSome?_cons, List.findSome?_nil]
    rw [show "function".toList = 'f' :: "unction".toList from rfl, function,
      show "sub".toList = 's' :: "ub".toList from rfl, sub]
  rw [opensFunction, none]

theorem closesFunction_blank (c : Char) (cs : List Char) (blank : isSpace c = true) :
    closesFunction (c :: cs) = false := by
  have none := spelling?_blank blank (show isSpace 'e' = false by decide) "nd".toList cs
  rw [closesFunction, afterKeyword?, show "end".toList = 'e' :: "nd".toList from rfl, none]
  rfl

section Depth

variable {code other : List Char} (same : Reindented code other)

include same

theorem Reindented.openedFunctions_eq : openedFunctions code = openedFunctions other := by
  refine same.eq_of_append fun blanks code blank => ?_
  rw [openedFunctions, emptyStrings_blanks blank, countWordStarts_blanks blank opensFunction_blank]
  rfl

theorem Reindented.closedFunctions_eq : closedFunctions code = closedFunctions other := by
  refine same.eq_of_append fun blanks code blank => ?_
  rw [closedFunctions, emptyStrings_blanks blank, countWordStarts_blanks blank closesFunction_blank]
  rfl

end Depth

end BrightDoc.Line
