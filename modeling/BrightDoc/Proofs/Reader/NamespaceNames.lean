import BrightDoc.Proofs.Reader.Wrapping
import BrightDoc.Proofs.Text.Pieces

/-! # The names that a namespace may have

The header of a namespace asks for a letter at the start of the name, another character than a dot at its
end, and letters, digits and dots between the two, where names of other declarations are identifiers.
Main statement: for which names this is the same as a sequence of identifiers between single dots. -/

namespace BrightDoc

variable {dialect : Dialect}

namespace Line

open BrightDoc.Text

/-- Whether the text is an identifier: an ASCII letter or `_`, and then these and digits. -/
def isIdentifier : List Char → Bool
  | [] => false
  | c :: cs => isLetter c && cs.all fun d => isLetter d || d.isDigit

/-- The name is one or more identifiers with a single dot between each two. -/
def IsQualified (name : List Char) : Prop :=
  ∃ segments, segments ≠ [] ∧ (∀ segment ∈ segments, isIdentifier segment = true) ∧
    name = ['.'].intercalate segments

/-- Whether a namespace can have the name. -/
def isNamespaceName (name : List Char) : Bool :=
  name.head?.any isCaselessLetter && name.all isTokenTail && decide (2 ≤ name.length) &&
    name.getLast? != some '.'

/-- Whether the segment of a name is no identifier, although it has only letters and digits of caseless
lines: it is empty, starts with a digit, or spells a letter with the long s or the kelvin sign. -/
def isLooseSegment (segment : List Char) : Bool :=
  segment.isEmpty || segment.head?.any Char.isDigit ||
    segment.any fun c => c == '\u017f' || c == '\u212a'

section Segments

variable {name segment : List Char}

theorem isIdentifier_chars (identifier : isIdentifier segment = true) :
    ∀ c ∈ segment, (isLetter c || c.isDigit) = true := by
  cases segment with
  | nil => cases identifier
  | cons c cs =>
    rw [isIdentifier, Bool.and_eq_true, List.all_eq_true] at identifier
    rw [List.forall_mem_cons]
    exact ⟨by rw [identifier.1, Bool.true_or], identifier.2⟩

theorem dot_notMem_of_isIdentifier (identifier : isIdentifier segment = true) : '.' ∉ segment :=
  fun member => absurd (isIdentifier_chars identifier '.' member) (by decide)

/-- The segments of a qualified name are the pieces between its dots. -/
theorem isQualified_iff :
    IsQualified name ↔ ∀ segment ∈ pieces '.' name, isIdentifier segment = true := by
  constructor
  · rintro ⟨segments, nonempty, identifiers, rfl⟩ segment member
    rw [pieces_intercalate '.' nonempty, List.mem_flatMap] at member
    obtain ⟨whole, inside, piece⟩ := member
    rw [pieces_of_notMem (dot_notMem_of_isIdentifier (identifiers whole inside)),
      List.mem_singleton] at piece
    rw [piece]
    exact identifiers whole inside
  · intro identifiers
    exact ⟨pieces '.' name, pieces_ne_nil '.' name, identifiers, (intercalate_pieces '.' name).symm⟩

theorem IsQualified.chars (qualified : IsQualified name) : ∀ c ∈ name, isTokenTail c = true := by
  obtain ⟨segments, -, identifiers, rfl⟩ := qualified
  intro c member
  rcases mem_intercalate member with dot | ⟨segment, inside, member⟩
  · rw [List.mem_singleton.mp dot]
    decide
  · have char := isIdentifier_chars (identifiers segment inside) c member
    rcases Bool.or_eq_true_iff.mp char with letter | digit
    · simp [isTokenTail, isCaselessLetter, letter]
    · simp [isTokenTail, digit]

/-- A qualified name starts with a letter. -/
theorem IsQualified.head (qualified : IsQualified name) :
    ∃ c rest, name = c :: rest ∧ isLetter c = true := by
  rw [isQualified_iff] at qualified
  cases name with
  | nil => cases qualified [] (by simp [pieces])
  | cons c rest =>
    refine ⟨c, rest, rfl, ?_⟩
    rw [pieces] at qualified
    split at qualified
    · cases qualified [] List.mem_cons_self
    · obtain ⟨piece, more, found⟩ := List.exists_cons_of_ne_nil (pieces_ne_nil '.' rest)
      rw [found] at qualified
      have first := qualified (c :: piece) List.mem_cons_self
      rw [isIdentifier, Bool.and_eq_true] at first
      exact first.1

/-- A qualified name does not end in a dot. -/
theorem IsQualified.last (qualified : IsQualified name) : name.getLast? ≠ some '.' := by
  intro last
  rw [isQualified_iff, ← List.dropLast_append_getLast? '.' last, pieces_append_mark] at qualified
  cases qualified [] (by simp [pieces])

/-- A namespace can have all qualified names but those of one letter. -/
theorem IsQualified.isNamespaceName_iff (qualified : IsQualified name) :
    isNamespaceName name = true ↔ name.length ≠ 1 := by
  obtain ⟨c, rest, rfl, letter⟩ := qualified.head
  have chars : (c :: rest).all isTokenTail = true := List.all_eq_true.mpr qualified.chars
  have caseless : isCaselessLetter c = true := by simp [isCaselessLetter, letter]
  simp only [isNamespaceName, chars, List.head?_cons, Option.any_some, caseless, Bool.and_true,
    Bool.true_and, Bool.and_eq_true, decide_eq_true_eq, bne_iff_ne, List.length_cons]
  rw [and_iff_left qualified.last]
  omega

theorem isDigit_of_isLetter {c : Char} (letter : isLetter c = true) : c.isDigit = false := by
  rw [Bool.eq_false_iff]
  intro digit
  obtain ⟨low, high⟩ := Bool.and_eq_true_iff.mp digit
  have low : 48 ≤ c.toNat := of_decide_eq_true low
  have high : c.toNat ≤ 57 := of_decide_eq_true high
  have range := isCaselessLetter_range (c := c) (by simp [isCaselessLetter, letter])
  omega

/-- Among the words of caseless lines the identifiers are those that are not loose. -/
theorem isIdentifier_iff_not_isLooseSegment (chars : ∀ c ∈ segment, isNameTail c = true) :
    isIdentifier segment = true ↔ isLooseSegment segment = false := by
  cases segment with
  | nil => decide
  | cons c cs =>
    rw [List.forall_mem_cons] at chars
    simp only [isLooseSegment, List.isEmpty_cons, Bool.false_or, List.head?_cons, Option.any_some,
      Bool.or_eq_false_iff, List.any_eq_false, Bool.not_eq_true, List.forall_mem_cons]
    constructor
    · intro identifier
      have ascii : ∀ d ∈ c :: cs, d ≠ '\u017f' ∧ d ≠ '\u212a' := by
        intro d member
        have char := isIdentifier_chars identifier d member
        exact ⟨by rintro rfl; exact absurd char (by decide),
          by rintro rfl; exact absurd char (by decide)⟩
      rw [isIdentifier, Bool.and_eq_true] at identifier
      rw [List.forall_mem_cons] at ascii
      simp only [beq_eq_false_iff_ne]
      exact ⟨isDigit_of_isLetter identifier.1, ascii⟩
    · rintro ⟨notDigit, first, more⟩
      have plain : ∀ {d : Char}, isNameTail d = true →
          (d == '\u017f') = false ∧ (d == '\u212a') = false → (isLetter d || d.isDigit) = true := by
        intro d char ascii
        rwa [isNameTail, isCaselessLetter, ascii.1, ascii.2, Bool.or_false, Bool.or_false] at char
      rw [isIdentifier, Bool.and_eq_true, List.all_eq_true]
      refine ⟨?_, fun d member => plain (chars.2 d member) (more d member)⟩
      have start := plain chars.1 first
      rwa [notDigit, Bool.or_false] at start

/-- A name that a namespace can have is qualified unless one of its segments is loose. -/
theorem isQualified_iff_of_isNamespaceName (accepted : isNamespaceName name = true) :
    IsQualified name ↔ ∀ segment ∈ pieces '.' name, isLooseSegment segment = false := by
  rw [isQualified_iff]
  apply forall₂_congr
  intro segment member
  apply isIdentifier_iff_not_isLooseSegment
  intro c inside
  obtain ⟨isInfix, dotless⟩ := infix_of_mem_pieces member
  have tails : name.all isTokenTail = true := by
    simp only [isNamespaceName, Bool.and_eq_true] at accepted
    exact accepted.1.1.2
  have tail := List.all_eq_true.mp tails c (isInfix.subset inside)
  rw [isTokenTail, Bool.or_eq_true, beq_iff_eq] at tail
  exact tail.resolve_right fun dot => dotless (dot ▸ inside)

end Segments

/-- A token that is all of a text without blanks. -/
theorem token?_of_noBlank {name : List Char} (noBlank : ∀ c ∈ name, isSpace c = false) :
    ((token? name).bind fun (token, rest) => done? token rest) =
      if name.head?.any isCaselessLetter && name.all isTokenTail then some name else none := by
  cases name with
  | nil => rfl
  | cons c rest =>
    rw [List.forall_mem_cons] at noBlank
    by_cases letter : isCaselessLetter c = true
    · have tail : isTokenTail c = true := by simp [isTokenTail, letter]
      rw [token?, if_pos letter, Option.bind_some, List.head?_cons, Option.any_some, letter,
        List.all_cons, tail, Bool.true_and, Bool.true_and]
      by_cases tails : rest.all isTokenTail = true
      · have all := List.all_eq_true.mp tails
        rw [if_pos tails, List.takeWhile_eq_self_iff.mpr all, List.dropWhile_eq_nil_iff.mpr all]
        rfl
      · have left : isDone (rest.dropWhile isTokenTail) = false := by
          rw [List.all_eq_true] at tails
          obtain ⟨d, more, found⟩ := List.exists_cons_of_ne_nil
            (fun nothing => tails (List.dropWhile_eq_nil_iff.mp nothing))
          have inside : d ∈ rest :=
            (List.dropWhile_suffix isTokenTail).subset (found ▸ List.mem_cons_self)
          rw [found, isDone, List.all_cons, noBlank.2 d inside, Bool.false_and]
        rw [if_neg tails]
        dsimp only
        rw [done?, left]
        rfl
    · rw [token?, if_neg letter, List.head?_cons, Option.any_some, Bool.eq_false_iff.mpr letter]
      rfl

/-- On a line of its own the header of a namespace is read by its name. -/
theorem namespaceHeader?_namespaceLine {name : List Char} (noBlank : ∀ c ∈ name, isSpace c = false) :
    namespaceHeader? (namespaceLine name) = if isNamespaceName name then some name else none := by
  have skipped : skipSpace name = name := by
    cases name with
    | nil => rfl
    | cons c rest => exact List.dropWhile_cons_of_neg (by simp [noBlank c List.mem_cons_self])
  have start : afterWord? "namespace" (namespaceLine name) = some name := by
    have spaced : afterWord? "namespace" (namespaceLine name) = some (skipSpace name) := rfl
    rw [spaced, skipped]
  have whole := token?_of_noBlank noBlank
  rw [namespaceHeader?, start, Option.bind_eq_bind, Option.bind_some, isNamespaceName]
  by_cases word : (name.head?.any isCaselessLetter && name.all isTokenTail) = true
  · rw [if_pos word, Option.bind_eq_some_iff] at whole
    obtain ⟨⟨token, rest⟩, found, finished⟩ := whole
    cases done?_eq_some finished
    dsimp only at finished
    rw [found, Option.bind_eq_bind, Option.bind_some, word, Bool.true_and]
    dsimp only
    rw [finished]
  · rw [if_neg word] at whole
    rw [Bool.eq_false_iff.mpr word, Bool.false_and, Bool.false_and, if_neg (by decide)]
    cases found : token? name with
    | none => rfl
    | some parts =>
      obtain ⟨token, rest⟩ := parts
      rw [found, Option.bind_some] at whole
      dsimp only at whole
      rw [Option.bind_eq_bind, Option.bind_some]
      dsimp only
      rw [whole, ite_self]

end Line

open BrightDoc.Line

/-- At the start of a text the line is refused if a namespace cannot have the name. -/
theorem step_namespaceLine_of_none {name : List Char} (noComment : '\'' ∉ name)
    (refused : namespaceHeader? (namespaceLine name) = none) :
    (ReaderState.step dialect {} ⟨0, namespaceLine name⟩).result =
      .error (SourceLine.malformed ⟨0, namespaceLine name⟩ .namespaceHeader (namespaceLine name)) := by
  have bare : splitComment (namespaceLine name) = (namespaceLine name, none) := by
    apply cutComment_of_notMem
    intro member
    rcases List.mem_append.mp member with lead | inside
    · exact absurd lead (by decide)
    · exact noComment inside
  have code : SourceLine.code ⟨0, namespaceLine name⟩ = namespaceLine name := by
    rw [SourceLine.code, bare]
  have isCode : ReaderState.step dialect {} ⟨0, namespaceLine name⟩ =
      ReaderState.statementLine dialect {} ⟨0, namespaceLine name⟩ := rfl
  have notAnnotation : annotationName? (namespaceLine name) = none := rfl
  have noEnd : blockEnd? (namespaceLine name) = none := rfl
  have noFunction : functionHeader? (namespaceLine name) = none := rfl
  have notStarted : startsFunction (namespaceLine name) = false := rfl
  have word : declarationWord? (namespaceLine name) = some "namespace".toList := rfl
  have fails : ReaderState.declare {} ⟨0, namespaceLine name⟩ "namespace".toList =
      .fail (SourceLine.malformed ⟨0, namespaceLine name⟩ .namespaceHeader (namespaceLine name)) := by
    simp only [ReaderState.declare, code, refused]
    rfl
  rw [isCode]
  simp only [ReaderState.statementLine, code, notAnnotation, noEnd, noFunction, notStarted, word, fails,
    Bool.false_eq_true, if_false, Outcome.feature_result]
  rfl

/-- The text of a namespace without a body. -/
def namespaceText (name : List Char) : String :=
  String.ofList (namespaceLine name ++ '\n' :: endLine .ofNamespace)

/-- The namespace without a body that the text is read as. -/
def emptyNamespace (name : List Char) : Statement :=
  .namespaceDecl { name := String.ofList name, placement := { range := ⟨⟨0, 0⟩, ⟨1, 13⟩⟩ } } []

/-- The error about the first line of the text. -/
def namespaceRefused (name : List Char) : ParseError :=
  .malformed .namespaceHeader 1 (String.ofList (Text.trim (namespaceLine name)))

/-- The text is read by the name of the namespace. -/
theorem parse_namespaceText (dialect : Dialect) {name : List Char}
    (noBlank : ∀ c ∈ name, Text.isSpace c = false) (noComment : '\'' ∉ name) :
    (parse dialect (namespaceText name)).result =
      if isNamespaceName name then .ok [emptyNamespace name] else .error (namespaceRefused name) := by
  have noBreak : ∀ c, Text.isSpace c = true → c ∉ "namespace ".toList → c ∉ namespaceLine name := by
    intro c blank lead member
    rcases List.mem_append.mp member with first | inside
    · exact lead first
    · rw [noBlank c inside] at blank
      cases blank
  have lines : Text.lines (namespaceText name).toList = [namespaceLine name, endLine .ofNamespace] := by
    have feedless := noBreak '\n' (by decide) (by decide)
    have returnless : ∀ c ∈ (namespaceLine name).getLast?, c ≠ '\r' := by
      rintro c last rfl
      exact noBreak '\r' (by decide) (by decide) (List.mem_of_getLast? last)
    rw [namespaceText, String.toList_ofList, Text.lines_append_feed feedless returnless]
    rfl
  have header := namespaceHeader?_namespaceLine noBlank
  rw [parse, lines, readLines_result]
  by_cases accepted : isNamespaceName name = true
  · rw [if_pos accepted] at header ⊢
    obtain ⟨t, ended, nested⟩ :=
      @step_endNamespace_first dialect { frames := [.first name] } name rfl rfl 1
    simp only [readFrom, Outcome.andThen, step_namespaceLine header, Nat.zero_add, ended]
    exact nested
  · rw [if_neg accepted] at header ⊢
    simp only [readFrom, Outcome.andThen, step_namespaceLine_of_none noComment header]
    rfl

/-- Namespaces have other names than sequences of identifiers: a name without blanks and apostrophes is
accepted as the name of a namespace exactly if it starts with a letter, goes on with letters, digits and
dots, ends in no dot and has at least two characters, and is refused as malformed otherwise. So the
accepted names are the identifiers between single dots, except that a name of one letter is refused, and
that names with an empty segment, a segment that starts with a digit, or the long s or kelvin sign for a
letter are accepted. -/
theorem namespace_name_qualified_iff (dialect : Dialect) (name : List Char)
    (noBlank : ∀ c ∈ name, Text.isSpace c = false) (noComment : '\'' ∉ name) :
    ((parse dialect (namespaceText name)).result =
      if isNamespaceName name then .ok [emptyNamespace name] else .error (namespaceRefused name)) ∧
    (((parse dialect (namespaceText name)).result = .ok [emptyNamespace name] ↔ IsQualified name) ∧
        (¬ IsQualified name → (parse dialect (namespaceText name)).result =
          .error (namespaceRefused name)) ↔
      ¬ (IsQualified name ∧ name.length = 1) ∧
        ¬ (isNamespaceName name = true ∧
          ∃ segment ∈ Text.pieces '.' name, isLooseSegment segment = true)) := by
  have read := parse_namespaceText dialect noBlank noComment
  refine ⟨read, ?_⟩
  rw [read]
  by_cases accepted : isNamespaceName name = true
  · -- What is accepted has more than one letter, and is qualified unless a segment is loose.
    have strict := isQualified_iff_of_isNamespaceName accepted
    rw [if_pos accepted]
    constructor
    · rintro ⟨agrees, -⟩
      have qualified := agrees.mp rfl
      refine ⟨fun short => qualified.isNamespaceName_iff.mp accepted short.2, ?_⟩
      rintro ⟨-, segment, member, loose⟩
      rw [strict.mp qualified segment member] at loose
      cases loose
    · rintro ⟨-, noneLoose⟩
      have qualified : IsQualified name := by
        rw [strict]
        intro segment member
        exact Bool.eq_false_iff.mpr fun loose => noneLoose ⟨accepted, segment, member, loose⟩
      exact ⟨iff_of_true rfl qualified, fun other => absurd qualified other⟩
  · -- What is refused is qualified only if it has one letter.
    rw [if_neg accepted]
    constructor
    · rintro ⟨agrees, -⟩
      have other : ¬ IsQualified name := fun qualified => by cases agrees.mpr qualified
      exact ⟨fun short => other short.1, fun loose => accepted loose.1⟩
    · rintro ⟨long, -⟩
      have other : ¬ IsQualified name := by
        intro qualified
        exact accepted (qualified.isNamespaceName_iff.mpr fun short => long ⟨qualified, short⟩)
      exact ⟨iff_of_false (fun same => by cases same) other, fun _ => rfl⟩

/-- A name of two segments, the first one a single letter. -/
theorem short_segment_accepted :
    (∀ c ∈ "a.b1".toList, Text.isSpace c = false) ∧ '\'' ∉ "a.b1".toList ∧
      (parse .brighterScript (namespaceText "a.b1".toList)).result =
        .ok [emptyNamespace "a.b1".toList] ∧
      IsQualified "a.b1".toList := by
  have noBlank : ∀ c ∈ "a.b1".toList, Text.isSpace c = false := by simp [Text.isSpace]
  have noComment : '\'' ∉ "a.b1".toList := by decide
  have strict : ¬ ∃ segment ∈ Text.pieces '.' "a.b1".toList, isLooseSegment segment = true := by decide
  obtain ⟨read, agrees⟩ := namespace_name_qualified_iff .brighterScript "a.b1".toList noBlank noComment
  rw [if_pos (by decide)] at read
  obtain ⟨same, -⟩ := agrees.mpr ⟨fun short => absurd short.2 (by decide), fun loose => strict loose.2⟩
  exact ⟨noBlank, noComment, read, same.mp read⟩

/-- A name of one letter is an identifier, and no namespace can have it; a name with two dots in a row is
no sequence of identifiers, and a namespace can have it. -/
theorem letter_refused_and_dots_accepted :
    IsQualified "A".toList ∧
      (parse .brighterScript (namespaceText "A".toList)).result = .error (namespaceRefused "A".toList) ∧
    ¬ IsQualified "a..b".toList ∧
      (parse .brighterScript (namespaceText "a..b".toList)).result =
        .ok [emptyNamespace "a..b".toList] := by
  refine ⟨?_, by rfl, ?_, by rfl⟩
  · exact ⟨["A".toList], by decide, by decide, by decide⟩
  · rw [isQualified_iff]
    decide

end BrightDoc
