import BrightDoc.Line.Layout
import BrightDoc.Line.Function
import BrightDoc.Proofs.Line.Recognised
import Mathlib.Data.List.Basic

/-! # Literals in code

Three scanners go through the code around a literal: one looks for a comment, one for the commas of a
parameter list, and one for the type after a default. The first two keep a flag for "inside a string
literal", so they agree on every text whose literals are closed (`isWhole`); the third looks at what is
left, which is no type clause as long as a part of the literal is left. -/

namespace BrightDoc.Text

theorem exists_append_dropEndWhile (p : Char → Bool) (cs : List Char) :
    ∃ after, cs = dropEndWhile p cs ++ after ∧ ∀ c ∈ after, p c = true := by
  induction cs with
  | nil => exact ⟨[], rfl, by simp⟩
  | cons c cs ih =>
    obtain ⟨after, same, all⟩ := ih
    rw [dropEndWhile]
    split
    · rename_i nothing
      rw [nothing, List.nil_append] at same
      subst same
      split
      · rename_i here
        exact ⟨c :: cs, rfl, List.forall_mem_cons.mpr ⟨here, all⟩⟩
      · exact ⟨cs, rfl, all⟩
    · exact ⟨after, congrArg (c :: ·) same, all⟩

/-- White space after a text is trimmed. -/
theorem trim_append_of_white {after : List Char} (white : ∀ c ∈ after, isWhite c = true)
    (cs : List Char) : trim (cs ++ after) = trim cs := by
  rw [trim, trimEnd, dropEndWhile_append_of_all white, trim, trimEnd]

/-- White space before a text is trimmed. -/
theorem trim_of_white_append {before : List Char} (white : ∀ c ∈ before, isWhite c = true)
    (cs : List Char) : trim (before ++ cs) = trim cs := by
  induction before with
  | nil => rfl
  | cons c before ih =>
    rw [List.forall_mem_cons] at white
    rw [← ih white.2, List.cons_append, trim, trimEnd, dropEndWhile, trim, trimEnd]
    split
    · rename_i nothing
      rw [if_pos white.1, nothing]
    · exact List.dropWhile_cons_of_pos white.1

/-- A text is its trimmed part between white space. -/
theorem exists_trim (cs : List Char) :
    ∃ before after, cs = before ++ trim cs ++ after ∧ (∀ c ∈ before, isWhite c = true) ∧
      ∀ c ∈ after, isWhite c = true := by
  obtain ⟨after, same, white⟩ := exists_append_dropEndWhile isWhite cs
  refine ⟨(trimEnd cs).takeWhile isWhite, after, ?_, fun c => List.mem_takeWhile_imp, white⟩
  rw [trim, trimStart, List.takeWhile_append_dropWhile]
  exact same

end BrightDoc.Text

namespace BrightDoc.Line

open BrightDoc.Text

/-- Whether all literals of the text are closed, and all characters outside of them satisfy `plain`;
`quoted` tells whether the text starts inside a literal. -/
def isWhole (plain : Char → Bool) (quoted : Bool) : List Char → Bool
  | [] => !quoted
  | c :: cs =>
    if c = '"' then isWhole plain (!quoted) cs
    else (quoted || plain c) && isWhole plain quoted cs

section Whole

variable {plain : Char → Bool} {quoted : Bool} {text : List Char}

theorem isWhole_append (rest : List Char) (whole : isWhole plain quoted text = true) :
    isWhole plain quoted (text ++ rest) = isWhole plain false rest := by
  induction text generalizing quoted with
  | nil =>
    rw [isWhole, Bool.not_eq_true'] at whole
    rw [whole, List.nil_append]
  | cons c text ih =>
    rw [isWhole] at whole
    rw [List.cons_append, isWhole]
    split
    · rename_i quote
      rw [if_pos quote] at whole
      exact ih whole
    · rename_i other
      rw [if_neg other, Bool.and_eq_true] at whole
      rw [whole.1, Bool.true_and, ih whole.2]

theorem isWhole_of_all (all : ∀ c ∈ text, c ≠ '"' ∧ plain c = true) :
    isWhole plain false text = true := by
  induction text with
  | nil => rfl
  | cons c text ih =>
    rw [List.forall_mem_cons] at all
    rw [isWhole, if_neg all.1.1, all.1.2, ih all.2]
    rfl

theorem isWhole_intercalate {separator : List Char} (between : isWhole plain false separator = true)
    {texts : List (List Char)} (whole : ∀ t ∈ texts, isWhole plain false t = true) :
    isWhole plain false (separator.intercalate texts) = true := by
  induction texts with
  | nil => rfl
  | cons text more ih =>
    rw [List.forall_mem_cons] at whole
    cases more with
    | nil =>
      rw [List.intercalate_singleton]
      exact whole.1
    | cons next more =>
      rw [List.intercalate_cons_cons, List.append_assoc, isWhole_append _ whole.1,
        isWhole_append _ between]
      exact ih whole.2

theorem isWhole_mono {wider : Char → Bool} (le : ∀ c, plain c = true → wider c = true)
    (whole : isWhole plain quoted text = true) : isWhole wider quoted text = true := by
  induction text generalizing quoted with
  | nil => exact whole
  | cons c text ih =>
    rw [isWhole] at whole ⊢
    split
    · rename_i quote
      rw [if_pos quote] at whole
      exact ih whole
    · rename_i other
      rw [if_neg other, Bool.and_eq_true, Bool.or_eq_true] at whole
      rw [ih whole.2, Bool.and_true, Bool.or_eq_true]
      exact whole.1.imp_right (le c)

/-- No comment starts in a whole text without apostrophes outside its literals. -/
theorem cutComment_of_isWhole (noApostrophe : plain '\'' = false)
    (whole : isWhole plain quoted text = true) : cutComment quoted text = (text, none) := by
  induction text generalizing quoted with
  | nil => rfl
  | cons c text ih =>
    rw [isWhole] at whole
    rw [cutComment]
    split at whole
    · rename_i quote
      rw [if_neg (by simp [quote]), if_pos quote, ih whole]
    · rename_i other
      rw [Bool.and_eq_true, Bool.or_eq_true] at whole
      have code : ¬(decide (c = '\'') && !quoted) = true := by
        intro comment
        rw [Bool.and_eq_true, decide_eq_true_eq, Bool.not_eq_true'] at comment
        rw [comment.1, noApostrophe, comment.2] at whole
        simp at whole
      rw [if_neg code, if_neg other, ih whole.2]

end Whole

/-- The characters that mean nothing to a parameter list. -/
def isListPlain (c : Char) : Bool :=
  !(['\'', ',', '(', ')', '[', ']', '{', '}'].contains c)

/-- A whole text stays in one piece of a parameter list. -/
theorem parameterTextsFrom_of_isWhole {text : List Char} {quoted : Bool}
    (whole : isWhole isListPlain quoted text = true) (piece rest : List Char) :
    parameterTextsFrom 0 quoted piece (text ++ rest) =
      parameterTextsFrom 0 false (text.reverse ++ piece) rest := by
  induction text generalizing quoted piece with
  | nil =>
    rw [isWhole, Bool.not_eq_true'] at whole
    rw [whole]
    rfl
  | cons c text ih =>
    rw [isWhole] at whole
    rw [List.reverse_cons, List.append_assoc, List.singleton_append, List.cons_append,
      parameterTextsFrom]
    split at whole
    · rename_i quote
      rw [if_pos quote, ih whole]
    · rename_i other
      rw [if_neg other]
      rw [Bool.and_eq_true] at whole
      cases quoted with
      | true => rw [if_pos rfl, ih whole.2]
      | false =>
        have plain : isListPlain c = true := whole.1
        simp only [isListPlain, List.contains_cons, List.contains_nil, Bool.or_false, Bool.not_or,
          Bool.and_eq_true, Bool.not_eq_true', beq_eq_false_iff_ne] at plain
        obtain ⟨-, comma, round, round', square, square', curly, curly'⟩ := plain
        simp only [Bool.false_eq_true, if_false, round, round', square, square', curly, curly', comma,
          decide_false, Bool.or_self, Bool.false_and]
        exact ih whole.2 _

/-- The pieces of a parameter list are the texts that it is written with, blanks before them included. -/
theorem parameterTextsFrom_intercalate {text : List Char} {more : List (List Char)}
    (whole : ∀ t ∈ text :: more, isWhole isListPlain false t = true) (piece : List Char) :
    parameterTextsFrom 0 false piece (", ".toList.intercalate (text :: more)) =
      (piece.reverse ++ text) :: more.map (' ' :: ·) := by
  induction more generalizing text piece with
  | nil =>
    have here := whole text List.mem_cons_self
    have all := parameterTextsFrom_of_isWhole here piece []
    rw [List.append_nil] at all
    rw [List.intercalate_singleton, all, parameterTextsFrom, List.reverse_append, List.reverse_reverse]
    rfl
  | cons next more ih =>
    rw [List.forall_mem_cons] at whole
    rw [List.intercalate_cons_cons, List.append_assoc, parameterTextsFrom_of_isWhole whole.1]
    have blank := ih whole.2 [' ']
    show (text.reverse ++ piece).reverse ::
      parameterTextsFrom 0 false [' '] (", ".toList.intercalate (next :: more)) = _
    rw [blank, List.reverse_append, List.reverse_reverse]
    rfl

/-- The characters of names, tokens and literals other than strings. -/
def isCodeChar (c : Char) : Bool :=
  isCaselessLetter c || c.isDigit || ['&', '.', '+', '-', '!', '#', '$', '%'].contains c

/-- The characters of numbers. -/
def isNumberChar (c : Char) : Bool :=
  LiteralKind.isHexDigit c || ['h', 'H', '&', '.', '+', '-', '!', '#'].contains c

/-- What holds of the 128 characters of ASCII holds of a character among them. -/
theorem of_ascii {P : Char → Prop} (all : ∀ n : Fin 128, P (Char.ofNat n)) {c : Char}
    (ascii : c.toNat < 128) : P c := by
  have here := all ⟨c.toNat, ascii⟩
  rwa [Char.ofNat_toNat] at here

theorem isCodeChar_range {c : Char} (code : isCodeChar c = true) :
    c.toNat < 128 ∨ c = '\u017f' ∨ c = '\u212a' := by
  simp only [isCodeChar, Bool.or_eq_true, List.contains_iff_mem] at code
  rcases code with (letter | digit) | other
  · rcases isCaselessLetter_range letter with upper | lower | line | long | kelvin
    · exact Or.inl (by omega)
    · exact Or.inl (by omega)
    · exact Or.inl (by omega)
    · exact Or.inr (Or.inl (by rw [← Char.ofNat_toNat c, long]))
    · exact Or.inr (Or.inr (by rw [← Char.ofNat_toNat c, kelvin]))
  · have high : c.toNat ≤ 57 := of_decide_eq_true (Bool.and_eq_true_iff.mp digit).2
    exact Or.inl (by omega)
  · have small : ['&', '.', '+', '-', '!', '#', '$', '%'].all (·.toNat < 128) = true := by decide
    exact Or.inl (of_decide_eq_true (List.all_eq_true.mp small c other))

theorem isCodeChar_apart {c : Char} (code : isCodeChar c = true) :
    isWhite c = false ∧ c ≠ '"' ∧ isListPlain c = true := by
  rcases isCodeChar_range code with ascii | rfl | rfl
  · revert code
    exact of_ascii (P := fun c => isCodeChar c = true →
      isWhite c = false ∧ c ≠ '"' ∧ isListPlain c = true) (by decide +kernel) ascii
  · decide
  · decide

theorem isSpace_of_isCodeChar {c : Char} (code : isCodeChar c = true) : isSpace c = false := by
  rw [Bool.eq_false_iff]
  intro blank
  have notWhite := (isCodeChar_apart code).1
  rw [isWhite_of_isSpace blank] at notWhite
  cases notWhite

/-- A text of such characters is whole. -/
theorem isWhole_of_codeChars {text : List Char} (code : ∀ c ∈ text, isCodeChar c = true) :
    isWhole isListPlain false text = true :=
  isWhole_of_all fun c member => (isCodeChar_apart (code c member)).2

theorem isNumberChar_apart {c : Char} (number : isNumberChar c = true) :
    isCodeChar c = true ∧ foldChar c ≠ 's' := by
  have ascii : c.toNat < 128 := by
    simp only [isNumberChar, LiteralKind.isHexDigit, Bool.or_eq_true, Bool.and_eq_true,
      decide_eq_true_eq, List.contains_iff_mem] at number
    rcases number with ((digit | ⟨-, high⟩) | ⟨-, high⟩) | other
    · have high : c.toNat ≤ 57 := of_decide_eq_true (Bool.and_eq_true_iff.mp digit).2
      omega
    · have high : c.toNat ≤ 102 := high
      omega
    · have high : c.toNat ≤ 70 := high
      omega
    · have small : ['h', 'H', '&', '.', '+', '-', '!', '#'].all (·.toNat < 128) = true := by decide
      exact of_decide_eq_true (List.all_eq_true.mp small c other)
  revert number
  exact of_ascii (P := fun c => isNumberChar c = true → isCodeChar c = true ∧ foldChar c ≠ 's')
    (by decide +kernel) ascii

theorem isNumberChar_of_isDigit {c : Char} (digit : c.isDigit = true) : isNumberChar c = true := by
  simp [isNumberChar, LiteralKind.isHexDigit, digit]

/-- The text is made of the characters of numbers. -/
def Numeric (cs : List Char) : Prop :=
  ∀ c ∈ cs, isNumberChar c = true

section Numbers

variable {cs : List Char}

theorem numeric_of_isDigits (digits : LiteralKind.isDigits cs = true) : Numeric cs ∧ cs ≠ [] := by
  simp only [LiteralKind.isDigits, Bool.and_eq_true, Bool.not_eq_true', List.isEmpty_eq_false_iff,
    List.all_eq_true] at digits
  exact ⟨fun c member => isNumberChar_of_isDigit (digits.2 c member), digits.1⟩

theorem numeric_of_isInteger (integer : LiteralKind.isInteger cs = true) : Numeric cs ∧ cs ≠ [] := by
  unfold LiteralKind.isInteger at integer
  split at integer
  · rename_i h digits
    simp only [Bool.and_eq_true, Bool.or_eq_true, beq_iff_eq, List.all_eq_true] at integer
    obtain ⟨⟨marked, -⟩, hex⟩ := integer
    refine ⟨?_, by simp⟩
    intro c member
    rcases List.mem_cons.mp member with rfl | member
    · decide
    rcases List.mem_cons.mp member with rfl | member
    · rcases marked with rfl | rfl <;> decide
    · simp [isNumberChar, hex c member]
  · exact numeric_of_isDigits integer

theorem numeric_of_isExponent (exponent : LiteralKind.isExponent cs = true) : Numeric cs := by
  unfold LiteralKind.isExponent at exponent
  split at exponent
  · rename_i e rest
    rw [Bool.and_eq_true, Bool.or_eq_true, beq_iff_eq, beq_iff_eq] at exponent
    obtain ⟨mark, digits⟩ := exponent
    have tail : Numeric rest := by
      split at digits
      · rename_i ds
        rw [Numeric, List.forall_mem_cons]
        exact ⟨by decide, (numeric_of_isDigits digits).1⟩
      · rename_i ds
        rw [Numeric, List.forall_mem_cons]
        exact ⟨by decide, (numeric_of_isDigits digits).1⟩
      · exact (numeric_of_isDigits digits).1
    rw [Numeric, List.forall_mem_cons]
    exact ⟨by rcases mark with rfl | rfl <;> decide, tail⟩
  · cases exponent

theorem numeric_takeWhile_isDigit (cs : List Char) : Numeric (cs.takeWhile Char.isDigit) :=
  fun _ member => isNumberChar_of_isDigit (List.mem_takeWhile_imp member)

theorem Numeric.append {first second : List Char} (numeric : Numeric first) (more : Numeric second) :
    Numeric (first ++ second) :=
  List.forall_mem_append.mpr ⟨numeric, more⟩

theorem numeric_of_isFloat (float : LiteralKind.isFloat cs = true) : Numeric cs ∧ cs ≠ [] := by
  have parts : cs.takeWhile Char.isDigit ++ cs.dropWhile Char.isDigit = cs :=
    List.takeWhile_append_dropWhile
  have whole := numeric_takeWhile_isDigit cs
  have fraction : Numeric (cs.dropWhile Char.isDigit) ∧ cs ≠ [] := by
    simp only [LiteralKind.isFloat] at float
    split at float
    · rename_i ds point
      have tail : Numeric ds := by
        split at float
        · exact (numeric_of_isDigits float).1
        · rw [← List.takeWhile_append_dropWhile (p := Char.isDigit) (l := ds)]
          refine (numeric_takeWhile_isDigit ds).append ?_
          rw [Bool.or_eq_true, List.isEmpty_iff] at float
          rcases float with nothing | exponent
          · simp [nothing, Numeric]
          · exact numeric_of_isExponent exponent
      rw [point, Numeric, List.forall_mem_cons]
      refine ⟨⟨by decide, tail⟩, ?_⟩
      rintro rfl
      cases point
    · rw [Bool.and_eq_true, Bool.not_eq_true', List.isEmpty_eq_false_iff] at float
      refine ⟨numeric_of_isExponent float.2, ?_⟩
      rintro rfl
      exact float.1 rfl
  rw [← parts]
  exact ⟨whole.append fraction.1, by rw [parts]; exact fraction.2⟩

theorem splitMark_eq {marks : List Char} :
    cs = (LiteralKind.splitMark marks cs).1 ++ (LiteralKind.splitMark marks cs).2.toList ∧
      ∀ c ∈ (LiteralKind.splitMark marks cs).2, c ∈ marks := by
  unfold LiteralKind.splitMark
  split
  · rename_i c last
    split
    · rename_i marked
      refine ⟨?_, ?_⟩
      · exact (List.dropLast_append_getLast? c last).symm
      · rintro d same
        cases same
        simpa using marked
    · simp
  · simp

/-- A number with a mark after it is made of the characters of numbers. -/
theorem numeric_of_splitMark {marks : List Char} (all : marks.all isNumberChar = true)
    (number : Numeric (LiteralKind.splitMark marks cs).1 ∧ (LiteralKind.splitMark marks cs).1 ≠ []) :
    Numeric cs ∧ cs ≠ [] := by
  obtain ⟨parts, marked⟩ := @splitMark_eq cs marks
  rw [parts]
  refine ⟨number.1.append ?_, by simp [number.2]⟩
  intro c member
  exact List.all_eq_true.mp all c (marked c (Option.mem_toList.mp member))

end Numbers

/-- A spelling differs from its word in the spelling of letters only. -/
theorem map_foldChar_of_spelling? {word cs found rest : List Char}
    (spelled : spelling? word cs = some (found, rest)) : found.map foldChar = word := by
  induction word generalizing cs found with
  | nil =>
    cases spelled
    rfl
  | cons w word ih =>
    cases cs with
    | nil => cases spelled
    | cons c cs =>
      rw [spelling?] at spelled
      split at spelled
      · rename_i fits
        obtain ⟨⟨found', rest'⟩, more, same⟩ := Option.map_eq_some_iff.mp spelled
        cases same
        rw [List.map_cons, fits, ih more]
      · cases spelled

theorem map_foldChar_of_isSpelling {word : String} {cs : List Char}
    (spelled : isSpelling word cs = true) : cs.map foldChar = word.toList := by
  rw [isSpelling, beq_iff_eq, afterKeyword?, Option.map_eq_some_iff] at spelled
  obtain ⟨⟨found, rest⟩, spelling, nothing⟩ := spelled
  dsimp only at nothing
  subst nothing
  rw [spelling?_append spelling, List.append_nil]
  exact map_foldChar_of_spelling? spelling

/-- What spells a word of letters is made of letters. -/
theorem isCaselessLetter_of_map {word cs : List Char} (folded : cs.map foldChar = word)
    (letters : word.all Char.isLower = true) : ∀ c ∈ cs, isCaselessLetter c = true := by
  intro c member
  apply isCaselessLetter_of_foldChar
  apply List.all_eq_true.mp letters
  rw [← folded]
  exact List.mem_map_of_mem member

/-- A word without blanks that does not end in an `s`, so that no keyword `as` ends it. -/
structure IsBareWord (cs : List Char) : Prop where
  nonempty : cs ≠ []
  chars : ∀ c ∈ cs, isCodeChar c = true
  last : ∀ c ∈ cs.getLast?, foldChar c ≠ 's'

theorem isBareWord_of_numeric {cs : List Char} (numeric : Numeric cs ∧ cs ≠ []) : IsBareWord cs where
  nonempty := numeric.2
  chars c member := (isNumberChar_apart (numeric.1 c member)).1
  last c last := (isNumberChar_apart (numeric.1 c (List.mem_of_getLast? last))).2

theorem isBareWord_of_isSpelling {word : String} {cs : List Char} (spelled : isSpelling word cs = true)
    (letters : word.toList.all Char.isLower = true) (nonempty : word.toList ≠ [])
    (last : word.toList.getLast? ≠ some 's') : IsBareWord cs := by
  have folded := map_foldChar_of_isSpelling spelled
  have isLetter := isCaselessLetter_of_map folded letters
  rw [← folded] at nonempty last
  refine ⟨?_, ?_, ?_⟩
  · rintro rfl
    exact nonempty rfl
  · intro c member
    simp [isCodeChar, isLetter c member]
  · intro c isLast same
    rw [List.getLast?_map, isLast] at last
    exact last (congrArg some same)

/-- A literal is a string or a bare word. -/
theorem isString_or_isBareWord {cs : List Char} (literal : (LiteralKind.of? cs).isSome = true) :
    LiteralKind.isString cs = true ∨ IsBareWord cs := by
  simp only [LiteralKind.of?] at literal
  split at literal
  · rename_i string
    exact Or.inl string
  right
  split at literal
  · rename_i integer
    exact isBareWord_of_numeric (numeric_of_splitMark (by decide) (numeric_of_isInteger integer))
  split at literal
  · rename_i float
    exact isBareWord_of_numeric (numeric_of_splitMark (by decide) (numeric_of_isFloat float))
  split at literal
  · rename_i boolean
    rw [Bool.or_eq_true] at boolean
    rcases boolean with spelled | spelled
    · exact isBareWord_of_isSpelling spelled (by decide) (by decide) (by decide)
    · exact isBareWord_of_isSpelling spelled (by decide) (by decide) (by decide)
  split at literal
  · rename_i spelled
    exact isBareWord_of_isSpelling spelled (by decide) (by decide) (by decide)
  · cases literal

section Strings

variable {cs : List Char}

theorem isWhole_of_endsString (plain : Char → Bool) (ends : LiteralKind.endsString cs = true) :
    isWhole plain true cs = true := by
  fun_induction LiteralKind.endsString cs with
  | case1 => cases ends
  | case2 => rfl
  | case3 cs ih => exact ih ends
  | case4 c cs notLast notDoubled ih =>
    rw [Bool.and_eq_true, bne_iff_ne] at ends
    rw [isWhole, if_neg ends.1, ih ends.2]
    rfl

theorem getLast?_of_endsString (ends : LiteralKind.endsString cs = true) : cs.getLast? = some '"' := by
  fun_induction LiteralKind.endsString cs with
  | case1 => cases ends
  | case2 => rfl
  | case3 cs ih =>
    rw [List.getLast?_cons, List.getLast?_cons, ih ends]
    rfl
  | case4 c cs notLast notDoubled ih =>
    rw [Bool.and_eq_true] at ends
    rw [List.getLast?_cons, ih ends.2]
    rfl

/-- A string literal is whole, and a quote ends it. -/
theorem isString_parts (string : LiteralKind.isString cs = true) :
    isWhole isListPlain false cs = true ∧ cs.getLast? = some '"' := by
  unfold LiteralKind.isString at string
  split at string
  · rename_i cs
    refine ⟨isWhole_of_endsString isListPlain string, ?_⟩
    rw [List.getLast?_cons, getLast?_of_endsString string]
    rfl
  · cases string

/-- Every literal is whole. -/
theorem isWhole_of_literal (literal : (LiteralKind.of? cs).isSome = true) :
    isWhole isListPlain false cs = true := by
  rcases isString_or_isBareWord literal with string | bare
  · exact (isString_parts string).1
  · exact isWhole_of_codeChars bare.chars

/-- So is a literal with white space around it. -/
theorem isWhole_of_trim (literal : (LiteralKind.of? (trim cs)).isSome = true) :
    isWhole isListPlain false cs = true := by
  have white : ∀ text : List Char, (∀ c ∈ text, isWhite c = true) →
      isWhole isListPlain false text = true := by
    intro text all
    apply isWhole_of_all
    intro c member
    have marks : ['"', '\'', ',', '(', ')', '[', ']', '{', '}'].all (!isWhite ·) = true := by decide
    have other : c ∉ ['"', '\'', ',', '(', ')', '[', ']', '{', '}'] := by
      intro mark
      have notWhite := List.all_eq_true.mp marks c mark
      rw [all c member] at notWhite
      cases notWhite
    rw [List.mem_cons, not_or] at other
    exact ⟨other.1, by simpa [isListPlain] using other.2⟩
  obtain ⟨before, after, parts, beforeWhite, afterWhite⟩ := exists_trim cs
  rw [parts, List.append_assoc, isWhole_append _ (white before beforeWhite),
    isWhole_append _ (isWhole_of_literal literal)]
  exact white after afterWhite

end Strings

section Clauses

/-- Blanks before a type clause do not matter. -/
theorem typeClause?_of_blanks {blanks : List Char} (all : ∀ c ∈ blanks, isSpace c = true)
    (cs : List Char) : typeClause? (blanks ++ cs) = typeClause? cs := by
  have done : isDone (blanks ++ cs) = isDone cs := by
    rw [isDone, List.all_append, List.all_eq_true.mpr all, Bool.true_and, isDone]
  have skipped : skipSpace (blanks ++ cs) = skipSpace cs := List.dropWhile_append_of_pos all
  rw [typeClause?, done, skipped, typeClause?]

/-- A type clause is made of blanks and the characters of tokens. -/
theorem typeClause?_chars {cs : List Char} {token : Option (List Char)}
    (clause : typeClause? cs = some token) : ∀ c ∈ cs, isSpace c = true ∨ isTokenTail c = true := by
  have blanks : ∀ cs : List Char, ∀ c ∈ cs.takeWhile isSpace, isSpace c = true ∨ isTokenTail c = true :=
    fun cs c member => Or.inl (List.mem_takeWhile_imp member)
  rw [typeClause?] at clause
  split at clause
  · rename_i done
    exact fun c member => Or.inl (List.all_eq_true.mp done c member)
  · simp only [asToken?, Option.bind_eq_bind, Option.bind_eq_some_iff] at clause
    obtain ⟨⟨word, left⟩, ⟨rest, keyword, start, spaced, named⟩, checked⟩ := clause
    obtain ⟨⟨found, rest'⟩, spelled, same⟩ := Option.map_eq_some_iff.mp keyword
    cases same
    have folded := map_foldChar_of_spelling? spelled
    have letters := isCaselessLetter_of_map folded (by decide)
    have afterWord : ∀ c ∈ left, isSpace c = true ∨ isTokenTail c = true := by
      dsimp only [done?] at checked
      split at checked
      · rename_i done
        exact fun c member => Or.inl (List.all_eq_true.mp done c member)
      · cases checked
    have afterBlanks : ∀ c ∈ start, isSpace c = true ∨ isTokenTail c = true := by
      obtain ⟨rfl, -, tails⟩ := token?_eq_some named
      exact List.forall_mem_append.mpr ⟨fun c member => Or.inr (tails c member), afterWord⟩
    have afterKeyword : ∀ c ∈ rest', isSpace c = true ∨ isTokenTail c = true := by
      cases rest' with
      | nil => cases spaced
      | cons c rest =>
        rw [someSpace?] at spaced
        split at spaced
        · rename_i blank
          cases spaced
          rw [List.forall_mem_cons, ← List.takeWhile_append_dropWhile (p := isSpace) (l := rest)]
          exact ⟨Or.inl blank, List.forall_mem_append.mpr ⟨blanks rest, afterBlanks⟩⟩
        · cases spaced
    rw [← List.takeWhile_append_dropWhile (p := isSpace) (l := cs)]
    refine List.forall_mem_append.mpr ⟨blanks cs, ?_⟩
    show ∀ c ∈ skipSpace cs, isSpace c = true ∨ isTokenTail c = true
    rw [spelling?_append spelled]
    refine List.forall_mem_append.mpr ⟨?_, afterKeyword⟩
    intro c member
    exact Or.inr (by simp [isTokenTail, letters c member])

/-- No type clause starts with a bare word. -/
theorem typeClause?_of_isBareWord {word : List Char} (bare : IsBareWord word) {rest : List Char}
    (apart : ∀ c ∈ rest.head?, isWhite c = true) : typeClause? (word ++ rest) = none := by
  have notBlank : ∀ c ∈ word, isSpace c = false :=
    fun c member => isSpace_of_isCodeChar (bare.chars c member)
  obtain ⟨x, word, rfl⟩ := List.exists_cons_of_ne_nil bare.nonempty
  rw [List.forall_mem_cons] at notBlank
  have notDone : isDone (x :: word ++ rest) = false := by simp [isDone, notBlank.1]
  have atStart : skipSpace (x :: word ++ rest) = x :: (word ++ rest) :=
    List.dropWhile_cons_of_neg (by simp [notBlank.1])
  -- The keyword would have to end in the word, as no blank is in it, but its last letter is no `s`.
  have noKeyword : asToken? (x :: (word ++ rest)) = none := by
    rw [asToken?, afterKeyword?, show "as".toList = ['a', 's'] from rfl, spelling?]
    split
    · cases word with
      | nil =>
        cases rest with
        | nil => rfl
        | cons c rest =>
          have other : foldChar c ≠ 's' := by
            intro same
            have notWhite := isWhite_of_isCaselessLetter
              (isCaselessLetter_of_foldChar (by rw [same]; decide))
            rw [apart c rfl] at notWhite
            cases notWhite
          rw [List.nil_append, spelling?, if_neg other]
          rfl
      | cons y word =>
        cases word with
        | nil =>
          rw [List.singleton_append, spelling?, if_neg (bare.last y rfl)]
          rfl
        | cons z word =>
          have next := notBlank.2 z (by simp)
          rw [List.cons_append, spelling?]
          split
          · simp [spelling?, someSpace?, next]
          · rfl
    · rfl
  rw [typeClause?, notDone, if_neg (by simp), atStart, noKeyword]
  rfl

theorem IsBareWord.of_suffix {word part : List Char} (bare : IsBareWord word) (isEnd : part <:+ word)
    (nonempty : part ≠ []) : IsBareWord part := by
  obtain ⟨before, rfl⟩ := isEnd
  refine ⟨nonempty, fun c member => bare.chars c (List.mem_append_right _ member), ?_⟩
  have last := bare.last
  rw [List.getLast?_append_of_ne_nil _ nonempty] at last
  exact last

theorem isCodeChar_of_isTokenTail {c : Char} (tail : isTokenTail c = true) :
    isCodeChar c = true := by
  simp only [isTokenTail, Bool.or_eq_true, beq_iff_eq] at tail
  rcases tail with (letter | digit) | rfl
  · simp [isCodeChar, letter]
  · simp [isCodeChar, digit]
  · decide

/-- What is left of a literal with white space around it is part of a type clause only where it is
blank. -/
theorem blank_of_typeClause? {text before left rest : List Char}
    (literal : (LiteralKind.of? (trim text)).isSome = true) (parts : text = before ++ left)
    (apart : ∀ c ∈ rest.head?, isWhite c = true) {token : Option (List Char)}
    (clause : typeClause? (left ++ rest) = some token) : ∀ c ∈ left, isSpace c = true := by
  have chars := (List.forall_mem_append.mp (typeClause?_chars clause)).1
  -- White space of other scripts is neither blank nor part of a token.
  have blank : ∀ c ∈ left, isWhite c = true → isSpace c = true := by
    intro c member white
    rcases chars c member with space | tail
    · exact space
    · have notWhite := (isCodeChar_apart (isCodeChar_of_isTokenTail tail)).1
      rw [white] at notWhite
      cases notWhite
  obtain ⟨lead, trail, trimmed, leadWhite, trailWhite⟩ := exists_trim text
  have afterTrail : ∀ c ∈ (trail ++ rest).head?, isWhite c = true := by
    cases trail with
    | nil => exact apart
    | cons d trail =>
      intro c first
      cases first
      exact trailWhite d List.mem_cons_self
  have noWord : ∀ white word : List Char, left = white ++ word ++ trail →
      (∀ c ∈ white, isWhite c = true) → word <:+ trim text → word = [] := by
    intro white word split allWhite isEnd
    by_contra nonempty
    rcases isString_or_isBareWord literal with string | bare
    · have quote : '"' ∈ left := by
        obtain ⟨start, same⟩ := isEnd
        have last := (isString_parts string).2
        rw [← same, List.getLast?_append_of_ne_nil _ nonempty] at last
        rw [split]
        simp [List.mem_of_getLast? last]
      exact absurd (chars '"' quote) (by decide)
    · have blanks : ∀ c ∈ white, isSpace c = true := by
        intro c member
        exact blank c (by simp [split, member]) (allWhite c member)
      have none := typeClause?_of_isBareWord (bare.of_suffix isEnd nonempty) afterTrail
      rw [split, List.append_assoc, List.append_assoc, typeClause?_of_blanks blanks, none] at clause
      cases clause
  have same : before ++ left = lead ++ trim text ++ trail := parts.symm.trans trimmed
  rcases List.append_eq_append_iff.mp same with ⟨word, outer, inner⟩ | ⟨beyond, -, inner⟩
  · have empty : word = [] := by
      rcases List.append_eq_append_iff.mp outer with ⟨start, -, core⟩ | ⟨white, whites, core⟩
      · exact noWord [] word (by rw [inner]; rfl) (by simp) ⟨start, core.symm⟩
      · have core' := noWord white (trim text) (by rw [inner, core])
          (fun c member => leadWhite c (by rw [whites]; simp [member])) (List.suffix_refl _)
        rw [core'] at literal
        cases literal
    rw [empty, List.nil_append] at inner
    exact fun c member => blank c member (trailWhite c (inner ▸ member))
  · exact fun c member => blank c member (trailWhite c (by rw [inner]; simp [member]))

/-- A default ends before the blanks that stand before the rest, if what is left of it is part of a type
clause only where it is blank. -/
theorem defaultAndType?_of_blank {rest : List Char} {token : Option (List Char)}
    (clause : typeClause? rest = some token) {value : List Char}
    (blank : ∀ before left, value = before ++ left → (typeClause? (left ++ rest)).isSome = true →
      ∀ c ∈ left, isSpace c = true) (nonempty : value ≠ []) (held : List Char) :
    ∃ text blanks, defaultAndType? held (value ++ rest) = some (held.reverse ++ text, token) ∧
      value = text ++ blanks ∧ ∀ c ∈ blanks, isSpace c = true := by
  induction value generalizing held with
  | nil => exact absurd rfl nonempty
  | cons c value ih =>
    rw [List.cons_append, defaultAndType?]
    cases found : typeClause? (value ++ rest) with
    | some token' =>
      have blanks := blank [c] value rfl (by rw [found]; rfl)
      rw [typeClause?_of_blanks blanks, clause] at found
      cases found
      exact ⟨[c], value, by simp, rfl, blanks⟩
    | none =>
      have more : value ≠ [] := by
        rintro rfl
        rw [List.nil_append, clause] at found
        cases found
      obtain ⟨text, blanks, read, split, all⟩ := ih
        (fun before left split => blank (c :: before) left (congrArg (c :: ·) split)) more (c :: held)
      refine ⟨c :: text, blanks, ?_, congrArg (c :: ·) split, all⟩
      rw [List.reverse_cons, List.append_assoc, List.singleton_append] at read
      exact read

/-- A default that is a literal is read as far as its literal goes, whatever type clause follows. -/
theorem paramRest?_of_literal {text rest : List Char}
    (literal : (LiteralKind.of? (trim text)).isSome = true) {token : Option (List Char)}
    (clause : typeClause? rest = some token) (apart : ∀ c ∈ rest.head?, isWhite c = true) :
    ∃ value, paramRest? (" = ".toList ++ text ++ rest) = some (some value, token) ∧
      trim value = trim text := by
  have skipped : text.takeWhile isSpace ++ skipSpace text = text := List.takeWhile_append_dropWhile
  have lead : ∀ c ∈ text.takeWhile isSpace, isSpace c = true := fun c => List.mem_takeWhile_imp
  have same : trim (skipSpace text) = trim text := by
    conv_rhs => rw [← skipped]
    exact (trim_of_white_append (fun c member => isWhite_of_isSpace (lead c member)) _).symm
  have nonempty : skipSpace text ≠ [] := by
    intro nothing
    rw [← same, nothing] at literal
    cases literal
  have blank : ∀ before left, skipSpace text = before ++ left →
      (typeClause? (left ++ rest)).isSome = true → ∀ c ∈ left, isSpace c = true := by
    intro before left split found
    obtain ⟨token', found⟩ := Option.isSome_iff_exists.mp found
    exact blank_of_typeClause? (by rw [same]; exact literal) split apart found
  obtain ⟨value, blanks, read, split, all⟩ := defaultAndType?_of_blank clause blank nonempty []
  have start : skipSpace (' ' :: (text ++ rest)) = skipSpace text ++ rest := by
    show (text ++ rest).dropWhile isSpace = _
    rw [List.dropWhile_append, if_neg (by simpa [skipSpace] using nonempty)]
    rfl
  have trimmed : trim value = trim (skipSpace text) := by
    rw [split, trim_append_of_white fun c member => isWhite_of_isSpace (all c member)]
  refine ⟨value, ?_, trimmed.trans same⟩
  have equals : skipSpace (" = ".toList ++ text ++ rest) = '=' :: ' ' :: (text ++ rest) := rfl
  simp only [paramRest?, equals, start]
  split
  · rename_i nothing
    exact absurd (List.append_eq_nil_iff.mp nothing).1 nonempty
  · rw [read]
    rfl

end Clauses

end BrightDoc.Line
