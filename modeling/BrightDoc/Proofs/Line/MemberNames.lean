import BrightDoc.Proofs.Line.Reindented
import Mathlib.Data.List.Infix

/-! # Function words as names of members

Function literals and function ends are counted wherever one of their words starts, so a member that
is called `sub` or `endSub` counts, too. On a line whose function words are all names of members these
are the only ones to count (`countWordStarts_eq_countMembers`), and a line that is nothing but
`end function` or `end sub` closes one function (`bodyDepth_of_endsFunction`). -/

namespace BrightDoc.Line

open BrightDoc.Text

/-- Whether a function word stands here: `function` or `sub`, alone or after `end`. -/
def namesFunction (cs : List Char) : Bool :=
  closesFunction cs ||
    match firstSpelling? ["function", "sub"] cs with
    | some (_, rest) => atWordEnd rest
    | none => false

/-- Whether the text before a place, newest character first, ends in a dot, or in a dot and a spaced
`end`: what stands at the place is, or goes on with, the name of a member. -/
def afterDot (before : List Char) : Bool :=
  before.head? == some '.' ||
    ((someSpace? before).bind (afterKeyword? "dne")).any fun rest => rest.head? == some '.'

/-- Number of places in the text that satisfy `p` and belong to the name of a member; `before` is the
text before it, newest character first. -/
def countMembers (p : List Char → Bool) (before : List Char) : List Char → Nat
  | [] => 0
  | c :: cs =>
    (if afterDot before && p (c :: cs) then 1 else 0) + countMembers p (c :: before) cs

/-- Whether every function word in the text belongs to the name of a member; `before` is the text before
it, newest character first. -/
def membersOnly (before : List Char) : List Char → Bool
  | [] => true
  | c :: cs =>
    (before.head?.any isWord || afterDot before || !namesFunction (c :: cs)) &&
      membersOnly (c :: before) cs

/-- Whether the line has function words as names of members only, outside literals and comments. -/
def onlyMembers (line : List Char) : Bool :=
  isComment line || membersOnly [] (emptyStrings (splitComment line).1)

/-- Number of names of members on the line that satisfy `p`, outside literals and comments. -/
def memberCount (p : List Char → Bool) (line : List Char) : Nat :=
  if isComment line then 0 else countMembers p [] (emptyStrings (splitComment line).1)

/-- Number of names of members on some lines that satisfy `p`. -/
def memberTotal (p : List Char → Bool) : List (List Char) → Nat
  | [] => 0
  | line :: more => memberCount p line + memberTotal p more

/-- The names of members on some lines cancel out: those that read as function ends are never more than
those that read as function literals before them, and in the end as many. -/
structure MembersCancel (lines : List (List Char)) : Prop where
  covered : ∀ front, front <+: lines →
    memberTotal closesFunction front ≤ memberTotal opensFunction front
  even : memberTotal closesFunction lines = memberTotal opensFunction lines

theorem membersCancel_iff {lines : List (List Char)} :
    MembersCancel lines ↔
      (∀ front ∈ lines.inits, memberTotal closesFunction front ≤ memberTotal opensFunction front) ∧
        memberTotal closesFunction lines = memberTotal opensFunction lines := by
  simp only [List.mem_inits]
  exact ⟨fun cancel => ⟨cancel.covered, cancel.even⟩, fun ⟨covered, even⟩ => ⟨covered, even⟩⟩

instance (lines : List (List Char)) : Decidable (MembersCancel lines) :=
  decidable_of_iff _ membersCancel_iff.symm

/-- Whether the line is nothing but `end function` or `end sub`, but for blanks and a comment. -/
def endsFunction (line : List Char) : Bool :=
  !isComment line &&
    match afterKeyword? "end" (skipSpace (splitComment line).1) with
    | some rest =>
      match firstSpelling? ["function", "sub"] (skipSpace rest) with
      | some (_, rest) => isBlank rest
      | none => false
    | none => false

/-- A function literal starts with a function word. -/
theorem namesFunction_of_opensFunction {cs : List Char} (opens : opensFunction cs = true) :
    namesFunction cs = true := by
  unfold opensFunction at opens
  unfold namesFunction
  cases found : firstSpelling? ["function", "sub"] cs with
  | none => simp [found] at opens
  | some pair =>
    obtain ⟨word, rest⟩ := pair
    simp only [found, Option.isSome_iff_exists] at opens
    obtain ⟨more, parenthesis⟩ := opens
    have wordEnd : atWordEnd rest = true := by
      cases rest with
      | nil => rfl
      | cons c rest =>
        simp only [skipSpace, List.dropWhile_cons] at parenthesis
        split at parenthesis
        · rename_i blank
          simp [atWordEnd, (isSpace_apart blank).2.2.1]
        · have same : '(' = c := by
            simpa [after?, List.isPrefixOf?] using (congrArg Option.isSome parenthesis)
          subst same
          rfl
    simp [wordEnd]

theorem namesFunction_of_closesFunction {cs : List Char} (closes : closesFunction cs = true) :
    namesFunction cs = true := by
  rw [namesFunction, closes, Bool.true_or]

/-- The name of a member starts a word. -/
theorem not_inWord_of_afterDot {before : List Char} (dotted : afterDot before = true) :
    before.head?.any isWord = false := by
  cases before with
  | nil => rfl
  | cons c before =>
    rw [List.head?_cons, Option.any_some]
    by_cases blank : isSpace c = true
    · exact (isSpace_apart blank).2.2.1
    · have same : c = '.' := by simpa [afterDot, someSpace?, blank] using dotted
      subst same
      decide

/-- Where function words are names of members only, what starts with one is counted as a name. -/
theorem countWordStarts_eq_countMembers {p : List Char → Bool}
    (words : ∀ cs, p cs = true → namesFunction cs = true) {before cs : List Char}
    (only : membersOnly before cs = true) :
    countWordStarts p (before.head?.any isWord) cs = countMembers p before cs := by
  induction cs generalizing before with
  | nil => rfl
  | cons c cs ih =>
    rw [membersOnly, Bool.and_eq_true] at only
    have here : (!before.head?.any isWord && p (c :: cs)) = (afterDot before && p (c :: cs)) := by
      cases holds : p (c :: cs) with
      | false => rw [Bool.and_false, Bool.and_false]
      | true =>
        cases dotted : afterDot before with
        | true => rw [not_inWord_of_afterDot dotted]; rfl
        | false =>
          have named := words _ holds
          have inWord : before.head?.any isWord = true := by simpa [dotted, named] using only.1
          rw [inWord]
          rfl
    rw [countWordStarts, countMembers, here, ← ih only.2]
    rfl

/-! ## The last line of a function -/

/-- A letter of a keyword is a word character. -/
theorem isWord_of_isCaselessLetter {c : Char} (letter : isCaselessLetter c = true) :
    isWord c = true := by
  by_cases ascii : c.toNat < 128
  · revert letter
    exact of_ascii (P := fun c => isCaselessLetter c = true → isWord c = true) (by decide +kernel) ascii
  · have further : c.toNat = ('\u017f').toNat ∨ c.toNat = ('\u212a').toNat := by
      have range := isCaselessLetter_range letter
      simp only [show ('\u017f').toNat = 0x17f from rfl, show ('\u212a').toNat = 0x212a from rfl]
      omega
    rcases further with same | same
    · rw [Char.toNat_inj.mp same]
      decide +kernel
    · rw [Char.toNat_inj.mp same]
      decide +kernel

/-- A text starts with one of two keywords at most, if their first letters differ. -/
theorem spelling?_apart {v w : Char} (apart : v ≠ w) {vs cs : List Char}
    {found : List Char × List Char} (spelled : spelling? (v :: vs) cs = some found)
    (ws : List Char) : spelling? (w :: ws) cs = none := by
  cases cs with
  | nil => rfl
  | cons c cs =>
    rw [spelling?] at spelled ⊢
    split at spelled
    · rename_i first
      rw [first, if_neg apart]
    · cases spelled

section Words

variable {p : List Char → Bool}

theorem countWordStarts_inWord {word : List Char} (letters : ∀ c ∈ word, isWord c = true)
    (rest : List Char) : countWordStarts p true (word ++ rest) = countWordStarts p true rest := by
  induction word with
  | nil => rfl
  | cons c word ih =>
    rw [List.forall_mem_cons] at letters
    rw [List.cons_append, countWordStarts, letters.1, ih letters.2]
    simp

/-- A word counts where it starts. -/
theorem countWordStarts_word {word : List Char} (nonempty : word ≠ [])
    (letters : ∀ c ∈ word, isWord c = true) (rest : List Char) :
    countWordStarts p false (word ++ rest) =
      (if p (word ++ rest) then 1 else 0) + countWordStarts p true rest := by
  cases word with
  | nil => exact absurd rfl nonempty
  | cons c word =>
    rw [List.forall_mem_cons] at letters
    rw [List.cons_append, countWordStarts, letters.1, countWordStarts_inWord letters.2]
    simp

/-- No word starts in the blanks after a word. -/
theorem countWordStarts_gap (none : ∀ c cs, isSpace c = true → p (c :: cs) = false)
    {gap : List Char} (blank : ∀ c ∈ gap, isSpace c = true) (nonempty : gap ≠ []) (rest : List Char) :
    countWordStarts p true (gap ++ rest) = countWordStarts p false rest := by
  cases gap with
  | nil => exact absurd rfl nonempty
  | cons c gap =>
    rw [List.forall_mem_cons] at blank
    rw [List.cons_append, countWordStarts, (isSpace_apart blank.1).2.2.1,
      countWordStarts_blanks blank.2 none]
    simp

end Words

/-- A keyword is made of word characters. -/
theorem isWord_of_spelling? {word cs found rest : List Char}
    (spelled : spelling? word cs = some (found, rest)) (letters : word.all Char.isLower = true) :
    ∀ c ∈ found, isWord c = true :=
  fun c member => isWord_of_isCaselessLetter
    (isCaselessLetter_of_map (map_foldChar_of_spelling? spelled) letters c member)

theorem spelling?_ne_nil {w : Char} {word cs found rest : List Char}
    (spelled : spelling? (w :: word) cs = some (found, rest)) : found ≠ [] := by
  rintro rfl
  cases length_of_spelling? spelled

/-- `function` and `sub` are words of small letters that start unlike `end`. -/
theorem firstSpelling?_function {cs word rest : List Char}
    (found : firstSpelling? ["function", "sub"] cs = some (word, rest)) :
    ∃ w ws, spelling? (w :: ws) cs = some (word, rest) ∧ (w :: ws).all Char.isLower = true ∧ w ≠ 'e' := by
  obtain ⟨keyword, member, spelled⟩ := List.exists_of_findSome?_eq_some found
  simp only [List.mem_cons, List.not_mem_nil, or_false] at member
  rcases member with rfl | rfl
  · exact ⟨'f', "unction".toList, spelled, by decide, by decide⟩
  · exact ⟨'s', "ub".toList, spelled, by decide, by decide⟩

/-- A text without quotes has no literals to empty. -/
theorem emptyStrings_of_noQuote {code : List Char} (noQuote : '"' ∉ code) :
    emptyStrings code = code := by
  unfold emptyStrings
  induction code with
  | nil => rfl
  | cons c code ih =>
    rw [List.mem_cons, not_or] at noQuote
    rw [emptyStringsFrom, if_neg (Ne.symm noQuote.1), ih noQuote.2]

/-- The words of the code of a last line, and what stands after each of them. -/
structure EndParts (code : List Char) where
  closer : List Char
  rest : List Char
  word : List Char
  tail : List Char
  closer_spelled : spelling? ('e' :: "nd".toList) (skipSpace code) = some (closer, rest)
  word_spelled : firstSpelling? ["function", "sub"] (skipSpace rest) = some (word, tail)
  tail_blank : ∀ c ∈ tail, isSpace c = true

theorem exists_endParts {line : List Char} (ends : endsFunction line = true) :
    isComment line = false ∧ Nonempty (EndParts (splitComment line).1) := by
  rw [endsFunction, Bool.and_eq_true, Bool.not_eq_true'] at ends
  refine ⟨ends.1, ?_⟩
  cases closed : afterKeyword? "end" (skipSpace (splitComment line).1) with
  | none => simp [closed] at ends
  | some rest =>
    obtain ⟨⟨closer, after⟩, closer_spelled, same⟩ := Option.map_eq_some_iff.mp closed
    cases same
    cases named : firstSpelling? ["function", "sub"] (skipSpace after) with
    | none => simp [closed, named] at ends
    | some pair =>
      have tail_blank : isBlank pair.2 = true := by simpa [closed, named] using ends.2
      exact ⟨⟨closer, after, pair.1, pair.2, closer_spelled, named, List.all_eq_true.mp tail_blank⟩⟩

namespace EndParts

variable {code : List Char} (parts : EndParts code)

include parts

theorem closer_letters : ∀ c ∈ parts.closer, isWord c = true :=
  isWord_of_spelling? parts.closer_spelled (by decide)

theorem word_letters : ∀ c ∈ parts.word, isWord c = true := by
  obtain ⟨w, ws, spelled, letters, -⟩ := firstSpelling?_function parts.word_spelled
  exact isWord_of_spelling? spelled letters

theorem word_ne_nil : parts.word ≠ [] := by
  obtain ⟨w, ws, spelled, -⟩ := firstSpelling?_function parts.word_spelled
  exact spelling?_ne_nil spelled

theorem skipSpace_code : skipSpace code = parts.closer ++ parts.rest :=
  spelling?_append parts.closer_spelled

theorem skipSpace_rest : skipSpace parts.rest = parts.word ++ parts.tail := by
  obtain ⟨w, ws, spelled, -⟩ := firstSpelling?_function parts.word_spelled
  exact spelling?_append spelled

theorem noQuote : '"' ∉ code := by
  have blank : ∀ {blanks : List Char}, (∀ c ∈ blanks, isSpace c = true) → '"' ∉ blanks :=
    fun blank member => absurd (blank _ member) (by decide)
  have letter : ∀ {word : List Char}, (∀ c ∈ word, isWord c = true) → '"' ∉ word :=
    fun letters member => absurd (letters _ member) (by decide)
  obtain ⟨blanks, before, split⟩ := exists_blanks code
  obtain ⟨gap, between, split'⟩ := exists_blanks parts.rest
  rw [split, parts.skipSpace_code, split', parts.skipSpace_rest]
  simp only [List.mem_append, not_or]
  exact ⟨blank before, letter parts.closer_letters, blank between, letter parts.word_letters,
    blank parts.tail_blank⟩

/-- What neither a blank nor the second word starts is counted once at most, at the first word. -/
theorem countWordStarts_eq {p : List Char → Bool}
    (none : ∀ c cs, isSpace c = true → p (c :: cs) = false)
    (second : p (skipSpace parts.rest) = false) :
    countWordStarts p false (emptyStrings code) = if p (skipSpace code) then 1 else 0 := by
  obtain ⟨blanks, before, split⟩ := exists_blanks code
  obtain ⟨gap, between, split'⟩ := exists_blanks parts.rest
  have after : countWordStarts p true parts.tail = 0 := by
    by_cases empty : parts.tail = []
    · rw [empty]
      rfl
    · have blanks := countWordStarts_gap none parts.tail_blank empty []
      rwa [List.append_nil] at blanks
  have middle : countWordStarts p true parts.rest = 0 := by
    rw [parts.skipSpace_rest] at second split'
    rw [split']
    by_cases empty : gap = []
    · rw [empty, List.nil_append, countWordStarts_inWord parts.word_letters, after]
    · rw [countWordStarts_gap none between empty,
        countWordStarts_word parts.word_ne_nil parts.word_letters, second, after]
      rfl
  calc countWordStarts p false (emptyStrings code)
      = countWordStarts p false (blanks ++ skipSpace code) := by
        rw [emptyStrings_of_noQuote parts.noQuote, ← split]
    _ = countWordStarts p false (parts.closer ++ parts.rest) := by
        rw [countWordStarts_blanks before none, parts.skipSpace_code]
    _ = (if p (parts.closer ++ parts.rest) then 1 else 0) + 0 := by
        rw [countWordStarts_word (spelling?_ne_nil parts.closer_spelled) parts.closer_letters, middle]
    _ = if p (skipSpace code) then 1 else 0 := by rw [Nat.add_zero, parts.skipSpace_code]

theorem openedFunctions_eq : openedFunctions code = 0 := by
  have second : opensFunction (skipSpace parts.rest) = false := by
    have nothing : skipSpace parts.tail = [] := List.dropWhile_eq_nil_iff.mpr parts.tail_blank
    simp only [opensFunction, parts.word_spelled, nothing]
    rfl
  have first : opensFunction (skipSpace code) = false := by
    have function := spelling?_apart (w := 'f') (by decide) parts.closer_spelled "unction".toList
    have sub := spelling?_apart (w := 's') (by decide) parts.closer_spelled "ub".toList
    have none : firstSpelling? ["function", "sub"] (skipSpace code) = none := by
      simp only [firstSpelling?, List.findSome?_cons, List.findSome?_nil]
      rw [show "function".toList = 'f' :: "unction".toList from rfl, function,
        show "sub".toList = 's' :: "ub".toList from rfl, sub]
    rw [opensFunction, none]
  rw [openedFunctions, parts.countWordStarts_eq opensFunction_blank second, first]
  rfl

theorem closedFunctions_eq : closedFunctions code = 1 := by
  have second : closesFunction (skipSpace parts.rest) = false := by
    obtain ⟨w, ws, spelled, -, apart⟩ := firstSpelling?_function parts.word_spelled
    have noEnd := spelling?_apart apart spelled "nd".toList
    rw [closesFunction, afterKeyword?, show "end".toList = 'e' :: "nd".toList from rfl, noEnd]
    rfl
  have first : closesFunction (skipSpace code) = true := by
    have wordEnd : atWordEnd parts.tail = true := by
      cases split : parts.tail with
      | nil => rfl
      | cons c tail =>
        have blank := parts.tail_blank c (by simp [split])
        simp [atWordEnd, (isSpace_apart blank).2.2.1]
    rw [closesFunction, afterKeyword?, show "end".toList = 'e' :: "nd".toList from rfl,
      parts.closer_spelled]
    simp only [Option.map_some, parts.word_spelled, wordEnd]
  rw [closedFunctions, parts.countWordStarts_eq closesFunction_blank second, first]
  rfl

end EndParts

/-- A blank line opens and closes nothing. -/
theorem countWordStarts_of_isBlank {p : List Char → Bool}
    (none : ∀ c cs, isSpace c = true → p (c :: cs) = false) {line : List Char}
    (blank : isBlank line = true) :
    countWordStarts p false (emptyStrings (splitComment line).1) = 0 := by
  have blanks := List.all_eq_true.mp blank
  have parts := splitComment_blanks blanks []
  have empty := emptyStrings_blanks blanks []
  have none := countWordStarts_blanks blanks none []
  rw [List.append_nil] at parts empty none
  rw [parts]
  dsimp only
  rw [show (splitComment []).1 = [] from rfl, List.append_nil, empty,
    show emptyStrings [] = [] from rfl, List.append_nil, none]
  rfl

end BrightDoc.Line

namespace BrightDoc

open Line

variable {line : List Char}

theorem bodyDepth_of_endsFunction (ends : endsFunction line = true) (depth index : Nat) :
    bodyDepth depth ⟨index, line⟩ = depth - 1 := by
  obtain ⟨noComment, ⟨parts⟩⟩ := exists_endParts ends
  simp only [bodyDepth, noComment, Bool.false_eq_true, if_false, SourceLine.code,
    parts.openedFunctions_eq, parts.closedFunctions_eq, Nat.add_zero]

theorem bodyDepth_of_isBlank (blank : isBlank line = true) (depth index : Nat) :
    bodyDepth depth ⟨index, line⟩ = depth := by
  have opened : openedFunctions (splitComment line).1 = 0 :=
    countWordStarts_of_isBlank opensFunction_blank blank
  have closed : closedFunctions (splitComment line).1 = 0 :=
    countWordStarts_of_isBlank closesFunction_blank blank
  simp only [bodyDepth, SourceLine.code, opened, closed, Nat.add_zero, Nat.sub_zero, ite_self]

end BrightDoc
