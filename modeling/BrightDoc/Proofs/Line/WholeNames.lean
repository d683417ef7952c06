import BrightDoc.Proofs.Line.Initializers
import BrightDoc.Proofs.Line.MemberNames
import BrightDoc.Proofs.Reader.Headers

/-! # Names and the words after them

Parameters and fields start with a name, which a type may follow after the keyword `as`. No blank has to be
before the keyword, so a name with a bare word after it is cut where it ends in the keyword: `bias float` is
read as a `bi` of the type `float`. In all other texts the name is a whole word, and a second word after it
is refused. -/

namespace BrightDoc.Line

open BrightDoc.Text

/-- The text is a name without a designator. -/
def isBareName : List Char → Bool
  | [] => false
  | c :: cs => isCaselessLetter c && cs.all isNameTail

section Words

variable {cs name rest start token tail : List Char}

theorem isTokenTail_of_isNameTail {c : Char} (isTail : isNameTail c = true) : isTokenTail c = true := by
  rw [isTokenTail, show (isCaselessLetter c || c.isDigit) = true from isTail]
  rfl

theorem isTokenTail_of_isSpace {c : Char} (blank : isSpace c = true) : isTokenTail c = false := by
  rw [Bool.eq_false_iff]
  intro isTail
  rw [isSpace_of_isCodeChar (isCodeChar_of_isTokenTail isTail)] at blank
  cases blank

/-- A name is read as far as it goes. -/
theorem name?_eq_some_iff :
    name? cs = some (name, rest) ↔
      cs = name ++ rest ∧ isBareName name = true ∧ ∀ c ∈ rest.head?, isNameTail c = false := by
  constructor
  · intro found
    cases cs with
    | nil => cases found
    | cons c cs =>
      rw [name?, nameOver?] at found
      split at found
      · rename_i letter
        cases found
        refine ⟨by simp, ?_, ?_⟩
        · rw [isBareName, letter, Bool.true_and, List.all_eq_true]
          exact fun d member => List.mem_takeWhile_imp member
        · intro d first
          have stops := List.head?_dropWhile_not isNameTail cs
          rw [show (cs.dropWhile isNameTail).head? = some d from first] at stops
          exact stops
      · cases found
  · rintro ⟨rfl, bare, stops⟩
    cases name with
    | nil => cases bare
    | cons c name =>
      rw [isBareName, Bool.and_eq_true, List.all_eq_true] at bare
      obtain ⟨taken, dropped⟩ := takeWhile_of_head? stops
      rw [name?, List.cons_append, nameOver?, if_pos bare.1]
      show some (c :: (name ++ rest).takeWhile isNameTail, (name ++ rest).dropWhile isNameTail) = _
      rw [List.takeWhile_append_of_pos bare.2, List.dropWhile_append_of_pos bare.2, taken, dropped,
        List.append_nil]

theorem someSpace?_eq_some (found : someSpace? cs = some start) :
    skipSpace cs = start ∧ ∃ c rest, cs = c :: rest ∧ isSpace c = true := by
  cases cs with
  | nil => cases found
  | cons c cs =>
    rw [someSpace?] at found
    split at found
    · rename_i blank
      cases found
      exact ⟨List.dropWhile_cons_of_pos blank, c, cs, rfl, blank⟩
    · cases found

/-- Blanks continue neither a token nor a name. -/
theorem stops_of_someSpace? (found : someSpace? cs = some start) :
    ∀ c ∈ cs.head?, isTokenTail c = false ∧ isNameTail c = false := by
  obtain ⟨-, c, rest, rfl, blank⟩ := someSpace?_eq_some found
  intro d first
  cases first
  have stops := isTokenTail_of_isSpace blank
  refine ⟨stops, Bool.eq_false_iff.mpr fun isTail => ?_⟩
  rw [isTokenTail_of_isNameTail isTail] at stops
  cases stops

/-- A name is read as a token too. -/
theorem token?_append (bare : isBareName name = true) (stops : ∀ c ∈ rest.head?, isTokenTail c = false) :
    token? (name ++ rest) = some (name, rest) := by
  cases name with
  | nil => cases bare
  | cons c name =>
    rw [isBareName, Bool.and_eq_true, List.all_eq_true] at bare
    have tails := fun d member => isTokenTail_of_isNameTail (bare.2 d member)
    obtain ⟨taken, dropped⟩ := takeWhile_of_head? stops
    rw [List.cons_append, token?, if_pos bare.1, List.takeWhile_append_of_pos tails,
      List.dropWhile_append_of_pos tails, taken, dropped, List.append_nil]

theorem spelling?_map (found rest : List Char) :
    spelling? (found.map foldChar) (found ++ rest) = some (found, rest) := by
  induction found with
  | nil => rfl
  | cons c found ih => rw [List.map_cons, List.cons_append, spelling?, if_pos rfl, ih, Option.map_some]

/-- The keyword before a type is read, whatever follows it. -/
theorem asToken?_append {keyword : List Char} (spelled : isSpelling "as" keyword = true)
    (left : List Char) : asToken? (keyword ++ left) = (someSpace? left).bind token? := by
  have folded := map_foldChar_of_isSpelling spelled
  rw [asToken?, afterKeyword?, ← folded, spelling?_map]
  rfl

theorem asToken?_split (found : asToken? cs = some (token, tail)) :
    ∃ keyword left start, cs = keyword ++ left ∧ isSpelling "as" keyword = true ∧
      someSpace? left = some start ∧ token? start = some (token, tail) := by
  simp only [asToken?, Option.bind_eq_bind, Option.bind_eq_some_iff] at found
  obtain ⟨left, word, start, spaced, named⟩ := found
  obtain ⟨⟨keyword, left'⟩, spelled, same⟩ := Option.map_eq_some_iff.mp word
  dsimp only at same
  subst same
  refine ⟨keyword, left', start, spelling?_append spelled, ?_, spaced, named⟩
  have whole := spelling?_map keyword []
  rw [List.append_nil, map_foldChar_of_spelling? spelled] at whole
  rw [isSpelling, afterKeyword?, whole]
  rfl

theorem isNameTail_of_isSpelling {keyword : List Char} (spelled : isSpelling "as" keyword = true) :
    keyword.all isNameTail = true := by
  have letters := isCaselessLetter_of_map (map_foldChar_of_isSpelling spelled) (by decide)
  rw [List.all_eq_true]
  intro c member
  rw [isNameTail, letters c member, Bool.true_or]

theorem length_of_isSpelling {keyword : List Char} (spelled : isSpelling "as" keyword = true) :
    keyword.length = 2 := by
  have folded := congrArg List.length (map_foldChar_of_isSpelling spelled)
  rwa [List.length_map] at folded

theorem isBareName_append (nonempty : name ≠ []) (more : List Char) :
    isBareName (name ++ more) = (isBareName name && more.all isNameTail) := by
  cases name with
  | nil => exact absurd rfl nonempty
  | cons c name => rw [List.cons_append, isBareName, isBareName, List.all_append, Bool.and_assoc]

theorem isBareName_of_isSpelling {keyword : List Char} (spelled : isSpelling "as" keyword = true) :
    isBareName keyword = true := by
  have letters := isCaselessLetter_of_map (map_foldChar_of_isSpelling spelled) (by decide)
  have tails := isNameTail_of_isSpelling spelled
  have long := length_of_isSpelling spelled
  cases keyword with
  | nil => cases long
  | cons c keyword =>
    rw [List.all_cons, Bool.and_eq_true] at tails
    rw [isBareName, letters c List.mem_cons_self, tails.2]
    rfl

/-- The keyword before a type is the whole name that starts the text. -/
theorem name?_of_asToken? (found : asToken? cs = some (token, tail)) :
    ∃ keyword left, name? cs = some (keyword, left) ∧ isSpelling "as" keyword = true := by
  obtain ⟨keyword, left, start, rfl, spelled, spaced, -⟩ := asToken?_split found
  have stops := fun c first => (stops_of_someSpace? spaced c first).2
  exact ⟨keyword, left, name?_eq_some_iff.mpr ⟨rfl, isBareName_of_isSpelling spelled, stops⟩, spelled⟩

/-- A name is cut before the keyword that it ends in. -/
theorem beforeAs?_eq_some_iff {short : List Char} :
    beforeAs? name = some short ↔
      ∃ keyword, name = short ++ keyword ∧ short ≠ [] ∧ isSpelling "as" keyword = true := by
  constructor
  · intro cut
    simp only [beforeAs?] at cut
    split at cut
    · rename_i spelled
      cases cut
      simp only [Bool.and_eq_true, Bool.not_eq_true', List.isEmpty_eq_false_iff] at spelled
      exact ⟨_, (List.take_append_drop _ name).symm, spelled.2, spelled.1⟩
    · cases cut
  · rintro ⟨keyword, rfl, nonempty, spelled⟩
    have place : (short ++ keyword).length - 2 = short.length := by
      rw [List.length_append, length_of_isSpelling spelled, Nat.add_sub_cancel]
    simp only [beforeAs?, place, List.take_left, List.drop_left, spelled]
    simpa using nonempty

end Words

/-- The word that follows the name that starts the text, after blanks. -/
def secondWord? (cs : List Char) : Option (List Char) := do
  let (_, rest) ← designatedName? cs
  let (word, _) ← name? (← someSpace? rest)
  return word

/-- The texts that start with a name and may have a type. -/
inductive Named where
  | parameter | field
deriving DecidableEq

namespace Named

/-- The name that is read, if the text is accepted. -/
def recognised? : Named → List Char → Option (List Char)
  | parameter, text => (paramParts? text).map ParamParts.name
  | field, text => (field? text).map FieldParts.name

/-- The ends of the text that can start with the name: what follows the blanks, and what follows the access
word of a field. -/
def starts : Named → List Char → List (List Char)
  | parameter, text => [skipSpace text]
  | field, text => ((access? (skipSpace text)).map Prod.snd).toList ++ [skipSpace text]

/-- The text may follow the name. -/
def mayFollow : Named → List Char → Bool
  | parameter, cs => (paramRest? cs).isSome
  | field, cs => (fieldRest? cs).isSome

/-- The text may follow the type. -/
def mayEnd : Named → List Char → Bool
  | parameter, cs => isDone cs
  | field, cs => (optionalInitializer? cs).isSome

/-- The name cut before the keyword that it ends in, if a type follows it. -/
def cutName? (kind : Named) (name rest : List Char) : Option (List Char) := do
  let short ← beforeAs? name
  let (_, tail) ← token? (← someSpace? rest)
  if kind.mayEnd tail then some short else none

/-- The name that is read from here. -/
def fromName? (kind : Named) (cs : List Char) : Option (List Char) := do
  let (name, rest) ← name? cs
  let (full, after) := withDesignator (name, rest)
  if kind.mayFollow after then some full else kind.cutName? name rest

/-- The text is the keyword `as` with a type and what may follow it. -/
def IsTyped (kind : Named) (cs : List Char) : Prop :=
  ∃ token tail, asToken? cs = some (token, tail) ∧ kind.mayEnd tail = true

/-- The name that starts the text runs into the keyword of its type. -/
def RunsIntoType (kind : Named) (cs : List Char) : Prop :=
  ∃ name designator rest, cs = name ++ Option.toList designator ++ rest ∧ isBareName name = true ∧
    (∀ d ∈ designator, isDesignator d = true) ∧ kind.IsTyped rest

section Reading

theorem paramParts?_name (text : List Char) :
    (paramParts? text).map ParamParts.name = parameter.fromName? (skipSpace text) := by
  simp only [paramParts?, fromName?, Option.bind_eq_bind]
  cases name? (skipSpace text) with
  | none => rfl
  | some found =>
    simp only [Option.bind_some]
    split
    · rename_i parts follows
      rw [if_pos (by rw [mayFollow, follows]; rfl)]
      rfl
    · rename_i refused
      rw [if_neg (by rw [mayFollow, refused]; simp), cutName?, Option.map_bind]
      simp only [Function.comp_def, Option.map_bind, done?, apply_ite, Option.map_some, Option.map_none]
      rfl

theorem fieldFromName?_name (access : Option Access) (cs : List Char) :
    (fieldFromName? access cs).map FieldParts.name = field.fromName? cs := by
  simp only [fieldFromName?, fromName?, Option.bind_eq_bind]
  cases name? cs with
  | none => rfl
  | some found =>
    simp only [Option.bind_some]
    split
    · rename_i parts follows
      rw [if_pos (by rw [mayFollow, follows]; rfl)]
      rfl
    · rename_i refused
      rw [if_neg (by rw [mayFollow, refused]; simp), cutName?, Option.map_bind]
      simp only [Function.comp_def, Option.map_bind]
      have same : ∀ (short : List Char) (value : Option (Option (List Char))),
        value.bind (fun _ => some short) = if value.isSome then some short else none := by
        intro short value
        cases value <;> rfl
      simp only [Option.pure_def, Option.map_some, same]
      rfl

/-- The name is read from the first place where it can be. -/
theorem recognised?_eq (kind : Named) (text : List Char) :
    kind.recognised? text = (kind.starts text).findSome? kind.fromName? := by
  cases kind with
  | parameter =>
    rw [recognised?, paramParts?_name, starts, List.findSome?_cons]
    cases parameter.fromName? (skipSpace text) <;> rfl
  | field =>
    simp only [recognised?, field?, starts, Option.map_or, fieldFromName?_name, List.findSome?_append,
      Option.map_bind, Function.comp_def]
    cases access? (skipSpace text) with
    | none => cases read : field.fromName? (skipSpace text) <;> simp [read]
    | some found => cases read : field.fromName? (skipSpace text) <;> simp [read]

end Reading

section Continuations

variable {kind : Named} {cs rest start token tail : List Char}

/-- A word is neither blank nor a sign. -/
theorem skipSpace_of_not_atWordEnd (inWord : atWordEnd cs = false) :
    skipSpace cs = cs ∧ isDone cs = false ∧ ∀ rest, cs ≠ '=' :: rest := by
  cases cs with
  | nil => cases inWord
  | cons c cs =>
    rw [atWordEnd, Bool.not_eq_false'] at inWord
    have ink : isSpace c = false := by
      rw [Bool.eq_false_iff]
      intro blank
      rw [(isSpace_apart blank).2.2.1] at inWord
      cases inWord
    refine ⟨List.dropWhile_cons_of_neg (by simp [ink]), by simp [isDone, ink], ?_⟩
    rintro rest same
    cases same
    exact absurd inWord (by decide)

theorem not_atWordEnd_of_letter {c : Char} (letter : isCaselessLetter c = true) (cs : List Char) :
    atWordEnd (c :: cs) = false := by
  rw [atWordEnd, isWord_of_isCaselessLetter letter]
  rfl

theorem not_atWordEnd_of_token? (found : token? cs = some (token, tail)) : atWordEnd cs = false := by
  obtain ⟨rfl, ⟨c, more, rfl, letter⟩, -⟩ := token?_eq_some found
  exact not_atWordEnd_of_letter letter (more ++ tail)

/-- A name or a type starts a word, and so does the keyword before a type. -/
theorem not_atWordEnd_of_name? {name : List Char} (found : name? cs = some (name, rest)) :
    atWordEnd cs = false := by
  obtain ⟨rfl, ⟨c, more, rfl, letter⟩, -⟩ := nameOver?_eq_some found
  exact not_atWordEnd_of_letter letter (more ++ rest)

theorem IsTyped.not_atWordEnd (typed : kind.IsTyped cs) : atWordEnd cs = false := by
  obtain ⟨token, tail, found, -⟩ := typed
  obtain ⟨keyword, left, named, -⟩ := name?_of_asToken? found
  exact not_atWordEnd_of_name? named

theorem isTyped_iff (found : asToken? cs = some (token, tail)) :
    kind.IsTyped cs ↔ kind.mayEnd tail = true := by
  simp [IsTyped, found]

/-- A word that may follow a name is the keyword of its type. -/
theorem mayFollow_iff_isTyped (inWord : atWordEnd (skipSpace cs) = false) :
    kind.mayFollow cs = true ↔ kind.IsTyped (skipSpace cs) := by
  obtain ⟨here, notDone, noSign⟩ := skipSpace_of_not_atWordEnd inWord
  cases kind with
  | parameter =>
    rw [mayFollow, paramRest?]
    split
    · exact absurd ‹_› (noSign _)
    · rw [Option.isSome_map, typeClause?, notDone, here]
      cases found : asToken? (skipSpace cs) with
      | none => simp [IsTyped, found]
      | some parts =>
        rw [isTyped_iff found]
        cases done : isDone parts.2 <;> simp [mayEnd, done?, done]
  | field =>
    have noValue : optionalInitializer? cs = none := by
      rw [optionalInitializer?]
      split
      · rename_i nothing
        rw [nothing] at inWord
        cases inWord
      · exact absurd ‹_› (noSign _)
      · rfl
    rw [mayFollow, fieldRest?]
    cases found : asToken? (skipSpace cs) with
    | none => simp [IsTyped, noValue, found]
    | some parts => rw [isTyped_iff found, Option.isSome_map, mayEnd]

/-- No word comes after the type. -/
theorem atWordEnd_of_mayEnd (ends : kind.mayEnd tail = true) : atWordEnd (skipSpace tail) = true := by
  cases kind with
  | parameter =>
    rw [skipSpace_eq_nil_iff.mpr ends]
    rfl
  | field =>
    rw [mayEnd, optionalInitializer?] at ends
    split at ends
    · rename_i nothing
      rw [nothing]
      rfl
    · rename_i value sign
      rw [sign, atWordEnd, show isWord '=' = false from by decide]
      rfl
    · cases ends

/-- The last word is no keyword. -/
theorem not_isTyped_of_token? (found : token? start = some (token, tail)) (ends : kind.mayEnd tail = true) :
    ¬ kind.IsTyped start := by
  rintro ⟨token', tail', typed, -⟩
  obtain ⟨keyword, left, next, rfl, spelled, spaced, named⟩ := asToken?_split typed
  have stops := fun c first => (stops_of_someSpace? spaced c first).1
  rw [token?_append (isBareName_of_isSpelling spelled) stops] at found
  cases found
  have ended := atWordEnd_of_mayEnd ends
  rw [(someSpace?_eq_some spaced).1, not_atWordEnd_of_token? named] at ended
  cases ended

end Continuations

section Whole

variable {kind : Named} {cs name rest : List Char}

/-- The part that is cut off a name is the keyword of a type that follows the name. -/
theorem cutName?_eq_some_iff {short : List Char} :
    kind.cutName? name rest = some short ↔
      ∃ keyword start token tail, name = short ++ keyword ∧ short ≠ [] ∧ isSpelling "as" keyword = true ∧
        someSpace? rest = some start ∧ token? start = some (token, tail) ∧ kind.mayEnd tail = true := by
  simp only [cutName?, Option.bind_eq_bind, Option.bind_eq_some_iff, beforeAs?_eq_some_iff]
  constructor
  · rintro ⟨short', ⟨keyword, split, nonempty, spelled⟩, start, spaced, ⟨token, tail⟩, found, checked⟩
    dsimp only at checked
    split at checked
    · rename_i ends
      cases checked
      exact ⟨keyword, start, token, tail, split, nonempty, spelled, spaced, found, ends⟩
    · cases checked
  · rintro ⟨keyword, start, token, tail, split, nonempty, spelled, spaced, found, ends⟩
    exact ⟨short, ⟨keyword, split, nonempty, spelled⟩, start, spaced, (token, tail), found, if_pos ends⟩

/-- A name runs into its type if it is cut, or if the keyword follows its designator. -/
theorem runsIntoType_iff (named : name? cs = some (name, rest)) :
    kind.RunsIntoType cs ↔
      (∃ short, kind.cutName? name rest = some short) ∨
        ∃ d after, rest = d :: after ∧ isDesignator d = true ∧ kind.IsTyped after := by
  constructor
  · rintro ⟨first, designator, typed, rfl, bare, designates, token, tail, found, ends⟩
    cases designator with
    | none =>
      obtain ⟨keyword, left, start, rfl, spelled, spaced, isToken⟩ := asToken?_split found
      have nonempty : first ≠ [] := by
        rintro rfl
        cases bare
      have whole : name? (first ++ keyword ++ left) = some (first ++ keyword, left) := by
        refine name?_eq_some_iff.mpr ⟨rfl, ?_, fun c first => (stops_of_someSpace? spaced c first).2⟩
        rw [isBareName_append nonempty, bare, isNameTail_of_isSpelling spelled]
        rfl
      rw [Option.toList_none, List.append_nil, ← List.append_assoc, whole] at named
      cases named
      exact Or.inl ⟨first, cutName?_eq_some_iff.mpr
        ⟨keyword, start, token, tail, rfl, nonempty, spelled, spaced, isToken, ends⟩⟩
    | some d =>
      have designator := designates d rfl
      have whole : name? (first ++ [d] ++ typed) = some (first, d :: typed) := by
        refine name?_eq_some_iff.mpr ⟨by simp, bare, ?_⟩
        intro c isFirst
        cases isFirst
        exact Written.isNameTail_of_isDesignator designator
      rw [Option.toList_some, whole] at named
      cases named
      exact Or.inr ⟨d, typed, rfl, designator, token, tail, found, ends⟩
  · obtain ⟨rfl, bare, -⟩ := name?_eq_some_iff.mp named
    rintro (⟨short, cut⟩ | ⟨d, after, rfl, designator, typed⟩)
    · obtain ⟨keyword, start, token, tail, rfl, nonempty, spelled, spaced, found, ends⟩ :=
        cutName?_eq_some_iff.mp cut
      rw [isBareName_append nonempty, Bool.and_eq_true] at bare
      refine ⟨short, none, keyword ++ rest, by simp, bare.1, by simp, token, tail, ?_, ends⟩
      rw [asToken?_append spelled, spaced]
      exact found
    · exact ⟨name, some d, after, by simp, bare, by simpa using designator, typed⟩

/-- A name with its designator, and what follows it. -/
theorem withDesignator_cases (name rest : List Char) :
    (∃ d after, rest = d :: after ∧ isDesignator d = true ∧
      withDesignator (name, rest) = (name ++ [d], after)) ∨
    (∀ d after, rest = d :: after → isDesignator d = false) ∧
      withDesignator (name, rest) = (name, rest) := by
  cases rest with
  | nil => exact Or.inr ⟨by simp, rfl⟩
  | cons d after =>
    cases designator : isDesignator d with
    | true => exact Or.inl ⟨d, after, rfl, designator, by simp [withDesignator, designator]⟩
    | false =>
      refine Or.inr ⟨?_, by simp [withDesignator, designator]⟩
      intro d' after' same
      cases same
      exact designator

/-- A word right after the name is the keyword of its type. -/
theorem isTyped_of_mayFollow (follows : kind.mayFollow cs = true) (inWord : atWordEnd cs = false) :
    kind.IsTyped cs := by
  have here := (skipSpace_of_not_atWordEnd inWord).1
  rw [← here] at inWord
  have typed := (mayFollow_iff_isTyped inWord).mp follows
  rwa [here] at typed

/-- No name is cut where it can be read with what follows it. -/
theorem cutName?_eq_none (follows : kind.mayFollow rest = true) : kind.cutName? name rest = none := by
  rw [Option.eq_none_iff_forall_ne_some]
  intro short cut
  obtain ⟨keyword, start, token, tail, -, -, -, spaced, found, ends⟩ := cutName?_eq_some_iff.mp cut
  have here := (someSpace?_eq_some spaced).1
  have typed := (mayFollow_iff_isTyped (by rw [here, not_atWordEnd_of_token? found])).mp follows
  rw [here] at typed
  exact not_isTyped_of_token? found ends typed

theorem cutName?_designator {d : Char} (designator : isDesignator d = true) (after : List Char) :
    kind.cutName? name (d :: after) = none := by
  rw [Option.eq_none_iff_forall_ne_some]
  intro short cut
  obtain ⟨keyword, start, token, tail, -, -, -, spaced, -⟩ := cutName?_eq_some_iff.mp cut
  obtain ⟨-, c, rest, same, blank⟩ := someSpace?_eq_some spaced
  cases same
  simp only [isDesignator, Bool.or_eq_true, beq_iff_eq] at designator
  rcases designator with (((rfl | rfl) | rfl) | rfl) | rfl <;> exact absurd blank (by decide)

/-- The name that is read is a whole word, unless it runs into its type. -/
theorem fromName?_whole_iff (found : kind.fromName? cs = some name) :
    ∃ rest, cs = name ++ rest ∧
      (designatedName? cs = some (name, rest) ∧ atWordEnd rest = true ↔ ¬ kind.RunsIntoType cs) := by
  simp only [fromName?, Option.bind_eq_bind, Option.bind_eq_some_iff] at found
  obtain ⟨⟨whole, rest⟩, named, found⟩ := found
  obtain ⟨split, -, stops⟩ := name?_eq_some_iff.mp named
  rw [runsIntoType_iff named, designatedName?, named, Option.map_some]
  dsimp only at found
  split at found
  · rename_i follows
    cases found
    rcases withDesignator_cases whole rest with ⟨d, after, rfl, designator, parts⟩ | ⟨plain, parts⟩
    · -- The keyword of the type may follow the designator.
      rw [parts] at follows ⊢
      refine ⟨after, by simp [split], ?_⟩
      simp only [cutName?_designator designator, reduceCtorEq, exists_false, false_or, true_and]
      constructor
      · rintro ended ⟨d', after', same, -, typed⟩
        cases same
        rw [typed.not_atWordEnd] at ended
        cases ended
      · intro untyped
        by_contra inWord
        have typed := isTyped_of_mayFollow follows (Bool.eq_false_iff.mpr inWord)
        exact untyped ⟨d, after, rfl, designator, typed⟩
    · -- The name is read as far as it goes.
      rw [parts] at follows ⊢
      refine ⟨rest, split, iff_of_true ⟨rfl, ?_⟩ ?_⟩
      · by_contra inWord
        obtain ⟨token, tail, typed, -⟩ := isTyped_of_mayFollow follows (Bool.eq_false_iff.mpr inWord)
        obtain ⟨keyword, left, next, -⟩ := name?_of_asToken? typed
        obtain ⟨rfl, ⟨c, more, rfl, letter⟩, -⟩ := nameOver?_eq_some next
        have isTail : isNameTail c = true := by rw [isNameTail, letter, Bool.true_or]
        rw [stops c rfl] at isTail
        cases isTail
      · rintro (⟨short, cut⟩ | ⟨d, after, same, designator, -⟩)
        · rw [cutName?_eq_none follows] at cut
          cases cut
        · rw [plain d after same] at designator
          cases designator
  · obtain ⟨keyword, start, token, tail, rfl, -, spelled, spaced, -⟩ := cutName?_eq_some_iff.mp found
    refine ⟨keyword ++ rest, by rw [split, List.append_assoc], iff_of_false ?_ ?_⟩
    · rintro ⟨-, ended⟩
      have next := name?_eq_some_iff.mpr ⟨rfl, isBareName_of_isSpelling spelled, stops⟩
      rw [not_atWordEnd_of_name? next] at ended
      cases ended
    · exact not_not_intro (Or.inl ⟨name, found⟩)

/-- A name with a second word after it is refused, unless it runs into its type. -/
theorem fromName?_eq_none_iff {word : List Char} (second : secondWord? cs = some word)
    (other : isSpelling "as" word = false) : kind.fromName? cs = none ↔ ¬ kind.RunsIntoType cs := by
  simp only [secondWord?, designatedName?, Option.bind_eq_bind, Option.bind_eq_some_iff,
    Option.map_eq_some_iff, Option.pure_def, Option.some.injEq] at second
  obtain ⟨-, ⟨⟨name, rest⟩, named, rfl⟩, start, spaced, ⟨word', left⟩, next, rfl⟩ := second
  have here := (someSpace?_eq_some spaced).1
  have refused : ¬ kind.mayFollow (withDesignator (name, rest)).2 = true := by
    rw [mayFollow_iff_isTyped (by rw [here, not_atWordEnd_of_name? next]), here]
    rintro ⟨token, tail, typed, -⟩
    obtain ⟨keyword, left', next', spelled⟩ := name?_of_asToken? typed
    rw [next] at next'
    cases next'
    rw [other] at spelled
    cases spelled
  have untyped : ¬ kind.IsTyped (withDesignator (name, rest)).2 := by
    intro typed
    obtain ⟨-, c, more, blanks, blank⟩ := someSpace?_eq_some spaced
    have inWord := typed.not_atWordEnd
    rw [blanks, atWordEnd, (isSpace_apart blank).2.2.1] at inWord
    cases inWord
  rw [runsIntoType_iff named, not_or]
  simp only [fromName?, named, Option.bind_eq_bind, Option.bind_some, if_neg refused]
  rw [Option.eq_none_iff_forall_ne_some, ← not_exists]
  refine (and_iff_left ?_).symm
  rintro ⟨d, after, rfl, designator, typed⟩
  exact untyped (by simpa [withDesignator, designator] using typed)

end Whole

end Named

/-- The name that is read of a parameter or field is the whole word that starts it, with its designator and no
word character after it, exactly if it does not run into the keyword of its type; and where a second word other
than `as` follows the name, the text is refused exactly if the name does not run into a type. Both are said of
every place where the name of a field can start, so `private as object` is a field named by an access word. -/
theorem names_are_whole_words_iff (kind : Named) (text : List Char) :
    (∀ name, kind.recognised? text = some name →
      ∃ rest, name ++ rest ∈ kind.starts text ∧
        (designatedName? (name ++ rest) = some (name, rest) ∧ atWordEnd rest = true ↔
          ¬ kind.RunsIntoType (name ++ rest))) ∧
    ((∀ start ∈ kind.starts text, ∃ word, secondWord? start = some word ∧ isSpelling "as" word = false) →
      (kind.recognised? text = none ↔ ∀ start ∈ kind.starts text, ¬ kind.RunsIntoType start)) := by
  rw [kind.recognised?_eq]
  constructor
  · intro name found
    obtain ⟨start, member, read⟩ := List.exists_of_findSome?_eq_some found
    obtain ⟨rest, rfl, whole⟩ := Named.fromName?_whole_iff read
    exact ⟨rest, member, whole⟩
  · intro second
    rw [List.findSome?_eq_none_iff]
    refine forall₂_congr fun start member => ?_
    obtain ⟨word, next, other⟩ := second start member
    exact Named.fromName?_eq_none_iff next other

/-- A parameter with a type, and a field with a second word in the place of its type. -/
theorem typed_read_and_second_word_refused :
    Named.parameter.recognised? "count% as integer".toList = some "count%".toList ∧
      ¬ Named.parameter.RunsIntoType "count% as integer".toList ∧
    Named.field.recognised? "private count number".toList = none ∧
      ¬ Named.field.RunsIntoType "count number".toList := by
  have read : Named.parameter.recognised? "count% as integer".toList = some "count%".toList := by rfl
  have refused : Named.field.recognised? "private count number".toList = none := by rfl
  refine ⟨read, ?_, refused, ?_⟩
  · obtain ⟨rest, member, whole⟩ :=
      (names_are_whole_words_iff .parameter "count% as integer".toList).1 _ read
    obtain rfl : rest = " as integer".toList := List.append_cancel_left (List.mem_singleton.mp member)
    exact whole.mp ⟨by decide, by decide⟩
  · refine ((names_are_whole_words_iff .field "private count number".toList).2 ?_).mp refused _ (by decide)
    rw [show Named.field.starts "private count number".toList =
      ["count number".toList, "private count number".toList] from rfl]
    intro start member
    rcases List.mem_pair.mp member with rfl | rfl
    · exact ⟨"number".toList, by decide, by decide⟩
    · exact ⟨"count".toList, by decide, by decide⟩

/-- Two words without a keyword between them are read as a name and a type, with the name cut in two. -/
theorem bias_and_alias_cut :
    paramParts? "bias float".toList = some { name := "bi".toList, typeToken := some "float".toList } ∧
    field? "private alias string".toList =
      some { access := some .owner, name := "ali".toList, typeToken := some "string".toList } ∧
    atWordEnd "as float".toList = false ∧ atWordEnd "as string".toList = false ∧
    secondWord? "bias float".toList = some "float".toList ∧ isSpelling "as" "float".toList = false := by
  exact ⟨by rfl, by rfl, by decide, by decide, by decide, by decide⟩

end BrightDoc.Line
