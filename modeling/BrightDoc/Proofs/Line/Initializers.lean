import BrightDoc.Proofs.Line.Literals
import BrightDoc.Reader.Outcome

/-! # Initializers and their sign

Parameters, constants and enum members may be initialized. Nothing that is read before the sign reaches
over it, so such a part of the code is read in two: what is before its first sign has to be a name, and
what is after it gives the initializer. The initializer is blank exactly if it was written so. -/

namespace BrightDoc

namespace Text

section Sign

variable {p : Char → Bool} {mark : Char}

/-- What ends at the mark at the latest. -/
theorem takeWhile_append_mark (stops : p mark = false) (cs rest : List Char) :
    (cs ++ mark :: rest).takeWhile p = cs.takeWhile p := by
  induction cs with
  | nil => exact List.takeWhile_cons_of_neg (by simp [stops])
  | cons c cs ih =>
    rw [List.cons_append, List.takeWhile_cons, List.takeWhile_cons, ih]

theorem dropWhile_append_mark (stops : p mark = false) (cs rest : List Char) :
    (cs ++ mark :: rest).dropWhile p = cs.dropWhile p ++ mark :: rest := by
  induction cs with
  | nil => exact List.dropWhile_cons_of_neg (by simp [stops])
  | cons c cs ih =>
    rw [List.cons_append, List.dropWhile_cons, List.dropWhile_cons, ih]
    split <;> rfl

theorem skipSpace_append_mark (stops : isSpace mark = false) (cs rest : List Char) :
    skipSpace (cs ++ mark :: rest) = skipSpace cs ++ mark :: rest :=
  dropWhile_append_mark stops cs rest

theorem someSpace?_append_mark (stops : isSpace mark = false) (cs rest : List Char) :
    someSpace? (cs ++ mark :: rest) = (someSpace? cs).map (· ++ mark :: rest) := by
  cases cs with
  | nil => simp [someSpace?, stops]
  | cons c cs =>
    rw [List.cons_append, someSpace?, someSpace?, skipSpace_append_mark stops]
    split <;> rfl

theorem spelling?_append_mark {word : List Char} (free : foldChar mark ∉ word) (cs rest : List Char) :
    spelling? word (cs ++ mark :: rest) =
      (spelling? word cs).map (Prod.map id (· ++ mark :: rest)) := by
  induction word generalizing cs with
  | nil => rfl
  | cons w word ih =>
    rw [List.mem_cons, not_or] at free
    cases cs with
    | nil => simp [spelling?, free.1]
    | cons c cs =>
      rw [List.cons_append, spelling?, spelling?, ih free.2]
      split
      · rw [Option.map_map, Option.map_map]
        rfl
      · rfl

theorem afterKeyword?_append_mark {word : String} (free : foldChar mark ∉ word.toList)
    (cs rest : List Char) :
    afterKeyword? word (cs ++ mark :: rest) = (afterKeyword? word cs).map (· ++ mark :: rest) := by
  rw [afterKeyword?, spelling?_append_mark free, afterKeyword?, Option.map_map, Option.map_map]
  rfl

end Sign

end Text

namespace Line

open BrightDoc.Text

section Sign

variable {before rest : List Char}

theorem nameOver?_append_sign {letter : Char → Bool} (stops : letter '=' = false)
    (cs rest : List Char) :
    nameOver? letter (cs ++ '=' :: rest) =
      (nameOver? letter cs).map (Prod.map id (· ++ '=' :: rest)) := by
  have ends : (letter '=' || ('=' : Char).isDigit) = false := by simp [stops]
  cases cs with
  | nil => simp [nameOver?, stops]
  | cons c cs =>
    rw [List.cons_append, nameOver?, nameOver?,
      takeWhile_append_mark (p := fun d => letter d || d.isDigit) ends,
      dropWhile_append_mark (p := fun d => letter d || d.isDigit) ends]
    split <;> rfl

theorem afterWord?_append_sign {word : String} (free : '=' ∉ word.toList) (cs rest : List Char) :
    afterWord? word (cs ++ '=' :: rest) = (afterWord? word cs).map (· ++ '=' :: rest) := by
  have blank : isSpace '=' = false := by decide
  rw [afterWord?, skipSpace_append_mark blank, @afterKeyword?_append_mark '=' word free, afterWord?]
  cases afterKeyword? word (skipSpace cs) with
  | none => rfl
  | some after => exact someSpace?_append_mark blank after rest

theorem withDesignator_append_sign (name left rest : List Char) :
    withDesignator (name, left ++ '=' :: rest) =
      Prod.map id (· ++ '=' :: rest) (withDesignator (name, left)) := by
  cases left with
  | nil => rfl
  | cons c left =>
    rw [List.cons_append, withDesignator, withDesignator]
    split <;> rfl

theorem skipSpace_eq_nil_iff {cs : List Char} : skipSpace cs = [] ↔ isDone cs = true := by
  rw [skipSpace, List.dropWhile_eq_nil_iff, isDone, List.all_eq_true]

/-- Blanks alone are before the sign, or something else is first. -/
theorem skipSpace_append_sign (free : '=' ∉ before) (rest : List Char) :
    isDone before = true ∧ skipSpace (before ++ '=' :: rest) = '=' :: rest ∨
      isDone before = false ∧ ∃ d more, d ≠ '=' ∧ d ∈ before ∧
        skipSpace (before ++ '=' :: rest) = d :: (more ++ '=' :: rest) := by
  rw [skipSpace_append_mark (by decide)]
  cases left : skipSpace before with
  | nil => exact Or.inl ⟨skipSpace_eq_nil_iff.mp left, rfl⟩
  | cons d more =>
    have inside : d ∈ before := (skipSpace_suffix before).subset (left ▸ List.mem_cons_self)
    refine Or.inr ⟨?_, d, more, fun same => free (same ▸ inside), inside, rfl⟩
    rw [Bool.eq_false_iff]
    intro done
    rw [skipSpace_eq_nil_iff.mpr done] at left
    cases left

/-- The first sign is found where blanks alone are before it. -/
theorem after?_append_sign (free : '=' ∉ before) :
    after? "=" (skipSpace (before ++ '=' :: rest)) = if isDone before then some rest else none := by
  rcases skipSpace_append_sign free rest with ⟨done, sign⟩ | ⟨left, d, more, other, -, start⟩
  · rw [sign, if_pos done]
    rfl
  · rw [start, left]
    show ['='].isPrefixOf? (d :: (more ++ '=' :: rest)) = none
    simp [List.isPrefixOf?, Ne.symm other]

/-- What follows a sign is no type clause. -/
theorem typeClause?_append_sign (cs rest : List Char) : typeClause? (cs ++ '=' :: rest) = none := by
  rw [Option.eq_none_iff_forall_ne_some]
  intro token found
  exact absurd (typeClause?_chars found '=' (by simp)) (by decide)

end Sign

/-- The parts of the code that may be initialized. -/
inductive Initialized where
  | parameter | constant | enumMember
deriving DecidableEq

/-- The default of a parameter after its sign, and the type token that follows it. -/
def default? (rest : List Char) : Option (List Char × Option (List Char)) :=
  match skipSpace rest with
  | [] => rest.getLast?.map fun c => ([c], none)
  | value => defaultAndType? [] value

namespace Initialized

/-- The construct that the part is. -/
def construct : Initialized → Construct
  | parameter => .parameter
  | constant => .constant
  | enumMember => .enumMember

/-- The initializer of a part of the code, if it has one, or nothing at all if it is refused. -/
def initializer? : Initialized → List Char → Option (Option (List Char))
  | parameter, part => (paramParts? part).map ParamParts.default
  | constant, part => (constant? part).map fun found => some found.2
  | enumMember, part => (enumMember? part).map Prod.snd

/-- The name that is all there is before the sign. -/
def lead? : Initialized → List Char → Option (List Char)
  | parameter, before => do
    let (name, left) ← designatedName? (skipSpace before)
    done? name left
  | constant, before => do
    let (name, left) ← name? (← afterWord? "const" before)
    done? name left
  | enumMember, before => do
    let (name, left) ← plainName? (skipSpace before)
    done? name left

/-- The initializer that is written after the sign, if there is one. -/
def value? : Initialized → List Char → Option (List Char)
  | parameter, rest => (default? rest).map Prod.fst
  | constant, rest | enumMember, rest => Line.initializer? rest

end Initialized

section Parts

variable {before rest : List Char}

/-- What follows the name is an end of the text. -/
theorem nameOver?_suffix {letter : Char → Bool} {cs name left : List Char}
    (named : nameOver? letter (skipSpace cs) = some (name, left)) : left <:+ cs := by
  have isEnd : left <:+ skipSpace cs := by
    rw [(nameOver?_eq_some named).1]
    exact List.suffix_append name left
  exact isEnd.trans (skipSpace_suffix cs)

theorem constant?_append_sign (free : '=' ∉ before) :
    constant? (before ++ '=' :: rest) =
      (Initialized.constant.lead? before).bind fun name =>
        (Line.initializer? rest).map fun value => (name, value) := by
  have keyword : '=' ∉ "const".toList := by decide
  have letter : isCaselessLetter '=' = false := by decide
  simp only [constant?, Initialized.lead?, Option.bind_eq_bind, afterWord?_append_sign keyword]
  cases lead : afterWord? "const" before with
  | none => rfl
  | some start =>
    simp only [Option.map_some, Option.bind_some, name?, nameOver?_append_sign letter]
    cases named : nameOver? isCaselessLetter start with
    | none => rfl
    | some found =>
      obtain ⟨name, left⟩ := found
      have inside : left <:+ before := by
        rw [(nameOver?_eq_some named).1] at lead
        exact (List.suffix_append name left).trans (afterWord?_suffix lead)
      simp only [Option.map_some, Option.bind_some, Prod.map, id_eq, done?,
        after?_append_sign fun member => free (inside.subset member)]
      cases isDone left with
      | false => rfl
      | true => exact (Option.map_eq_bind ..).symm

theorem optionalInitializer?_append_sign (free : '=' ∉ before) :
    optionalInitializer? (before ++ '=' :: rest) =
      if isDone before then (Line.initializer? rest).map some else none := by
  rcases skipSpace_append_sign free rest with ⟨done, sign⟩ | ⟨left, d, more, other, -, start⟩
  · simp only [optionalInitializer?, sign, done, if_true]
  · simp [optionalInitializer?, start, left, other]

theorem paramRest?_append_sign (free : '=' ∉ before) :
    paramRest? (before ++ '=' :: rest) =
      if isDone before then (default? rest).map (Prod.map some id) else none := by
  rcases skipSpace_append_sign free rest with ⟨done, sign⟩ | ⟨left, d, more, other, -, start⟩
  · simp only [paramRest?, sign, done, if_true, default?]
    cases skipSpace rest with
    | nil =>
      rw [Option.map_map]
      rfl
    | cons c value => rfl
  · have clause := typeClause?_append_sign (d :: more) rest
    rw [List.cons_append] at clause
    simp [paramRest?, start, left, other, clause]

theorem enumMember?_append_sign (free : '=' ∉ before) :
    enumMember? (before ++ '=' :: rest) =
      (Initialized.enumMember.lead? before).bind fun name =>
        (Line.initializer? rest).map fun value => (name, some value) := by
  have letter : isLetter '=' = false := by decide
  simp only [enumMember?, Initialized.lead?, Option.bind_eq_bind, plainName?,
    skipSpace_append_mark (by decide : isSpace '=' = false), nameOver?_append_sign letter]
  cases named : nameOver? isLetter (skipSpace before) with
  | none => rfl
  | some found =>
    obtain ⟨name, left⟩ := found
    have inside := nameOver?_suffix named
    simp only [Option.map_some, Option.bind_some, Prod.map, id_eq, done?,
      optionalInitializer?_append_sign fun member => free (inside.subset member)]
    cases isDone left with
    | false => rfl
    | true => cases Line.initializer? rest <;> rfl

/-- A bare word after the name is not all there is before a sign. -/
theorem bareWord_append_sign {α : Type} (left rest : List Char) (build : List Char → α) :
    ((someSpace? (left ++ '=' :: rest)).bind fun start =>
      (token? start).bind fun found => done? (build found.1) found.2) = none := by
  rw [someSpace?_append_mark (by decide), Option.bind_eq_none_iff]
  intro start spaced
  obtain ⟨start', -, rfl⟩ := Option.map_eq_some_iff.mp spaced
  rw [Option.bind_eq_none_iff]
  rintro ⟨token, after⟩ found
  obtain ⟨split, -, tails⟩ := token?_eq_some found
  have sign : '=' ∈ after := by
    have inside : '=' ∈ token ++ after := by rw [← split]; simp
    exact (List.mem_append.mp inside).resolve_left fun member => absurd (tails '=' member) (by decide)
  have notDone : isDone after = false := by
    rw [Bool.eq_false_iff]
    intro done
    exact absurd (List.all_eq_true.mp done '=' sign) (by decide)
  rw [done?, notDone]
  rfl

theorem paramParts?_append_sign (free : '=' ∉ before) :
    paramParts? (before ++ '=' :: rest) =
      (Initialized.parameter.lead? before).bind fun name =>
        (default? rest).map fun found =>
          { name, default := some found.1, typeToken := found.2 } := by
  have letter : isCaselessLetter '=' = false := by decide
  simp only [paramParts?, Initialized.lead?, Option.bind_eq_bind, designatedName?, name?,
    skipSpace_append_mark (by decide : isSpace '=' = false), nameOver?_append_sign letter]
  cases named : nameOver? isCaselessLetter (skipSpace before) with
  | none => rfl
  | some found =>
    obtain ⟨name, left⟩ := found
    have inside : (withDesignator (name, left)).2 <:+ before :=
      (withDesignator_suffix name left).trans (nameOver?_suffix named)
    have refused : ((beforeAs? name).bind fun short => (someSpace? (left ++ '=' :: rest)).bind fun start =>
        (token? start).bind fun found =>
          done? ({ name := short, typeToken := some found.1 } : ParamParts) found.2) = none := by
      rw [Option.bind_eq_none_iff]
      intro short _
      exact bareWord_append_sign left rest
        fun token => ({ name := short, typeToken := some token } : ParamParts)
    simp only [Option.map_some, Option.bind_some, Prod.map, id_eq, withDesignator_append_sign, done?,
      paramRest?_append_sign fun member => free (inside.subset member)]
    cases isDone (withDesignator (name, left)).2 with
    | false => exact refused
    | true =>
      cases default? rest with
      | none => exact refused
      | some found => rfl

end Parts

section Values

variable {rest part : List Char}

theorem paramRest?_of_notMem (free : '=' ∉ rest) {default token : Option (List Char)}
    (found : paramRest? rest = some (default, token)) : default = none := by
  rw [paramRest?] at found
  split at found
  · rename_i after sign
    have inside : '=' ∈ skipSpace rest := by
      rw [sign]
      exact List.mem_cons_self
    exact absurd ((skipSpace_suffix rest).subset inside) free
  · obtain ⟨token, -, same⟩ := Option.map_eq_some_iff.mp found
    cases same
    rfl

theorem default_of_paramParts? (free : '=' ∉ part) {parts : ParamParts}
    (found : paramParts? part = some parts) : parts.default = none := by
  simp only [paramParts?, Option.bind_eq_bind, Option.bind_eq_some_iff] at found
  obtain ⟨⟨name, left⟩, named, found⟩ := found
  have inside : (withDesignator (name, left)).2 <:+ part :=
    (withDesignator_suffix name left).trans (nameOver?_suffix named)
  dsimp only at found
  split at found
  · rename_i default token restFound
    cases found
    exact paramRest?_of_notMem (fun member => free (inside.subset member)) restFound
  · simp only [Option.bind_eq_some_iff] at found
    obtain ⟨short, -, start, -, ⟨token, after⟩, -, done⟩ := found
    rw [done?_eq_some done]

theorem sign_mem_of_constant? {found : List Char × List Char} (recognised : constant? part = some found) :
    '=' ∈ part := by
  simp only [constant?, Option.bind_eq_bind, Option.bind_eq_some_iff] at recognised
  obtain ⟨start, keyword, ⟨name, left⟩, named, after, sign, -⟩ := recognised
  rw [after?, List.isPrefixOf?_eq_some_iff_append_eq] at sign
  have inside : '=' ∈ skipSpace left := by
    rw [← sign]
    exact List.mem_cons_self
  have isEnd : left <:+ start := by
    rw [(nameOver?_eq_some named).1]
    exact List.suffix_append name left
  exact (afterWord?_suffix keyword).subset (isEnd.subset ((skipSpace_suffix left).subset inside))

theorem value_of_enumMember? (free : '=' ∉ part) {name : List Char} {value : Option (List Char)}
    (found : enumMember? part = some (name, value)) : value = none := by
  simp only [enumMember?, Option.bind_eq_bind, Option.bind_eq_some_iff, Option.pure_def,
    Option.some.injEq] at found
  obtain ⟨⟨name', left⟩, named, value', initializer, same⟩ := found
  cases same
  rw [optionalInitializer?] at initializer
  split at initializer
  · cases initializer
    rfl
  · rename_i after sign
    have inside : '=' ∈ skipSpace left := by
      rw [sign]
      exact List.mem_cons_self
    exact absurd ((nameOver?_suffix named).subset ((skipSpace_suffix left).subset inside)) free
  · cases initializer

theorem initializer?_eq_none_iff : Line.initializer? rest = none ↔ rest = [] := by
  rw [Line.initializer?]
  split
  · simp
  · rename_i value other
    simp only [reduceCtorEq, false_iff]
    rintro rfl
    exact other rfl

theorem defaultAndType?_ne_none {value : List Char} (nonempty : value ≠ []) (held : List Char) :
    defaultAndType? held value ≠ none := by
  induction value generalizing held with
  | nil => exact absurd rfl nonempty
  | cons c value ih =>
    rw [defaultAndType?]
    split
    · simp
    · rename_i noClause
      apply ih
      rintro rfl
      cases noClause

/-- A default is the shortest text before a type clause. -/
theorem defaultAndType?_shortest {held value text : List Char} {token : Option (List Char)}
    (found : defaultAndType? held value = some (text, token)) :
    ∃ new left, text = held.reverse ++ new ∧ value = new ++ left ∧ new ≠ [] ∧
      typeClause? left = some token ∧
      ∀ other left', value = other ++ left' → other ≠ [] → (typeClause? left').isSome = true →
        new <+: other := by
  induction value generalizing held with
  | nil => cases found
  | cons c value ih =>
    rw [defaultAndType?] at found
    split at found
    · rename_i token' clause
      cases found
      refine ⟨[c], value, by simp, rfl, by simp, clause, ?_⟩
      intro other left' split nonempty _
      obtain ⟨d, more, rfl⟩ := List.exists_cons_of_ne_nil nonempty
      cases split
      exact List.cons_prefix_cons.mpr ⟨rfl, List.nil_prefix⟩
    · rename_i noClause
      obtain ⟨new, left, same, split, -, clause, shortest⟩ := ih found
      refine ⟨c :: new, left, by simp [same], by rw [split]; rfl, by simp, clause, ?_⟩
      intro other left' parts nonempty isClause
      obtain ⟨d, more, rfl⟩ := List.exists_cons_of_ne_nil nonempty
      rw [List.cons_append, List.cons.injEq] at parts
      obtain ⟨rfl, parts⟩ := parts
      refine List.cons_prefix_cons.mpr ⟨rfl, shortest more left' parts ?_ isClause⟩
      rintro rfl
      rw [List.nil_append] at parts
      rw [← parts, noClause] at isClause
      cases isClause

end Values

section Blank

variable {cs rest text : List Char}

theorem isAllWhite_append (first second : List Char) :
    isAllWhite (first ++ second) = (isAllWhite first && isAllWhite second) :=
  List.all_append

theorem isAllWhite_of_isDone (done : isDone cs = true) : isAllWhite cs = true := by
  rw [isAllWhite, List.all_eq_true]
  exact fun c member => isWhite_of_isSpace (List.all_eq_true.mp done c member)

/-- Blanks before and after a text do not matter for whether it is all white. -/
theorem isAllWhite_skipSpace (cs : List Char) : isAllWhite (skipSpace cs) = isAllWhite cs := by
  have blanks : isAllWhite (cs.takeWhile isSpace) = true :=
    isAllWhite_of_isDone (List.all_eq_true.mpr fun c => List.mem_takeWhile_imp)
  conv_rhs => rw [← List.takeWhile_append_dropWhile (p := isSpace) (l := cs)]
  rw [isAllWhite_append, blanks, Bool.true_and]
  rfl

theorem isAllWhite_dropEndWhile_isSpace (cs : List Char) :
    isAllWhite (dropEndWhile isSpace cs) = isAllWhite cs := by
  obtain ⟨after, same, blank⟩ := exists_append_dropEndWhile isSpace cs
  have blanks : isAllWhite after = true := isAllWhite_of_isDone (List.all_eq_true.mpr blank)
  conv_rhs => rw [same]
  rw [isAllWhite_append, blanks, Bool.and_true]

/-- The last of some blanks is all white as they are. -/
theorem isAllWhite_getLast? (done : isDone rest = true) {c : Char} (last : rest.getLast? = some c) :
    isAllWhite [c] = true ∧ isAllWhite rest = true := by
  have white := isAllWhite_of_isDone done
  refine ⟨?_, white⟩
  rw [isAllWhite, List.all_eq_true]
  intro d only
  rw [List.mem_singleton.mp only]
  exact List.all_eq_true.mp white c (List.mem_of_getLast? last)

/-- An initializer is blank if all of its text is. -/
theorem isAllWhite_initializer? (found : Line.initializer? rest = some text) :
    isAllWhite text = isAllWhite rest := by
  rw [Line.initializer?] at found
  split at found
  · rename_i nothing
    obtain ⟨c, last, rfl⟩ := Option.map_eq_some_iff.mp found
    obtain ⟨one, all⟩ := isAllWhite_getLast? (skipSpace_eq_nil_iff.mp nothing) last
    rw [one, all]
  · cases found
    rw [isAllWhite_dropEndWhile_isSpace, isAllWhite_skipSpace]

/-- The text after the sign of a parameter gives a blank default: white space alone, or white space that
is more than blanks in front of a type clause. -/
def IsBlankDefault (rest : List Char) : Prop :=
  ∃ white clause, rest = white ++ clause ∧ isAllWhite white = true ∧
    (typeClause? clause).isSome = true ∧ (isDone white = true → clause = [])

theorem isAllWhite_default?_iff {token : Option (List Char)} (found : default? rest = some (text, token)) :
    isAllWhite text = true ↔ IsBlankDefault rest := by
  rw [default?] at found
  split at found
  · rename_i nothing
    obtain ⟨c, last, same⟩ := Option.map_eq_some_iff.mp found
    cases same
    obtain ⟨one, all⟩ := isAllWhite_getLast? (skipSpace_eq_nil_iff.mp nothing) last
    exact iff_of_true one ⟨rest, [], by simp, all, rfl, fun _ => rfl⟩
  · rename_i more
    obtain ⟨new, left, same, split, nonempty, clause, shortest⟩ := defaultAndType?_shortest found
    rw [List.reverse_nil, List.nil_append] at same
    subst same
    constructor
    · intro white
      have lead : isAllWhite (rest.takeWhile isSpace) = true :=
        isAllWhite_of_isDone (List.all_eq_true.mpr fun c => List.mem_takeWhile_imp)
      refine ⟨rest.takeWhile isSpace ++ text, left, ?_, ?_, by rw [clause]; rfl, ?_⟩
      · rw [List.append_assoc, ← split]
        exact List.takeWhile_append_dropWhile.symm
      · rw [isAllWhite_append, lead, white]
        rfl
      · -- The default does not start with a blank.
        intro done
        obtain ⟨c, text', rfl⟩ := List.exists_cons_of_ne_nil nonempty
        have first := List.head?_dropWhile_not isSpace rest
        rw [show rest.dropWhile isSpace = c :: (text' ++ left) from split] at first
        rw [isDone, List.all_append, List.all_cons, Bool.and_eq_true, Bool.and_eq_true] at done
        exact absurd (first.symm.trans done.2.1) Bool.false_ne_true
    · rintro ⟨white, clause', parts, allWhite, isClause, whole⟩
      have some : skipSpace white ≠ [] := by
        intro nothing
        have done := skipSpace_eq_nil_iff.mp nothing
        rw [whole done, List.append_nil] at parts
        exact more (parts ▸ nothing)
      have start : skipSpace rest = skipSpace white ++ clause' := by
        rw [parts, skipSpace, List.dropWhile_append, if_neg (by simpa [skipSpace] using some)]
        rfl
      obtain ⟨after, same⟩ := shortest (skipSpace white) clause' start some isClause
      rw [← isAllWhite_skipSpace, ← same, isAllWhite_append, Bool.and_eq_true] at allWhite
      exact allWhite.1

end Blank

namespace Initialized

section Reading

variable {before rest part : List Char} (kind : Initialized)

/-- A part with a sign is read in two. -/
theorem initializer?_append_sign (free : '=' ∉ before) (rest : List Char) :
    kind.initializer? (before ++ '=' :: rest) =
      (kind.lead? before).bind fun _ => (kind.value? rest).map some := by
  cases kind with
  | parameter =>
    rw [initializer?, paramParts?_append_sign free, value?, Option.map_bind]
    simp only [Function.comp_def, Option.map_map]
  | constant =>
    rw [initializer?, constant?_append_sign free, value?, Option.map_bind]
    simp only [Function.comp_def, Option.map_map]
  | enumMember =>
    rw [initializer?, enumMember?_append_sign free, value?, Option.map_bind]
    simp only [Function.comp_def, Option.map_map]

/-- A part without a sign has no initializer. -/
theorem initializer?_of_notMem (free : '=' ∉ part) {value : Option (List Char)}
    (found : kind.initializer? part = some value) : value = none := by
  cases kind with
  | parameter =>
    obtain ⟨parts, recognised, rfl⟩ := Option.map_eq_some_iff.mp found
    exact default_of_paramParts? free recognised
  | constant =>
    obtain ⟨⟨name, value⟩, recognised, -⟩ := Option.map_eq_some_iff.mp found
    exact absurd (sign_mem_of_constant? recognised) free
  | enumMember =>
    obtain ⟨⟨name, value⟩, recognised, rfl⟩ := Option.map_eq_some_iff.mp found
    exact value_of_enumMember? free recognised

/-- Only nothing at all after the sign is refused. -/
theorem value?_eq_none_iff : kind.value? rest = none ↔ rest = [] := by
  cases kind with
  | parameter =>
    rw [value?, Option.map_eq_none_iff, default?]
    split
    · simp
    · rename_i more
      refine iff_of_false (defaultAndType?_ne_none more []) ?_
      rintro rfl
      exact more rfl
  | constant => exact initializer?_eq_none_iff
  | enumMember => exact initializer?_eq_none_iff

/-- The text after the sign gives a blank initializer. -/
def IsBlank : Initialized → List Char → Prop
  | parameter, rest => IsBlankDefault rest
  | constant, rest | enumMember, rest => isAllWhite rest = true

theorem isAllWhite_value?_iff {text : List Char} (found : kind.value? rest = some text) :
    isAllWhite text = true ↔ kind.IsBlank rest := by
  cases kind with
  | parameter =>
    obtain ⟨⟨text', token⟩, default, rfl⟩ := Option.map_eq_some_iff.mp found
    exact isAllWhite_default?_iff default
  | constant => rw [isAllWhite_initializer? found, IsBlank]
  | enumMember => rw [isAllWhite_initializer? found, IsBlank]

/-- White space alone gives a blank initializer. -/
theorem isBlank_of_isAllWhite (white : isAllWhite rest = true) : kind.IsBlank rest := by
  cases kind with
  | parameter => exact ⟨rest, [], by simp, white, rfl, fun _ => rfl⟩
  | constant => exact white
  | enumMember => exact white

end Reading

end Initialized

end Line

end BrightDoc
