import BrightDoc.Proofs.Line.Literals
import BrightDoc.Proofs.Reader.Errors
import BrightDoc.Proofs.Text.Pieces

/-! # Function headers are read back

A header that is written from a name, parameters and a type, each of its own form, is read as just that
name, those parameters and that type, whatever literals the parameters have as defaults. -/

namespace BrightDoc.Written

variable {dialect : Dialect}

open BrightDoc.Line BrightDoc.Text

/-- A name of ASCII letters and digits, with or without a character that designates its type. -/
structure Name where
  first : Char
  rest : List Char
  designator : Option Char := none
  starts : isLetter first = true
  goesOn : rest.all (fun c => isLetter c || c.isDigit) = true
  designates : designator.all isDesignator = true

/-- The name as it is written. -/
def Name.text (n : Name) : List Char :=
  n.first :: n.rest ++ n.designator.toList

/-- The type that the name designates. -/
def Name.type? (n : Name) : Option TypeRef :=
  n.designator.bind TypeRef.ofDesignator?

/-- A token that stands for a type. -/
structure Token where
  first : Char
  rest : List Char
  starts : isCaselessLetter first = true
  goesOn : rest.all isTokenTail = true

/-- The token as it is written. -/
def Token.text (t : Token) : List Char :=
  t.first :: t.rest

/-- The type of the token. -/
def Token.type (t : Token) : TypeRef :=
  .ofToken (String.ofList t.text)

/-- The type clause of a token, if there is one. -/
def asClause : Option Token → List Char
  | some t => " as ".toList ++ t.text
  | none => []

/-- A default on one line that counts as a literal. -/
structure Default where
  text : List Char
  isLiteral : Expression.ofText text = .literal (String.ofList (trim text))
  oneLine : '\n' ∉ text

/-- The literal. -/
def Default.value (d : Default) : Expression :=
  .literal (String.ofList (trim d.text))

/-- A parameter with or without a default and a type. -/
structure Param where
  name : Name
  default : Option Default := none
  type : Option Token := none

/-- The default of a parameter as it is written, if there is one. -/
def initializer : Option Default → List Char
  | some d => " = ".toList ++ d.text
  | none => []

/-- The parameter as it is written. -/
def Param.text (p : Param) : List Char :=
  p.name.text ++ (initializer p.default ++ asClause p.type)

/-- The parameter that is meant. Its type is the written one, else the one its name designates, else the
one its default implies. -/
def Param.meant (p : Param) : BrightDoc.Param :=
  { name := String.ofList p.name.text
    type := (p.type.map Token.type).or (p.name.type?.or (p.default.map (·.value.type)))
    default := p.default.map Default.value }

/-- A function header. -/
structure Function where
  kind : FunctionKind
  name : Name
  params : List Param := []
  returns : Option Token := none

/-- The parameter list of the header as it is written. -/
def Function.list (f : Function) : List Char :=
  ", ".toList.intercalate (f.params.map Param.text)

/-- The header as it is written. -/
def Function.text (f : Function) : List Char :=
  f.kind.block.word.toList ++ ' ' :: (f.name.text ++ '(' :: (f.list ++ ')' :: asClause f.returns))

/-- The function that is meant, at the given place. -/
def Function.meant (f : Function) (placement : Placement) : FunctionDecl :=
  { name := String.ofList f.name.text
    kind := f.kind
    params := f.params.map Param.meant
    returns := (f.returns.map Token.type).or f.name.type?
    placement }

section Names

/-- A letter or digit of a name is one where letter case does not matter. -/
theorem isNameTail_of_plain {c : Char} (plain : (isLetter c || c.isDigit) = true) :
    isNameTail c = true := by
  rcases Bool.or_eq_true_iff.mp plain with letter | digit
  · simp [isNameTail, isCaselessLetter, letter]
  · simp [isNameTail, digit]

/-- A designator is no part of the name before it. -/
theorem isNameTail_of_isDesignator {c : Char} (designator : isDesignator c = true) :
    isNameTail c = false := by
  simp only [isDesignator, Bool.or_eq_true, beq_iff_eq] at designator
  rcases designator with (((rfl | rfl) | rfl) | rfl) | rfl <;> decide

/-- The name is read up to its end. -/
theorem name?_text (n : Name) {after : List Char}
    (apart : ∀ c ∈ after.head?, isNameTail c = false ∧ isDesignator c = false) :
    name? (n.text ++ after) = some (n.first :: n.rest, n.designator.toList ++ after) ∧
      withDesignator (n.first :: n.rest, n.designator.toList ++ after) = (n.text, after) := by
  obtain ⟨first, rest, designator, starts, goesOn, designates⟩ := n
  have stops : ∀ c ∈ (designator.toList ++ after).head?, isNameTail c = false := by
    cases designator with
    | none => exact fun c isFirst => (apart c isFirst).1
    | some d =>
      intro c isFirst
      cases isFirst
      exact isNameTail_of_isDesignator designates
  have tails : ∀ c ∈ rest, isNameTail c = true :=
    fun c member => isNameTail_of_plain (List.all_eq_true.mp goesOn c member)
  have letter : isCaselessLetter first = true := by simp [isCaselessLetter, starts]
  obtain ⟨taken, dropped⟩ := takeWhile_of_head? stops
  refine ⟨?_, ?_⟩
  · show nameOver? isCaselessLetter (first :: (rest ++ designator.toList) ++ after) = _
    rw [List.cons_append, List.append_assoc, nameOver?, if_pos letter]
    show some (first :: (rest ++ (designator.toList ++ after)).takeWhile isNameTail,
      (rest ++ (designator.toList ++ after)).dropWhile isNameTail) = _
    rw [List.takeWhile_append_of_pos tails, List.dropWhile_append_of_pos tails, taken, dropped,
      List.append_nil]
  · cases designator with
    | some d =>
      have designates : isDesignator d = true := designates
      simp [Name.text, withDesignator, designates]
    | none =>
      cases after with
      | nil => simp [Name.text, withDesignator]
      | cons c after => simp [Name.text, withDesignator, (apart c rfl).2]

/-- A name designates a type by its designator only. -/
theorem ofDesignatedName?_text (n : Name) : TypeRef.ofDesignatedName? n.text = n.type? := by
  obtain ⟨first, rest, designator, starts, goesOn, designates⟩ := n
  cases designator with
  | some d =>
    have last : (first :: rest ++ [d]).getLast? = some d := List.getLast?_concat
    simp only [TypeRef.ofDesignatedName?, Name.text, Name.type?, Option.toList_some, last]
  | none =>
    have noType : ∀ c : Char, isNameTail c = true → TypeRef.ofDesignator? c = none := by
      intro c tail
      unfold TypeRef.ofDesignator?
      split <;> first | rfl | exact absurd tail (by decide)
    obtain ⟨c, last⟩ : ∃ c, (first :: rest).getLast? = some c :=
      ⟨_, List.getLast?_eq_some_getLast (by simp)⟩
    have member := List.mem_of_getLast? last
    have tail : isNameTail c = true := by
      rcases List.mem_cons.mp member with rfl | member
      · exact isNameTail_of_plain (Bool.or_eq_true_iff.mpr (Or.inl starts))
      · exact isNameTail_of_plain (List.all_eq_true.mp goesOn c member)
    simp only [TypeRef.ofDesignatedName?, Name.text, Name.type?, Option.toList_none, List.append_nil,
      last, Option.bind_some, noType c tail, Option.bind_none]

end Names

section Params

theorem token?_text (t : Token) : token? t.text = some (t.text, []) := by
  obtain ⟨first, rest, starts, goesOn⟩ := t
  have tails := List.all_eq_true.mp goesOn
  rw [Token.text, token?, if_pos starts, List.takeWhile_eq_self_iff.mpr tails,
    List.dropWhile_eq_nil_iff.mpr tails]

/-- What is written for a type is read as its token. -/
theorem typeClause?_asClause (type : Option Token) :
    typeClause? (asClause type) = some (type.map Token.text) := by
  cases type with
  | none => rfl
  | some t =>
    have notBlank : isSpace t.first = false :=
      isSpace_of_isCodeChar (by simp [isCodeChar, t.starts])
    have spaced : someSpace? (' ' :: t.text) = some t.text := by
      show some (skipSpace (t.first :: t.rest)) = _
      rw [skipSpace, List.dropWhile_cons_of_neg (by simp [notBlank])]
      rfl
    have read : asToken? ('a' :: 's' :: ' ' :: t.text) = some (t.text, []) := by
      show (someSpace? (' ' :: t.text)).bind token? = _
      rw [spaced, Option.bind_some, token?_text]
    show (asToken? ('a' :: 's' :: ' ' :: t.text)).bind (fun found => done? (some found.1) found.2) = _
    rw [read]
    rfl

/-- A blank starts a type clause. -/
theorem head?_asClause (type : Option Token) : ∀ c ∈ (asClause type).head?, c = ' ' := by
  cases type with
  | none => simp [asClause]
  | some t =>
    intro c first
    cases first
    rfl

theorem head?_initializer (default : Option Default) (type : Option Token) :
    ∀ c ∈ (initializer default ++ asClause type).head?, c = ' ' := by
  cases default with
  | none => exact head?_asClause type
  | some d =>
    intro c first
    cases first
    rfl

theorem literal_of_default (d : Default) : (LiteralKind.of? (trim d.text)).isSome = true := by
  have found := d.isLiteral
  rw [Expression.ofText] at found
  split at found
  · assumption
  · cases found

/-- What follows the name of a parameter is read as its default and its type. -/
theorem paramRest?_text (default : Option Default) (type : Option Token) :
    ∃ value, paramRest? (initializer default ++ asClause type) = some (value, type.map Token.text) ∧
      value.map Expression.ofText = default.map Default.value := by
  have clause := typeClause?_asClause type
  cases default with
  | none =>
    refine ⟨none, ?_, rfl⟩
    cases type with
    | none => rfl
    | some t =>
      show (typeClause? ('a' :: 's' :: ' ' :: t.text)).map _ = _
      have same : typeClause? ([' '] ++ 'a' :: 's' :: ' ' :: t.text) = _ :=
        typeClause?_of_blanks (List.forall_mem_singleton.mpr rfl) _
      rw [← same, show [' '] ++ 'a' :: 's' :: ' ' :: t.text = asClause (some t) from rfl, clause]
      rfl
  | some d =>
    obtain ⟨value, read, same⟩ := paramRest?_of_literal (literal_of_default d) clause
      (fun c first => by rw [head?_asClause type c first]; decide)
    refine ⟨some value, read, ?_⟩
    have meant : Expression.ofText value = d.value := by
      rw [Expression.ofText, same, if_pos (literal_of_default d)]
      rfl
    exact congrArg some meant

/-- No blank starts a name. -/
theorem skipSpace_text (n : Name) (after : List Char) :
    skipSpace (n.text ++ after) = n.text ++ after := by
  have notBlank : isSpace n.first = false :=
    isSpace_of_isCodeChar (by simp [isCodeChar, isCaselessLetter, n.starts])
  exact List.dropWhile_cons_of_neg (by simp [notBlank])

/-- A parameter is read as it is meant. -/
theorem ofText?_text (p : Param) : BrightDoc.Param.ofText? p.text = some p.meant := by
  have apart : ∀ c ∈ (initializer p.default ++ asClause p.type).head?,
      isNameTail c = false ∧ isDesignator c = false := by
    intro c first
    rw [head?_initializer p.default p.type c first]
    decide
  obtain ⟨named, designated⟩ := name?_text p.name apart
  obtain ⟨value, rest, meant⟩ := paramRest?_text p.default p.type
  have parts : paramParts? p.text = some
      { name := p.name.text, default := value, typeToken := p.type.map Token.text } := by
    rw [paramParts?, Param.text, skipSpace_text, named]
    simp only [Option.bind_eq_bind, Option.bind_some, designated, rest]
    rfl
  rw [BrightDoc.Param.ofText?, parts]
  simp only [Option.bind_eq_bind, Option.bind_some, meant, ofDesignatedName?_text, Param.meant,
    Option.pure_def]
  cases p.type with
  | none =>
    simp only [Option.map_none, Option.map_map, Option.none_or]
    rfl
  | some t => rfl

end Params

section Texts

theorem name_chars (n : Name) : ∀ c ∈ n.text, isCodeChar c = true := by
  obtain ⟨first, rest, designator, starts, goesOn, designates⟩ := n
  have code : ∀ c : Char, (isLetter c || c.isDigit) = true → isCodeChar c = true := by
    intro c plain
    rcases Bool.or_eq_true_iff.mp plain with letter | digit
    · simp [isCodeChar, isCaselessLetter, letter]
    · simp [isCodeChar, digit]
  rw [Name.text, List.forall_mem_append, List.forall_mem_cons]
  refine ⟨⟨code first (Bool.or_eq_true_iff.mpr (Or.inl starts)),
    fun c member => code c (List.all_eq_true.mp goesOn c member)⟩, ?_⟩
  intro c member
  have found : designator = some c := Option.mem_toList.mp member
  rw [found] at designates
  have mark : isDesignator c = true := designates
  simp only [isDesignator, Bool.or_eq_true, beq_iff_eq] at mark
  rcases mark with (((rfl | rfl) | rfl) | rfl) | rfl <;> decide

theorem token_chars (t : Token) : ∀ c ∈ t.text, isCodeChar c = true := by
  rw [Token.text, List.forall_mem_cons]
  exact ⟨by simp [isCodeChar, t.starts], fun c member =>
    isCodeChar_of_isTokenTail (List.all_eq_true.mp t.goesOn c member)⟩

theorem isWhole_asClause (type : Option Token) : isWhole isListPlain false (asClause type) = true := by
  cases type with
  | none => rfl
  | some t =>
    rw [asClause, isWhole_append _ (by decide)]
    exact isWhole_of_codeChars (token_chars t)

theorem isWhole_initializer (default : Option Default) :
    isWhole isListPlain false (initializer default) = true := by
  cases default with
  | none => rfl
  | some d =>
    rw [initializer, isWhole_append _ (by decide)]
    exact isWhole_of_trim (literal_of_default d)

theorem isWhole_param (p : Param) : isWhole isListPlain false p.text = true := by
  rw [Param.text, isWhole_append _ (isWhole_of_codeChars (name_chars p.name)),
    isWhole_append _ (isWhole_initializer p.default)]
  exact isWhole_asClause p.type

theorem feedless_of_codeChars {cs : List Char} (code : ∀ c ∈ cs, isCodeChar c = true) : '\n' ∉ cs :=
  fun feed => absurd (code '\n' feed) (by decide)

theorem feedless_asClause (type : Option Token) : '\n' ∉ asClause type := by
  cases type with
  | none => simp [asClause]
  | some t =>
    rw [asClause, List.mem_append, not_or]
    exact ⟨by decide, feedless_of_codeChars (token_chars t)⟩

theorem feedless_param (p : Param) : '\n' ∉ p.text := by
  have default : '\n' ∉ initializer p.default := by
    cases p.default with
    | none => simp [initializer]
    | some d =>
      rw [initializer, List.mem_append, not_or]
      exact ⟨by decide, d.oneLine⟩
  rw [Param.text, List.mem_append, List.mem_append, not_or, not_or]
  exact ⟨feedless_of_codeChars (name_chars p.name), default, feedless_asClause p.type⟩

end Texts

section Headers

variable (f : Function)

/-- The header is on one line. -/
theorem feedless_text : '\n' ∉ f.text := by
  have list : '\n' ∉ f.list := by
    intro feed
    rcases mem_intercalate feed with separator | ⟨text, inside, feed⟩
    · exact absurd separator (by decide)
    · obtain ⟨p, -, rfl⟩ := List.mem_map.mp inside
      exact feedless_param p feed
  have word : '\n' ∉ f.kind.block.word.toList := by cases f.kind <;> decide
  simp [Function.text, word, list, feedless_of_codeChars (name_chars f.name),
    feedless_asClause f.returns]

/-- The header has no comment. -/
theorem splitComment_text : splitComment f.text = (f.text, none) := by
  have wider : ∀ c, isListPlain c = true → (c != '\'') = true := by
    intro c plain
    simp only [isListPlain, List.contains_cons, Bool.not_or, Bool.and_eq_true] at plain
    exact plain.1
  have word : isWhole (· != '\'') false f.kind.block.word.toList = true := by cases f.kind <;> decide
  have name : isWhole (· != '\'') false f.name.text = true :=
    isWhole_mono wider (isWhole_of_codeChars (name_chars f.name))
  have list : isWhole (· != '\'') false f.list = true := by
    refine isWhole_intercalate (by decide) ?_
    intro text member
    obtain ⟨p, -, rfl⟩ := List.mem_map.mp member
    exact isWhole_mono wider (isWhole_param p)
  have whole : isWhole (· != '\'') false f.text = true := by
    show isWhole (· != '\'') false (f.kind.block.word.toList ++ ([' '] ++ (f.name.text ++
      (['('] ++ (f.list ++ ([')'] ++ asClause f.returns)))))) = true
    rw [isWhole_append _ word, isWhole_append _ (by decide), isWhole_append _ name,
      isWhole_append _ (by decide), isWhole_append _ list, isWhole_append _ (by decide)]
    exact isWhole_mono wider (isWhole_asClause f.returns)
  exact cutComment_of_isWhole (by decide) whole

/-- Parameters are read with blanks before them. -/
theorem params_of_blank (l : SourceLine) (params : List Param) :
    l.params (params.map fun p => ' ' :: p.text) = .ok (params.map Param.meant) := by
  induction params with
  | nil => rfl
  | cons p more ih =>
    have read : BrightDoc.Param.ofText? (' ' :: p.text) = some p.meant := ofText?_text p
    rw [List.map_cons, SourceLine.params, read, ih]
    rfl

/-- The parameters of the list are those that are meant. -/
theorem params_list (l : SourceLine) :
    l.params (parameterTexts f.list) = .ok (f.params.map Param.meant) := by
  rw [Function.list]
  cases f.params with
  | nil => rfl
  | cons p more =>
    have pieces : parameterTextsFrom 0 false [] (", ".toList.intercalate ((p :: more).map Param.text)) =
        p.text :: more.map fun q => ' ' :: q.text := by
      have texts : ∀ t ∈ p.text :: more.map Param.text, isWhole isListPlain false t = true := by
        rw [List.forall_mem_cons, List.forall_mem_map]
        exact ⟨isWhole_param p, fun q _ => isWhole_param q⟩
      have split := parameterTextsFrom_intercalate texts []
      rw [List.map_map] at split
      exact split
    have notWhite : isAllWhite p.text = false := by
      have first : isWhite p.name.first = false :=
        isWhite_of_isCaselessLetter (by simp [isCaselessLetter, p.name.starts])
      show (isWhite p.name.first && _) = false
      rw [first, Bool.false_and]
    have found : parameterTexts (", ".toList.intercalate ((p :: more).map Param.text)) =
        p.text :: more.map fun q => ' ' :: q.text := by
      rw [parameterTexts, pieces]
      cases more with
      | nil => simp [notWhite]
      | cons next more => rfl
    rw [found, SourceLine.params, ofText?_text, params_of_blank]
    rfl

theorem functionLead?_word (kind : FunctionKind) (rest : List Char) :
    functionLead? (kind.block.word.toList ++ ' ' :: rest) =
      some (⟨none, false, kind⟩, skipSpace rest) := by
  cases kind <;> rfl

/-- The header is read as its kind, its name, its parameter list and its type. -/
theorem functionHeader?_text :
    functionHeader? f.text = some
      { access := none, overrides := false, kind := f.kind, name := f.name.text, params := f.list
        returns := f.returns.map Token.text } := by
  have named : designatedName? (f.name.text ++ '(' :: (f.list ++ ')' :: asClause f.returns)) =
      some (f.name.text, '(' :: (f.list ++ ')' :: asClause f.returns)) := by
    have apart : ∀ c ∈ ('(' :: (f.list ++ ')' :: asClause f.returns)).head?,
        isNameTail c = false ∧ isDesignator c = false := by
      intro c first
      cases first
      decide
    obtain ⟨found, designated⟩ := name?_text f.name apart
    rw [designatedName?, found, Option.map_some, designated]
  have opened : after? "(" (skipSpace ('(' :: (f.list ++ ')' :: asClause f.returns))) =
      some (f.list ++ ')' :: asClause f.returns) := rfl
  have noParenthesis : ')' ∉ asClause f.returns := by
    cases f.returns with
    | none => simp [asClause]
    | some t =>
      rw [asClause, List.mem_append, not_or]
      exact ⟨by decide, fun inside => absurd (token_chars t _ inside) (by decide)⟩
  rw [functionHeader?, Function.text, functionLead?_word]
  simp only [Option.bind_eq_bind, Option.bind_some, skipSpace_text, named, opened,
    cutAtLast?_append noParenthesis, typeClause?_asClause]
  rfl

/-- No carriage return ends the header. -/
theorem returnless_text : ∀ c ∈ f.text.getLast?, c ≠ '\r' := by
  intro c last
  have upToList : f.text = f.kind.block.word.toList ++ ' ' :: (f.name.text ++ '(' :: f.list) ++
      (')' :: asClause f.returns) := by simp [Function.text]
  rw [upToList, List.getLast?_append_of_ne_nil _ (List.cons_ne_nil _ _)] at last
  rcases List.mem_cons.mp (List.mem_of_getLast? last) with rfl | inside
  · decide
  · cases returns : f.returns with
    | none =>
      rw [returns] at inside
      cases inside
    | some t =>
      rw [returns] at inside
      rintro rfl
      rcases List.mem_append.mp inside with lead | token
      · exact absurd lead (by decide)
      · exact absurd (token_chars t _ token) (by decide)

/-- The words before the name tell what the line is not. -/
theorem word_recognised (kind : FunctionKind) (rest : List Char) :
    let line := kind.block.word.toList ++ ' ' :: rest
    isComment line = false ∧ isBlank line = false ∧ annotationName? line = none ∧
      blockEnd? line = none ∧ startColumn line = 0 := by
  cases kind <;> exact ⟨rfl, rfl, rfl, rfl, rfl⟩

/-- The header is the function that is meant, as far as its line tells. -/
theorem function_text (l : SourceLine) :
    l.function
        { access := none, overrides := false, kind := f.kind, name := f.name.text, params := f.list
          returns := f.returns.map Token.text } [] =
      .ok (f.meant { range := l.range }) := by
  rw [SourceLine.function, params_list]
  show Except.ok _ = Except.ok _
  simp only [ofDesignatedName?_text, Option.map_map, Function.meant]
  rfl

/-- At the start of a text the header opens its function. -/
theorem step_text :
    (ReaderState.step dialect {} ⟨0, f.text⟩).result =
      .ok { focus := .functionBody (f.meant { range := SourceLine.range ⟨0, f.text⟩ }) 1 } := by
  obtain ⟨notComment, notBlank, notAnnotation, noEnd, -⟩ := word_recognised f.kind
    (f.name.text ++ '(' :: (f.list ++ ')' :: asClause f.returns))
  have code : SourceLine.code ⟨0, f.text⟩ = f.text := by
    rw [SourceLine.code, splitComment_text]
  have isCode :
      ReaderState.step dialect {} ⟨0, f.text⟩ = ReaderState.statementLine dialect {} ⟨0, f.text⟩ :=
    ReaderState.gather_code (s := {}) (l := ⟨0, f.text⟩) notComment notBlank
      (ReaderState.statementLine dialect)
  rw [isCode, ReaderState.statementLine]
  simp only [code]
  rw [show annotationName? f.text = none from notAnnotation, show blockEnd? f.text = none from noEnd,
    functionHeader?_text]
  dsimp only
  rw [function_text]
  rfl

end Headers

/-- The `end` line closes the function. -/
theorem step_endLine (kind : FunctionKind) (d : FunctionDecl) :
    (ReaderState.step dialect { focus := .functionBody d 1 } ⟨1, endLine kind.block⟩).result =
      .ok { items := [.function (d.endingAt ⟨1, endLine kind.block⟩)] } := by
  have closed : bodyDepth 1 ⟨1, endLine kind.block⟩ = 0 := by cases kind <;> decide
  simp only [ReaderState.step, closed]
  rfl

/-- A function header that is written with the `end` line of its kind below it is read as the one
function that is meant: its kind, its name, its parameters in order, each with the literal that is its
default, and the types that are written, designated or implied. -/
theorem header_read_back (dialect : Dialect) (f : Function) :
    (parse dialect (String.ofList (f.text ++ '\n' :: endLine f.kind.block))).result =
      .ok [.function (f.meant
        { range := ⟨⟨0, 0⟩, ⟨1, (endLine f.kind.block).length⟩⟩, annotations := [] })] := by
  have last : lines (endLine f.kind.block) = [endLine f.kind.block] := by cases f.kind <;> decide
  have read : lines (String.ofList (f.text ++ '\n' :: endLine f.kind.block)).toList =
      [f.text, endLine f.kind.block] := by
    rw [String.toList_ofList, lines_append_feed (feedless_text f) (returnless_text f), last]
  have start : startColumn f.text = 0 := (word_recognised f.kind _).2.2.2.2
  have stop : endColumn (endLine f.kind.block) = (endLine f.kind.block).length := by
    cases f.kind <;> decide
  have placed : (f.meant { range := SourceLine.range ⟨0, f.text⟩ }).endingAt ⟨1, endLine f.kind.block⟩ =
      f.meant { range := ⟨⟨0, 0⟩, ⟨1, (endLine f.kind.block).length⟩⟩, annotations := [] } := by
    simp only [FunctionDecl.endingAt, Function.meant, SourceLine.range, SourceLine.start,
      SourceLine.stop, start, stop]
  rw [parse, read, readLines_result]
  simp only [readFrom, Outcome.andThen, step_text, Nat.zero_add, step_endLine, placed]
  rfl

/-- A string with a comma, a parenthesis, an apostrophe, a doubled quote and an `as` in it, after a name
that designates another type, and a number after two blanks. -/
theorem string_default_read_back :
    (parse .brightScript "function has$(n% = \"a, )'\"\" as b\", x =  1.5#) as Node\nend function").result =
      .ok [.function
        { name := "has$"
          kind := .function
          params := [
            { name := "n%", type := some (.builtin .integer)
              default := some (.literal "\"a, )'\"\" as b\"") },
            { name := "x", type := some (.builtin .double), default := some (.literal "1.5#") }]
          returns := some (.custom "Node")
          placement := { range := ⟨⟨0, 0⟩, ⟨1, 12⟩⟩ } }] := by
  let string : Default :=
    { text := "\"a, )'\"\" as b\"".toList, isLiteral := by decide +kernel, oneLine := by decide }
  let float : Default :=
    { text := " 1.5#".toList, isLiteral := by decide +kernel, oneLine := by decide }
  let written : Function :=
    { kind := .function
      name := ⟨'h', ['a', 's'], some '$', by decide, by decide, by decide⟩
      params := [
        { name := ⟨'n', [], some '%', by decide, by decide, by decide⟩, default := some string },
        { name := ⟨'x', [], none, by decide, by decide, by decide⟩, default := some float }]
      returns := some ⟨'N', ['o', 'd', 'e'], by decide, by decide⟩ }
  have source : String.ofList (written.text ++ '\n' :: endLine written.kind.block) =
      "function has$(n% = \"a, )'\"\" as b\", x =  1.5#) as Node\nend function" := by decide +kernel
  have read := header_read_back .brightScript written
  rw [source] at read
  have meant : written.meant { range := ⟨⟨0, 0⟩, ⟨1, (endLine written.kind.block).length⟩⟩ } =
      { name := "has$"
        kind := .function
        params := [
          { name := "n%", type := some (.builtin .integer)
            default := some (.literal "\"a, )'\"\" as b\"") },
          { name := "x", type := some (.builtin .double), default := some (.literal "1.5#") }]
        returns := some (.custom "Node")
        placement := { range := ⟨⟨0, 0⟩, ⟨1, 12⟩⟩ } } := by decide +kernel
  rw [meant] at read
  exact read

end BrightDoc.Written
