import BrightDoc.Proofs.Line.Initializers
import BrightDoc.Proofs.Reader.Arrangement
import BrightDoc.Proofs.Reader.Errors

/-! # Initializers in a tree

The initializers of a tree are those written in its lines. Main statement: a tree has a blank one exactly
if one is written so, a sign with nothing at all after it is refused where the reader takes the part that
it is in, and a sign with white space after it is not. -/

namespace BrightDoc

variable {dialect : Dialect}

open BrightDoc.Line (Initialized)
open BrightDoc.Text (isAllWhite)

/-- The text of an initializer is blank. -/
def IsBlankText (text : String) : Prop :=
  isAllWhite text.toList = true

/-- The texts of the initializers in a header. -/
def Header.initializers : Header → List String
  | function signature | method signature _ _ | interfaceMethod signature =>
    signature.params.filterMap fun p => p.default.map Expression.text
  | constDecl _ value => [value.text]
  | enumMember _ value => [value]
  | _ => []

/-- The parts of a line that may be initialized in the header that it is read as. -/
def SourceLine.initializedParts (l : SourceLine) : Header → List (Initialized × List Char)
  | .function _ | .method .. | .interfaceMethod _ =>
    ((Line.functionHeader? l.code).elim [] fun found => Line.parameterTexts found.params).map
      fun text => (.parameter, text)
  | .constDecl .. => [(.constant, l.code)]
  | .enumMember .. => [(.enumMember, l.code)]
  | _ => []

/-- What the part has after its first sign gives a blank initializer. -/
def IsBlankPart (kind : Initialized) (part : List Char) : Prop :=
  ∃ before rest, part = before ++ '=' :: rest ∧ '=' ∉ before ∧ kind.IsBlank rest

section Blank

variable {kind : Initialized} {part : List Char}

/-- The initializer of a part is blank if it is written so. -/
theorem isAllWhite_initializer?_iff {value : Option (List Char)}
    (found : kind.initializer? part = some value) :
    (∃ text ∈ value, isAllWhite text = true) ↔ IsBlankPart kind part := by
  have read : ∀ {before rest : List Char}, part = before ++ '=' :: rest → '=' ∉ before →
      ∃ text, value = some text ∧ (isAllWhite text = true ↔ kind.IsBlank rest) := by
    intro before rest split free
    rw [split, kind.initializer?_append_sign free rest] at found
    obtain ⟨name, -, found⟩ := Option.bind_eq_some_iff.mp found
    obtain ⟨text, written, rfl⟩ := Option.map_eq_some_iff.mp found
    exact ⟨text, rfl, kind.isAllWhite_value?_iff written⟩
  constructor
  · rintro ⟨text, isValue, white⟩
    have sign : '=' ∈ part := by
      by_contra free
      cases kind.initializer?_of_notMem free found ▸ isValue
    obtain ⟨before, rest, split, free⟩ := List.eq_append_cons_of_mem sign
    obtain ⟨text', same, blank⟩ := read split free
    cases same.symm.trans isValue
    exact ⟨before, rest, split, free, blank.mp white⟩
  · rintro ⟨before, rest, split, free, isBlank⟩
    obtain ⟨text, same, blank⟩ := read split free
    exact ⟨text, same, blank.mpr isBlank⟩

theorem isBlankText_ofText (cs : List Char) :
    IsBlankText (Expression.ofText cs).text ↔ isAllWhite cs = true := by
  have text : (Expression.ofText cs).text.toList = Text.trim cs := by
    rw [Expression.ofText]
    split <;> rw [Expression.text, String.toList_ofList]
  rw [IsBlankText, text]
  obtain ⟨before, after, parts, whiteBefore, whiteAfter⟩ := Text.exists_trim cs
  have first : isAllWhite before = true := List.all_eq_true.mpr whiteBefore
  have last : isAllWhite after = true := List.all_eq_true.mpr whiteAfter
  conv_rhs => rw [parts]
  rw [Line.isAllWhite_append, Line.isAllWhite_append, first, last, Bool.true_and, Bool.and_true]

theorem blank_default_of_ofText? {p : Param} (found : Param.ofText? part = some p) :
    (∃ value ∈ p.default, IsBlankText value.text) ↔ IsBlankPart .parameter part := by
  simp only [Param.ofText?, Option.bind_eq_bind, Option.bind_eq_some_iff, Option.pure_def,
    Option.some.injEq] at found
  obtain ⟨parts, recognised, rfl⟩ := found
  have initializer : Initialized.parameter.initializer? part = some parts.default := by
    rw [Initialized.initializer?, recognised, Option.map_some]
  rw [← isAllWhite_initializer?_iff initializer]
  cases parts.default with
  | none => simp
  | some text => simp [isBlankText_ofText]

/-- The parameters with blank defaults are those that are written so. -/
theorem blank_default_iff {l : SourceLine} {texts : List (List Char)} {params : List Param}
    (built : l.params texts = .ok params) :
    (∃ p ∈ params, ∃ value ∈ p.default, IsBlankText value.text) ↔
      ∃ text ∈ texts, IsBlankPart .parameter text := by
  induction texts generalizing params with
  | nil =>
    cases built
    simp
  | cons text more ih =>
    rw [SourceLine.params] at built
    split at built
    · rename_i param found
      cases rest : l.params more with
      | error e =>
        rw [rest] at built
        cases built
      | ok others =>
        rw [rest] at built
        cases built
        simp only [List.exists_mem_cons_iff, ih rest, blank_default_of_ofText? found]
    · cases built

/-- The parts of a function header that may be initialized are its parameters. -/
theorem initializedParts_function {l : SourceLine} {found : Line.FunctionHeader}
    (recognised : Line.functionHeader? l.code = some found) (signature : Signature) :
    l.initializedParts (.function signature) =
      (Line.parameterTexts found.params).map fun text => (.parameter, text) := by
  rw [SourceLine.initializedParts, recognised, Option.elim_some]

theorem blank_initializer_of_function {l : SourceLine} {found : Line.FunctionHeader}
    {annotations : List Annotation} {f : FunctionDecl}
    (recognised : Line.functionHeader? l.code = some found)
    (built : l.function found annotations = .ok f) :
    (∃ text ∈ (Header.function f.signature).initializers, IsBlankText text) ↔
      ∃ part ∈ l.initializedParts (.function f.signature), IsBlankPart part.1 part.2 := by
  rw [SourceLine.function] at built
  cases list : l.params (Line.parameterTexts found.params) with
  | error e =>
    rw [list] at built
    cases built
  | ok params =>
    rw [list] at built
    cases built
    rw [initializedParts_function recognised]
    constructor
    · rintro ⟨text, member, blank⟩
      obtain ⟨p, inside, same⟩ := List.mem_filterMap.mp member
      obtain ⟨value, isDefault, rfl⟩ := Option.map_eq_some_iff.mp same
      obtain ⟨part, isPart, isBlank⟩ :=
        (blank_default_iff list).mp ⟨p, inside, value, isDefault, blank⟩
      exact ⟨(.parameter, part), List.mem_map_of_mem isPart, isBlank⟩
    · rintro ⟨found, member, isBlank⟩
      obtain ⟨part, isPart, rfl⟩ := List.mem_map.mp member
      obtain ⟨p, inside, value, isDefault, blank⟩ :=
        (blank_default_iff list).mpr ⟨part, isPart, isBlank⟩
      exact ⟨value.text, List.mem_filterMap.mpr
        ⟨p, inside, Option.map_eq_some_iff.mpr ⟨value, isDefault, rfl⟩⟩, blank⟩

/-- A counted value is not blank, nor is the one that is left open. -/
theorem not_isBlankText_assign (next : Option Int) :
    ¬ IsBlankText (EnumValue.assign none next).value := by
  have first : ∀ {c : Char} {cs : List Char}, Text.isWhite c = false → isAllWhite (c :: cs) ≠ true := by
    intro c cs inked
    rw [isAllWhite, List.all_cons, inked]
    exact Bool.false_ne_true
  cases next with
  | none =>
    rw [IsBlankText]
    decide
  | some number =>
    rw [IsBlankText, EnumValue.assign]
    dsimp only
    rw [Int.toString_eq_repr, Int.repr_eq_if]
    split
    · rw [Nat.toList_repr]
      obtain ⟨c, cs, found⟩ :=
        List.exists_cons_of_ne_nil (Nat.toDigits_ne_nil (n := number.toNat) (b := 10))
      have digit : c.isDigit = true :=
        Nat.isDigit_of_mem_toDigits (by decide) (by decide) (found ▸ List.mem_cons_self)
      rw [found]
      exact first (Line.isCodeChar_apart (Line.isNumberChar_apart
        (Line.isNumberChar_of_isDigit digit)).1).1
    · rw [String.toList_append]
      exact first (c := '-') (by decide)

/-- The initializers of a header are blank where they are written so. -/
theorem Reads.blank_initializer_iff {l : SourceLine} {header : Header} (reads : Reads l header) :
    (∃ text ∈ header.initializers, IsBlankText text) ↔
      ∃ part ∈ l.initializedParts header, IsBlankPart part.1 part.2 := by
  cases reads with
  | function recognised built => exact blank_initializer_of_function recognised built
  | method recognised built => exact blank_initializer_of_function recognised built
  | interfaceMethod recognised built => exact blank_initializer_of_function recognised built
  | classDecl _ | interfaceDecl _ | enumDecl _ | namespaceDecl _ | field _ | interfaceField _ =>
    simp [Header.initializers, SourceLine.initializedParts]
  | @constDecl name value recognised =>
    have initializer : Initialized.constant.initializer? l.code = some (some value) := by
      rw [Initialized.initializer?, recognised, Option.map_some]
    have blank := isAllWhite_initializer?_iff initializer
    simp only [Option.mem_def, Option.some.injEq, exists_eq_left'] at blank
    simp only [Header.initializers, SourceLine.initializedParts, List.mem_singleton, exists_eq_left,
      isBlankText_ofText, blank]
  | @enumMember name written next recognised =>
    have initializer : Initialized.enumMember.initializer? l.code = some written := by
      rw [Initialized.initializer?, recognised, Option.map_some]
    have blank := isAllWhite_initializer?_iff initializer
    simp only [Header.initializers, SourceLine.initializedParts, List.mem_singleton, exists_eq_left,
      ← blank]
    cases written with
    | none => simpa using not_isBlankText_assign next
    | some text => simp [EnumValue.assign, IsBlankText]

end Blank

/-- The blocks in which a function header is read. -/
def Focus.takesFunctions : Focus → Bool
  | statements | classBody _ | interfaceBody _ => true
  | _ => false

/-- `s.Takes l kind part later`: the reader takes a part of the line `l`, or all its code, as a part of
the given kind, and the parts in `later` after it. -/
inductive ReaderState.Takes (s : ReaderState) (l : SourceLine) :
    Initialized → List Char → List (List Char) → Prop where
  | constant (atStatements : s.focus = .statements) (noMark : Line.annotationName? l.text = none)
      (noEnd : Line.blockEnd? l.code = none) (noFunction : Line.functionHeader? l.code = none)
      (notStarted : Line.startsFunction l.code = false)
      (word : Line.declarationWord? l.code = some "const".toList) : Takes s l .constant l.code []
  | enumMember {b : OpenBlock EnumItem} {next : Option Int} (inEnum : s.focus = .enumBody b next)
      (noEnd : Line.blockEnd? l.code = none) : Takes s l .enumMember l.code []
  | parameter {header : Line.FunctionHeader} {earlier later : List (List Char)} {part : List Char}
      (inList : s.focus.takesFunctions = true) (noMark : Line.annotationName? l.text = none)
      (noEnd : Line.blockEnd? l.code = none) (recognised : Line.functionHeader? l.code = some header)
      (parts : Line.parameterTexts header.params = earlier ++ part :: later)
      (accepted : ∀ text ∈ earlier, (Initialized.parameter.initializer? text).isSome = true) :
      Takes s l .parameter part later

namespace ReaderState

variable {s : ReaderState} {l : SourceLine} {kind : Initialized} {part : List Char}
  {later : List (List Char)}

theorem isSome_ofText?_iff (text : List Char) :
    (Param.ofText? text).isSome = (Initialized.parameter.initializer? text).isSome := by
  rw [Initialized.initializer?, Param.ofText?, Option.bind_eq_bind]
  cases Line.paramParts? text <;> rfl

theorem params_of_accepted {earlier : List (List Char)} (rest : List (List Char))
    (accepted : ∀ text ∈ earlier, (Initialized.parameter.initializer? text).isSome = true) :
    ∃ params, l.params (earlier ++ rest) = (l.params rest).map (params ++ ·) := by
  induction earlier with
  | nil =>
    refine ⟨[], ?_⟩
    rw [List.nil_append]
    cases l.params rest <;> rfl
  | cons text more ih =>
    rw [List.forall_mem_cons, ← isSome_ofText?_iff] at accepted
    obtain ⟨param, found⟩ := Option.isSome_iff_exists.mp accepted.1
    obtain ⟨params, read⟩ := ih accepted.2
    refine ⟨param :: params, ?_⟩
    rw [List.cons_append, SourceLine.params, found, read]
    cases l.params rest <;> rfl

theorem step_of_statements (atStatements : s.focus = .statements)
    (notComment : Line.isComment l.text = false) (notBlank : Line.isBlank l.text = false) :
    s.step dialect l = s.closeRun.statementLine dialect l := by
  obtain ⟨frames, items, focus, run, pending⟩ := s
  subst atStatements
  rw [step, gather_code notComment notBlank]
  cases run <;> rfl

theorem step_of_enum {b : OpenBlock EnumItem} {next : Option Int} (inEnum : s.focus = .enumBody b next)
    (notComment : Line.isComment l.text = false) (notBlank : Line.isBlank l.text = false) :
    ∃ b', s.step dialect l = s.closeRun.enumLine b' next l := by
  obtain ⟨frames, items, focus, run, pending⟩ := s
  subst inEnum
  rw [step, gather_code notComment notBlank]
  cases run <;> exact ⟨_, rfl⟩

theorem step_of_class {b : OpenBlock ClassItem} (inClass : s.focus = .classBody b)
    (notComment : Line.isComment l.text = false) (notBlank : Line.isBlank l.text = false) :
    ∃ b', s.step dialect l = s.closeRun.classLine dialect b' l := by
  obtain ⟨frames, items, focus, run, pending⟩ := s
  subst inClass
  rw [step, gather_code notComment notBlank]
  cases run <;> exact ⟨_, rfl⟩

theorem step_of_interface {b : OpenBlock InterfaceItem} (inInterface : s.focus = .interfaceBody b)
    (notComment : Line.isComment l.text = false) (notBlank : Line.isBlank l.text = false) :
    ∃ b', s.step dialect l = s.closeRun.interfaceLine dialect b' l := by
  obtain ⟨frames, items, focus, run, pending⟩ := s
  subst inInterface
  rw [step, gather_code notComment notBlank]
  cases run <;> exact ⟨_, rfl⟩

/-- The line of a function header is read by its parameters. -/
theorem step_of_function {header : Line.FunctionHeader} (inList : s.focus.takesFunctions = true)
    (notComment : Line.isComment l.text = false) (notBlank : Line.isBlank l.text = false)
    (noMark : Line.annotationName? l.text = none) (noEnd : Line.blockEnd? l.code = none)
    (recognised : Line.functionHeader? l.code = some header) :
    (∀ e, l.function header s.closeRun.pending = .error e → (s.step dialect l).result = .error e) ∧
    ∀ f, l.function header s.closeRun.pending = .ok f →
      ∃ t read, (s.step dialect l).result = .ok t ∧ Reads l read ∧
        l.initializedParts read =
          (Line.parameterTexts header.params).map fun text => (.parameter, text) := by
  cases focus : s.focus with
  | statements =>
    rw [step_of_statements focus notComment notBlank]
    simp only [statementLine, noMark, noEnd, recognised]
    refine ⟨?_, ?_⟩
    · intro e failed
      rw [failed]
      rfl
    · intro f built
      rw [built]
      exact ⟨_, .function f.signature, rfl, .function recognised built,
        initializedParts_function recognised f.signature⟩
  | classBody b =>
    obtain ⟨b', stepped⟩ := step_of_class focus notComment notBlank
    rw [stepped]
    simp only [classLine, noMark, noEnd, recognised]
    refine ⟨?_, ?_⟩
    · intro e failed
      rw [failed]
      rfl
    · intro f built
      rw [built]
      exact ⟨_, .method f.signature header.access header.overrides, rfl, .method recognised built,
        initializedParts_function recognised f.signature⟩
  | interfaceBody b =>
    obtain ⟨b', stepped⟩ := step_of_interface focus notComment notBlank
    rw [stepped]
    simp only [interfaceLine, noMark, noEnd, recognised]
    refine ⟨?_, ?_⟩
    · intro e failed
      rw [failed]
      rfl
    · intro f built
      rw [built]
      exact ⟨_, .interfaceMethod f.signature, rfl, .interfaceMethod recognised built,
        initializedParts_function recognised f.signature⟩
  | enumBody b next =>
    rw [focus] at inList
    cases inList
  | functionBody f depth =>
    rw [focus] at inList
    cases inList
  | methodBody b m depth =>
    rw [focus] at inList
    cases inList

/-- A part that is refused ends the reading. -/
theorem Takes.step_of_refused (takes : s.Takes l kind part later)
    (notComment : Line.isComment l.text = false) (notBlank : Line.isBlank l.text = false)
    (refused : kind.initializer? part = none) :
    (s.step dialect l).result = .error (l.malformed kind.construct part) := by
  cases takes with
  | constant atStatements noMark noEnd noFunction notStarted word =>
    have header : Line.constant? l.code = none := Option.map_eq_none_iff.mp refused
    rw [step_of_statements atStatements notComment notBlank]
    simp only [statementLine, noMark, noEnd, noFunction, notStarted, word, Bool.false_eq_true,
      if_false, Outcome.feature_result, declare, header]
    rfl
  | enumMember inEnum noEnd =>
    have header : Line.enumMember? l.code = none := Option.map_eq_none_iff.mp refused
    obtain ⟨b', stepped⟩ := step_of_enum inEnum notComment notBlank
    rw [stepped]
    simp only [enumLine, noEnd, header]
    rfl
  | @parameter header earlier later part inList noMark noEnd recognised parts accepted =>
    apply (step_of_function inList notComment notBlank noMark noEnd recognised).1
    obtain ⟨params, read⟩ := params_of_accepted (l := l) (part :: later) accepted
    have none : Param.ofText? part = none := by
      rw [← Option.not_isSome_iff_eq_none, isSome_ofText?_iff, refused]
      decide
    rw [SourceLine.function, parts, read, SourceLine.params, none]
    rfl

/-- A part that is accepted is read in the header of its line, if the later ones are. -/
theorem Takes.step_of_accepted (takes : s.Takes l kind part later)
    (notComment : Line.isComment l.text = false) (notBlank : Line.isBlank l.text = false)
    (accepted : ∀ text ∈ part :: later, (kind.initializer? text).isSome = true) :
    ∃ t header, (s.step dialect l).result = .ok t ∧ Reads l header ∧
      (kind, part) ∈ l.initializedParts header := by
  have here := accepted part List.mem_cons_self
  cases takes with
  | constant atStatements noMark noEnd noFunction notStarted word =>
    rw [Initialized.initializer?, Option.isSome_map] at here
    obtain ⟨⟨name, value⟩, header⟩ := Option.isSome_iff_exists.mp here
    rw [step_of_statements atStatements notComment notBlank]
    simp only [statementLine, noMark, noEnd, noFunction, notStarted, word, Bool.false_eq_true,
      if_false, Outcome.feature_result, declare, header]
    exact ⟨_, .constDecl (String.ofList name) (.ofText value), rfl, .constDecl header,
      List.mem_cons_self⟩
  | @enumMember b next inEnum noEnd =>
    rw [Initialized.initializer?, Option.isSome_map] at here
    obtain ⟨⟨name, written⟩, header⟩ := Option.isSome_iff_exists.mp here
    obtain ⟨b', stepped⟩ := step_of_enum inEnum notComment notBlank
    rw [stepped]
    simp only [enumLine, noEnd, header]
    have reads : Reads l (.enumMember (String.ofList name) (EnumValue.assign written next).value) :=
      .enumMember header
    split
    · exact ⟨_, _, rfl, reads, List.mem_cons_self⟩
    · exact ⟨_, _, rfl, reads, List.mem_cons_self⟩
  | @parameter header earlier later part inList noMark noEnd recognised parts before =>
    have all : ∀ text ∈ Line.parameterTexts header.params,
        (Initialized.parameter.initializer? text).isSome = true := by
      rw [parts]
      exact List.forall_mem_append.mpr ⟨before, accepted⟩
    obtain ⟨params, read⟩ := params_of_accepted (l := l) [] all
    rw [List.append_nil] at read
    obtain ⟨t, found, stepped, reads, same⟩ :=
      (step_of_function inList notComment notBlank noMark noEnd recognised).2 _ (by
        rw [SourceLine.function, read]
        rfl)
    refine ⟨t, found, stepped, reads, ?_⟩
    rw [same, parts]
    exact List.mem_map_of_mem (List.mem_append_right _ List.mem_cons_self)

end ReaderState

/-- A line that is refused ends the reading of a text, whatever follows it. -/
theorem readLines_of_refused {above : List (List Char)} {text : List Char} {s : ReaderState}
    {e : ParseError} (read : (readFrom dialect 0 {} above).result = .ok s)
    (failed : (s.step dialect ⟨above.length, text⟩).result = .error e) (below : List (List Char)) :
    (readLines dialect (above ++ text :: below)).result = .error e := by
  have stopped : (readFrom dialect 0 {} (above ++ text :: below)).result = .error e := by
    rw [readFrom_ok_append read, Nat.zero_add, readFrom, Outcome.andThen, failed]
  rw [readLines_result, stopped]

/-- The initializers of a tree are blank where they are written so. -/
theorem blank_initializers_of_parse {dialect : Dialect} {source : String} {statements : List Statement}
    (parsed : (parse dialect source).result = .ok statements) :
    (∀ found ∈ declarationsOf (outlines statements), ∀ text ∈ found.1.initializers,
        ¬ IsBlankText text) ↔
      ∀ found ∈ declarationsOf (outlines statements), ∀ text,
        (Text.lines source.toList)[found.2.range.start.line]? = some text →
        ∀ part ∈ SourceLine.initializedParts ⟨found.2.range.start.line, text⟩ found.1,
          ¬ IsBlankPart part.1 part.2 := by
  have declared : ∀ found ∈ declarationsOf (outlines statements), ∃ text,
      (Text.lines source.toList)[found.2.range.start.line]? = some text ∧
        Reads ⟨found.2.range.start.line, text⟩ found.1 := by
    intro found inside
    obtain ⟨text, here, -, reads⟩ := ((outlined_of_parse parsed).declared inside).read
    exact ⟨text, here, reads⟩
  constructor
  · intro noBlank found inside text here part isPart isBlank
    obtain ⟨text', here', reads⟩ := declared found inside
    cases here'.symm.trans here
    obtain ⟨value, isValue, blank⟩ := reads.blank_initializer_iff.mpr ⟨part, isPart, isBlank⟩
    exact noBlank found inside value isValue blank
  · intro noBlank found inside value isValue blank
    obtain ⟨text, here, reads⟩ := declared found inside
    obtain ⟨part, isPart, isBlank⟩ := reads.blank_initializer_iff.mp ⟨value, isValue, blank⟩
    exact noBlank found inside text here part isPart isBlank

section Sign

variable {kind : Initialized} {before rest : List Char} (free : '=' ∉ before)

include free

/-- A part is refused if nothing follows its sign, or what is before the sign is no name. -/
theorem initializer?_of_missing (missing : rest = [] ∨ kind.lead? before = none) :
    kind.initializer? (before ++ '=' :: rest) = none := by
  rw [kind.initializer?_append_sign free]
  rcases missing with nothing | noLead
  · rw [kind.value?_eq_none_iff.mpr nothing]
    cases kind.lead? before <;> rfl
  · rw [noLead]
    rfl

/-- A part is accepted if a name is before its sign and anything follows it. -/
theorem isSome_initializer?_of_lead (nonempty : rest ≠ []) (lead : (kind.lead? before).isSome = true) :
    (kind.initializer? (before ++ '=' :: rest)).isSome = true := by
  obtain ⟨name, leads⟩ := Option.isSome_iff_exists.mp lead
  obtain ⟨value, written⟩ := Option.ne_none_iff_exists'.mp
    (fun nothing => nonempty (kind.value?_eq_none_iff.mp nothing))
  rw [kind.initializer?_append_sign free, leads, Option.bind_some, written]
  rfl

end Sign

/-- Initializers can be blank, but not missing. A tree has no blank initializer exactly if none is
written on its lines, where white space alone after the sign, or in front of the type of a parameter, is
written blank. A part of a line that the reader takes is refused as malformed if nothing at all follows
its sign, whatever is written after the line; with white space after the sign it is refused only if what
is before the sign is no name, and else is read with a blank initializer. -/
theorem blank_initializer_iff_written (dialect : Dialect) (source : String) :
    (∀ statements, (parse dialect source).result = .ok statements →
      ((∀ found ∈ declarationsOf (outlines statements), ∀ text ∈ found.1.initializers,
          ¬ IsBlankText text) ↔
        ∀ found ∈ declarationsOf (outlines statements), ∀ text,
          (Text.lines source.toList)[found.2.range.start.line]? = some text →
          ∀ part ∈ SourceLine.initializedParts ⟨found.2.range.start.line, text⟩ found.1,
            ¬ IsBlankPart part.1 part.2)) ∧
    ∀ above text below s kind part later before white,
      Text.lines source.toList = above ++ text :: below → (readFrom dialect 0 {} above).result = .ok s →
      Line.isComment text = false → Line.isBlank text = false →
      s.Takes ⟨above.length, text⟩ kind part later →
      part = before ++ '=' :: white → '=' ∉ before → isAllWhite white = true →
      (white = [] ∨ kind.lead? before = none →
        (parse dialect source).result =
          .error (SourceLine.malformed ⟨above.length, text⟩ kind.construct part)) ∧
      (white ≠ [] → (kind.lead? before).isSome = true →
        (∀ other ∈ later, (kind.initializer? other).isSome = true) →
        ∃ t header, (s.step dialect ⟨above.length, text⟩).result = .ok t ∧
          Reads ⟨above.length, text⟩ header ∧ ∃ text ∈ header.initializers, IsBlankText text) := by
  refine ⟨fun statements parsed => blank_initializers_of_parse parsed, ?_⟩
  intro above text below s kind part later before white split read notComment notBlank takes parts
    free allWhite
  refine ⟨?_, ?_⟩
  · intro missing
    have refused := initializer?_of_missing free missing
    rw [← parts] at refused
    have failed := readLines_of_refused read (takes.step_of_refused notComment notBlank refused) below
    rw [← split] at failed
    exact failed
  · intro nonempty lead accepted
    have here := isSome_initializer?_of_lead free nonempty lead
    rw [← parts] at here
    obtain ⟨t, header, stepped, reads, inside⟩ := takes.step_of_accepted notComment notBlank
      (List.forall_mem_cons.mpr ⟨here, accepted⟩)
    refine ⟨t, header, stepped, reads, reads.blank_initializer_iff.mpr ⟨_, inside, ?_⟩⟩
    exact ⟨before, white, parts, free, kind.isBlank_of_isAllWhite allWhite⟩

/-- A default with a blank after its sign, in front of another parameter, is in the tree; without the
blank the parameter is refused. -/
theorem blank_default_read_and_missing_refused :
    let f : FunctionDecl :=
      { name := "f", kind := .sub
        params := [{ name := "a", type := some (.builtin .uninitialized), default := some (.other "") },
          { name := "b" }]
        placement := { range := ⟨⟨0, 0⟩, ⟨1, 7⟩⟩ } }
    (parse .brightScript "sub f(a = , b)\nend sub").result = .ok [.function f] ∧
    (¬ ∀ found ∈ declarationsOf (outlines [.function f]), ∀ text ∈ found.1.initializers,
      ¬ IsBlankText text) ∧
    (parse .brightScript "sub f(a =, b)\nend sub").result = .error (.malformed .parameter 1 "a =") := by
  intro f
  have parsed : (parse .brightScript "sub f(a = , b)\nend sub").result = .ok [.function f] := by
    with_unfolding_all rfl
  refine ⟨parsed, ?_, ?_⟩
  · rw [(blank_initializer_iff_written .brightScript _).1 _ parsed]
    intro noBlank
    refine noBlank (.function f.signature, f.placement) (List.mem_of_getElem? (i := 0) rfl)
      "sub f(a = , b)".toList (by decide) (.parameter, "a = ".toList) (by decide +kernel) ?_
    exact ⟨"a ".toList, [' '], by decide, by decide, [' '], [], by decide, by decide, by decide,
      fun _ => rfl⟩
  · have takes : ReaderState.Takes {} ⟨0, "sub f(a =, b)".toList⟩ .parameter "a =".toList
        [" b".toList] :=
      @ReaderState.Takes.parameter {} ⟨0, "sub f(a =, b)".toList⟩ _ [] [" b".toList] "a =".toList rfl
        (by decide) (by decide) rfl (by decide) (by simp)
    exact ((blank_initializer_iff_written .brightScript "sub f(a =, b)\nend sub").2 []
      "sub f(a =, b)".toList ["end sub".toList] {} .parameter "a =".toList [" b".toList] "a ".toList []
      (by decide) rfl (by decide) (by decide) takes (by decide) (by decide) rfl).1 (Or.inl rfl)

/-- A constant with white space after its sign is read, and its value is blank. -/
theorem blank_constant_read :
    let value : Expression := .other ""
    (parse .brighterScript "const A = ").result = .ok [.constDecl
        { name := "A", value, placement := { range := ⟨⟨0, 0⟩, ⟨0, 9⟩⟩ } }] ∧
      IsBlankText value.text := by
  refine ⟨by rfl, ?_⟩
  rw [IsBlankText]
  decide

end BrightDoc
