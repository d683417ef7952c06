import BrightDoc.Converter
import BrightDoc.Proofs.Carrier.Moved
import BrightDoc.Proofs.Reader.Layout
import BrightDoc.Proofs.Text.Layout

/-! # Layout does not matter

Blanks before lines and carriage returns at their ends change neither the module that a text names nor
its tree, but for the columns, nor its errors. Columns decide nothing, so a text that is laid out in
another way is converted alike. -/

namespace BrightDoc

variable {dialect : Dialect}

open BrightDoc.Text BrightDoc.Doc
open Position (flat)

section ModuleTag

/-- The name in the module tag that the text starts with. -/
def moduleTag? (cs : List Char) : Option String := do
  let rest ← after? "@module " cs
  match rest.takeWhile fun c => c != '*' && !isSpace c with
  | [] => none
  | name => some (String.ofList name)

theorem namedModule?_eq (source : String) :
    namedModule? source = leftmost? moduleTag? source.toList :=
  rfl

/-- A module tag ends before the blank that follows it. -/
theorem moduleTag?_append {mark : Char} (free : mark ∉ "@module ".toList) (blank : isSpace mark = true)
    (cs rest : List Char) : moduleTag? (cs ++ mark :: rest) = moduleTag? cs := by
  have stops : ∀ name : List Char,
      (name ++ mark :: rest).takeWhile (fun c => c != '*' && !isSpace c) =
        name.takeWhile fun c => c != '*' && !isSpace c := by
    intro name
    rw [List.takeWhile_append, List.takeWhile_cons_of_neg (by simp [blank]), List.append_nil]
    split
    · rename_i whole
      exact ((List.takeWhile_prefix _).eq_of_length whole).symm
    · rfl
  rw [moduleTag?, after?_append free, moduleTag?]
  cases after? "@module " cs with
  | none => rfl
  | some name => simp only [Option.map_some, Option.bind_eq_bind, Option.bind_some, stops]

theorem moduleTag?_cons {c : Char} (other : c ≠ '@') (cs : List Char) : moduleTag? (c :: cs) = none := by
  simp [moduleTag?, after?, List.isPrefixOf?, Ne.symm other]

/-- The module of a text is named by the first of its lines that names one. -/
theorem leftmost?_moduleTag?_intercalate {ending : List Char} (isEnd : IsLineEnd ending)
    (texts : List (List Char)) :
    leftmost? moduleTag? (ending.intercalate texts) = texts.findSome? (leftmost? moduleTag?) := by
  have feed := leftmost?_append (@moduleTag?_append '\n' (by decide) rfl)
  have ret := leftmost?_append (@moduleTag?_append '\r' (by decide) rfl)
  have ended : ∀ line rest : List Char, leftmost? moduleTag? (line ++ (ending ++ rest)) =
      (leftmost? moduleTag? line).or (leftmost? moduleTag? rest) := by
    intro line rest
    rcases isEnd with rfl | rfl
    · exact feed line rest
    · rw [List.cons_append, ret]
      exact congrArg _ (feed [] rest)
  induction texts with
  | nil => rfl
  | cons line more ih =>
    rw [List.findSome?_cons]
    cases more with
    | nil =>
      rw [List.intercalate_singleton]
      cases leftmost? moduleTag? line <;> rfl
    | cons next more =>
      rw [List.intercalate_cons_cons, List.append_assoc, ended, ih]
      cases leftmost? moduleTag? line <;> rfl

/-- A module tag is found after the blanks before a line, and not in them. -/
theorem findSome?_moduleTag?_indented {texts texts' : List (List Char)}
    (indented : List.Forall₂ Indented texts texts') :
    texts'.findSome? (leftmost? moduleTag?) = texts.findSome? (leftmost? moduleTag?) := by
  induction indented with
  | nil => rfl
  | @cons line line' more more' here _ ih =>
    obtain ⟨blanks, blank, rfl⟩ := here
    have refused : ∀ c ∈ blanks, ∀ cs, moduleTag? (c :: cs) = none := by
      intro c member cs
      apply moduleTag?_cons
      rcases blank c member with rfl | rfl <;> decide
    rw [List.findSome?_cons, List.findSome?_cons, leftmost?_append_left refused, ih]

end ModuleTag

namespace Carrier

/-- Columns do not matter for the entries of a tree. -/
theorem plan_eq_of_sameTree (escape : Bool) (scope : Scope) {first second : List Statement}
    (same : SameTree first second) :
    plan escape scope first = plan escape scope second := by
  have flattened : ∀ statements : List Statement,
      plan escape scope (statements.map (Statement.relocate flat)) = plan escape scope statements := by
    intro statements
    rw [plan, filterMap_comment?_relocate Statement.comment?_relocate, ← relocateEach_eq_map,
      planEach_relocate movesLines_flat, plan]
  rw [SameTree] at same
  rw [← flattened first, same, flattened second]

end Carrier

namespace Converter

theorem emit_eq_of_sameTree (c : Converter) (moduleName : String) {first second : List Statement}
    (same : SameTree first second) :
    c.emit moduleName first = c.emit moduleName second := by
  rw [emit, emit, entries, entries, Carrier.plan_eq_of_sameTree _ _ same]

/-- Texts that are read alike are converted alike. -/
theorem convert_eq_of_agrees (c : Converter) (dialect : Dialect) (moduleName : String)
    {first second : String}
    (agrees : (readLines dialect (lines first.toList)).Agrees SameTree
      (readLines dialect (lines second.toList))) :
    c.convert dialect moduleName first = c.convert dialect moduleName second := by
  unfold convert parse
  revert agrees
  generalize readLines dialect (lines first.toList) = read
  generalize readLines dialect (lines second.toList) = read'
  rintro ⟨told, results⟩
  obtain ⟨warnings, result⟩ := read
  obtain ⟨warnings', result'⟩ := read'
  dsimp only at told
  subst told
  match result, result' with
  | .ok a, .ok b =>
    dsimp only at results ⊢
    rw [c.emit_eq_of_sameTree moduleName results]
  | .error e, .error e' =>
    dsimp only at results ⊢
    rw [results]
  | .ok a, .error e => exact absurd results id
  | .error e, .ok b => exact absurd results id

end Converter

theorem reindented_of_indented {line other : List Char} (indented : Indented line other) :
    Line.Reindented other line := by
  obtain ⟨blanks, blank, rfl⟩ := indented
  apply (Line.reindented_append _ line).symm
  intro c member
  rcases blank c member with rfl | rfl <;> decide

/-- A text that is put together of lines is read as these lines. -/
theorem readLines_intercalate (dialect : Dialect) {ending : List Char} (isEnd : IsLineEnd ending)
    {texts : List (List Char)} (nonempty : texts ≠ []) (isLine : ∀ line ∈ texts, IsLine line) :
    readLines dialect (lines (ending.intercalate texts)) = readLines dialect texts := by
  rcases lines_intercalate isEnd nonempty isLine with same | same
  · rw [← same]
  · rw [← readLines_append_nil, ← same]

section Relaid

variable {indent : Nat → List Char} {ending : List Char}

/-- A text that is laid out in another way is read alike. -/
theorem agrees_relaid {cs : List Char} (noReturn : '\r' ∉ cs)
    (blank : ∀ i, ∀ d ∈ indent i, d = ' ' ∨ d = '\t') (isEnd : IsLineEnd ending) :
    (readLines dialect (lines (relaid ending indent cs))).Agrees SameTree
      (readLines dialect (lines cs)) := by
  have nonempty := pieces_ne_nil '\n' cs
  have isLine : ∀ line ∈ pieces '\n' cs, IsLine line := fun _ => isLine_of_mem_pieces noReturn
  have indented := forall₂_indented (pieces '\n' cs) indent blank
  have original : readLines dialect (lines cs) = readLines dialect (pieces '\n' cs) := by
    have joined := readLines_intercalate dialect (Or.inl rfl) nonempty isLine
    rwa [intercalate_pieces] at joined
  rw [original, relaid, readLines_intercalate dialect isEnd (by simpa using nonempty)
    (isLine_of_forall₂_indented indented isLine)]
  exact agrees_readLines (indented.flip.imp fun _ _ => reindented_of_indented)

/-- A text that is laid out in another way names the same module. -/
theorem namedModule?_relaid (source : String) (blank : ∀ i, ∀ d ∈ indent i, d = ' ' ∨ d = '\t')
    (isEnd : IsLineEnd ending) :
    namedModule? (String.ofList (relaid ending indent source.toList)) = namedModule? source := by
  have indented := forall₂_indented (pieces '\n' source.toList) indent blank
  rw [namedModule?_eq, namedModule?_eq, String.toList_ofList, relaid,
    leftmost?_moduleTag?_intercalate isEnd, findSome?_moduleTag?_indented indented,
    ← leftmost?_moduleTag?_intercalate (Or.inl rfl), intercalate_pieces]

end Relaid

/-- Layout does not matter: for every text without carriage returns, every name of its file and every
converter, the text with any spaces and tabs before its lines, and with a carriage return and a line feed
for each line feed or not, is converted with the same result: the same output or the same error, the same
warnings, and the same converter afterwards. -/
theorem layout_changes_nothing (c : Converter) (name source : String) (noReturn : '\r' ∉ source.toList)
    (indent : Nat → List Char) (blank : ∀ i, ∀ d ∈ indent i, d = ' ' ∨ d = '\t')
    (ending : List Char) (isEnd : ending = ['\n'] ∨ ending = ['\r', '\n']) :
    c.convertFile { name, text := String.ofList (relaid ending indent source.toList) } =
      c.convertFile { name, text := source } := by
  have own : SourceFile.ownModule c.options
      { name, text := String.ofList (relaid ending indent source.toList) } =
      SourceFile.ownModule c.options { name, text := source } := by
    simp only [SourceFile.ownModule, namedModule?_relaid source blank isEnd]
  rw [Converter.convertFile, Converter.convertFile, own]
  apply Converter.convert_eq_of_agrees
  rw [String.toList_ofList]
  exact agrees_relaid noReturn blank isEnd

/-- A documented function in a named module, with its lines indented and ended in two characters. -/
theorem indented_function_converted_alike :
    let source := "' @module M\n\n' Says it.\nsub say(x)\nend sub"
    let changed := " \t' @module M\r\n \t\r\n \t' Says it.\r\n \tsub say(x)\r\n \tend sub"
    Converter.convertFile {} { name := "a.bs", text := changed } =
        Converter.convertFile {} { name := "a.bs", text := source } ∧
      (Converter.convertFile {} { name := "a.bs", text := source }).outcome.result = .ok
        ("/**\n * @module M\n */\n/**\n * Says it.\n * @function\n * @param \x7bdynamic\x7d x\n" ++
          " * @memberof! module:M\n * @returns \x7bvoid\x7d\n */\nfunction say (x) \x7b \x7d;\n") := by
  have alike := layout_changes_nothing {} "a.bs" "' @module M\n\n' Says it.\nsub say(x)\nend sub"
    (by decide) (fun _ => [' ', '\t']) (by simp) ['\r', '\n'] (Or.inr rfl)
  exact ⟨alike, by decide +kernel⟩

end BrightDoc
