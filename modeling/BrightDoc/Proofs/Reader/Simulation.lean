import BrightDoc.Proofs.Reader.Sketch

/-! # The reader makes moves

The sketch of a reader state, and the proof that every line the reader takes is a move of the sketch.
`sketch_of_read` carries what each move preserves to whole texts. -/

namespace BrightDoc

variable {dialect : Dialect}

/-- The first line of an open namespace. -/
def NamespaceFrame.head (f : NamespaceFrame) : Head :=
  { header := .namespaceDecl f.name, start := f.start, annotations := f.annotations }

/-- The lists of siblings around the innermost list of statements. -/
def outerLevels : List NamespaceFrame → List Level
  | [] => []
  | f :: outer =>
    ⟨outer.head?.map NamespaceFrame.head, f.before.map Statement.outline⟩ :: outerLevels outer

/-- The body of an open block, with what its first line says. -/
def OpenBlock.level {Item : Type} (b : OpenBlock Item) (header : Header)
    (outline : Item → Outline) : Level :=
  ⟨some { header, start := b.start, annotations := b.annotations }, b.body.map outline⟩

/-- The body of code of an open function, which holds no nodes. -/
def FunctionDecl.level (f : FunctionDecl) (header : Header) : Level :=
  ⟨some { header, start := f.placement.range.start, annotations := f.placement.annotations }, []⟩

namespace ReaderState

/-- The innermost list of statements. -/
def statementLevel (s : ReaderState) : Level :=
  ⟨s.frames.head?.map NamespaceFrame.head, s.items.map Statement.outline⟩

/-- The open lists of siblings, innermost first. -/
def levels (s : ReaderState) : List Level :=
  (match s.focus with
    | .statements => []
    | .functionBody f _ => [f.level (.function f.signature)]
    | .classBody b => [b.level (.classDecl b.name b.parent) ClassItem.outline]
    | .methodBody b m _ =>
      [m.function.level (.method m.function.signature m.access m.overrides),
        b.level (.classDecl b.name b.parent) ClassItem.outline]
    | .interfaceBody b => [b.level (.interfaceDecl b.name b.parent) InterfaceItem.outline]
    | .enumBody b _ => [b.level (.enumDecl b.name) EnumItem.outline]) ++
  s.statementLevel :: outerLevels s.frames

/-- The outline that has been read. -/
def sketch (s : ReaderState) : Sketch :=
  ⟨s.levels, s.run, s.pending⟩

theorem sketch_addComment (s : ReaderState) (l : SourceLine) :
    (s.addComment l).sketch = s.sketch.addComment l := by
  obtain ⟨frames, items, focus, run, pending⟩ := s
  cases run <;> rfl

/-- The reader's own making of a comment, outside bodies of code, is that of its sketch. -/
theorem sketch_closeRun (s : ReaderState) (outside : s.sketch.inCode = false) :
    s.closeRun.sketch = s.sketch.closeRun := by
  obtain ⟨frames, items, focus, run, pending⟩ := s
  cases run with
  | none => rfl
  | some c =>
    cases focus with
    | functionBody f depth => cases outside
    | methodBody b m depth => cases outside
    | _ => rfl

end ReaderState

/-- What holds of an outcome for a line: its state satisfies `P`, or its error is about this line and
does not say that a block is open. -/
def Handled (l : SourceLine) (P : ReaderState → Prop) (outcome : Outcome ReaderState) : Prop :=
  match outcome.result with
  | .ok t => P t
  | .error e => e.line = l.number ∧ e.isUnterminated = false

section Handled

variable {l : SourceLine} {P : ReaderState → Prop}

theorem handled_ok {t : ReaderState} (holds : P t) : Handled l P (.ok t) := holds

theorem handled_malformed (construct : Construct) (text : List Char) :
    Handled l P (.fail (l.malformed construct text)) := ⟨rfl, rfl⟩

theorem handled_strayEnd (word : List Char) : Handled l P (ReaderState.strayEnd l word) :=
  ⟨rfl, rfl⟩

theorem handled_warn (warning : Warning) {outcome : Outcome ReaderState}
    (handled : Handled l P outcome) : Handled l P (outcome.warn warning) := handled

theorem handled_feature (dialect : Dialect) (warning : Warning) {outcome : Outcome ReaderState}
    (handled : Handled l P outcome) : Handled l P (outcome.feature dialect warning) := by
  rw [Handled, Outcome.feature_result]
  exact handled

/-- The only error in a function header is about one of its parameters. -/
theorem handled_function_error {found : Line.FunctionHeader} {annotations : List Annotation}
    {e : ParseError} (failed : l.function found annotations = .error e) :
    Handled l P (.fail e) := by
  have refused : ∀ texts, l.params texts = .error e → Handled l P (.fail e) := by
    intro texts
    induction texts with
    | nil => intro bad; simp [SourceLine.params] at bad
    | cons text more ih =>
      intro bad
      simp only [SourceLine.params] at bad
      split at bad
      · cases rest : l.params more with
        | ok params => simp [rest, Except.map] at bad
        | error other =>
          simp only [rest, Except.map, Except.error.injEq] at bad
          exact ih (bad ▸ rest)
      · cases bad
        exact handled_malformed .parameter text
  apply refused (Line.parameterTexts found.params)
  simp only [SourceLine.function] at failed
  cases params : l.params (Line.parameterTexts found.params) with
  | ok params => simp [params, Except.map] at failed
  | error other => simpa [params, Except.map] using failed

end Handled

/-- A function that has only been read by its header covers the line of the header. -/
theorem function_placement {l : SourceLine} {found : Line.FunctionHeader}
    {annotations : List Annotation} {f : FunctionDecl}
    (built : l.function found annotations = .ok f) :
    f.placement = { range := l.range, annotations } := by
  simp only [SourceLine.function] at built
  cases params : l.params (Line.parameterTexts found.params) with
  | ok params =>
    simp only [params, Except.map, Except.ok.injEq] at built
    rw [← built]
  | error other => simp [params, Except.map] at built

/-- The comment that ends a line, in outline. -/
theorem trailing_outline {Item : Type} (comment : Comment → Item) (outline : Item → Outline)
    (same : ∀ c, outline (comment c) = .comment c) (l : SourceLine) :
    (l.trailing?.map comment).toList.map outline = l.trailingNodes := by
  unfold SourceLine.trailingNodes
  cases l.trailing? with
  | none => rfl
  | some c => simp [same]

/-- The declarations around a list of statements are namespaces. -/
theorem statementLevels_inEnum (s : ReaderState) (run : Option Comment)
    (pending : List Annotation) :
    Sketch.inEnum ⟨s.statementLevel :: outerLevels s.frames, run, pending⟩ = false := by
  obtain ⟨frames, items, focus, oldRun, oldPending⟩ := s
  simp only [ReaderState.statementLevel, Sketch.inEnum, Sketch.heads]
  induction frames generalizing items with
  | nil => rfl
  | cons frame outer ih => exact ih frame.before

namespace ReaderState

/-- An `end` line in a list of statements closes the innermost namespace or is refused. -/
theorem endNamespace_handled (s : ReaderState) (l : SourceLine) (word : List Char)
    (free : s.run = none) (atStatements : s.focus = .statements) :
    Handled l (fun t => Act l s.sketch t.sketch) (s.endNamespace l word) := by
  obtain ⟨frames, items, focus, run, pending⟩ := s
  subst free atStatements
  unfold endNamespace
  split
  · rename_i frame outer same
    cases same
    split
    · apply handled_ok
      have body : outlines items.reverse = (items.map Statement.outline).reverse := by
        rw [outlines_eq_map, List.map_reverse]
      simp only [sketch, levels, statementLevel, outerLevels, List.nil_append, List.map_cons,
        Statement.outline, body, List.head?_cons, Option.map_some]
      exact Act.closeBlock
    · exact handled_strayEnd word
  · exact handled_strayEnd word

/-- A line with a declaration keyword makes a constant, opens a block or is refused. -/
theorem declare_handled (s : ReaderState) (l : SourceLine) (word : List Char)
    (free : s.run = none) (atStatements : s.focus = .statements) :
    Handled l (fun t => Act l s.sketch t.sketch) (s.declare l word) := by
  obtain ⟨frames, items, focus, run, pending⟩ := s
  subst free atStatements
  unfold declare
  split
  · split
    · rename_i name parent found
      apply handled_ok
      simp only [sketch, openBlock, levels, OpenBlock.push?, OpenBlock.level, List.append_nil,
        trailing_outline ClassItem.comment ClassItem.outline (fun _ => rfl) l]
      exact Act.openBodiless (.classDecl found) rfl rfl
    · exact handled_malformed .classHeader l.code
  split
  · split
    · rename_i name parent found
      apply handled_ok
      simp only [sketch, openBlock, levels, OpenBlock.push?, OpenBlock.level, List.append_nil,
        trailing_outline InterfaceItem.comment InterfaceItem.outline (fun _ => rfl) l]
      exact Act.openBodiless (.interfaceDecl found) rfl rfl
    · exact handled_malformed .interfaceHeader l.code
  split
  · split
    · rename_i name found
      apply handled_ok
      simp only [sketch, openBlock, levels, OpenBlock.push?, OpenBlock.level, List.append_nil,
        trailing_outline EnumItem.comment EnumItem.outline (fun _ => rfl) l]
      exact Act.openBodiless (.enumDecl found) rfl rfl
    · exact handled_malformed .enumHeader l.code
  split
  · split
    · rename_i name found
      apply handled_ok
      simp only [sketch, openNamespace, levels, statementLevel, outerLevels, List.nil_append,
        trailing_outline Statement.comment Statement.outline (fun _ => by simp [Statement.outline]) l]
      exact Act.openBodiless (.namespaceDecl found) rfl rfl
    · exact handled_malformed .namespaceHeader l.code
  · split
    · rename_i name value found
      apply handled_ok
      simp only [sketch, levels, statementLevel, List.nil_append, List.map_append, List.map_cons,
        Statement.outline,
        trailing_outline Statement.comment Statement.outline (fun _ => by simp [Statement.outline]) l]
      exact Act.item (.constDecl found) rfl (Or.inl rfl)
    · exact handled_malformed .constant l.code

/-- A line of a list of statements acts on the sketch or is refused. -/
theorem statementLine_handled (s : ReaderState) (l : SourceLine) (free : s.run = none)
    (atStatements : s.focus = .statements) :
    Handled l (fun t => Act l s.sketch t.sketch) (s.statementLine dialect l) := by
  unfold statementLine
  split
  · rename_i name found
    apply handled_feature
    obtain ⟨frames, items, focus, run, pending⟩ := s
    subst free atStatements
    exact Act.annotate found (statementLevels_inEnum _ none pending)
  split
  · exact endNamespace_handled s l _ free atStatements
  split
  · rename_i header found
    split
    · rename_i f built
      obtain ⟨frames, items, focus, run, pending⟩ := s
      subst free atStatements
      apply handled_ok
      have placed := function_placement built
      simp only [sketch, levels, FunctionDecl.level, placed]
      exact Act.openBlock (.function found built) rfl
    · rename_i e failed
      exact handled_function_error failed
  split
  · exact handled_malformed .functionHeader l.code
  split
  · exact handled_feature _ _ (declare_handled s l _ free atStatements)
  · obtain ⟨frames, items, focus, run, pending⟩ := s
    subst free atStatements
    exact Act.rest (Or.inr rfl)

/-- A line of a class acts on the sketch or is refused. -/
theorem classLine_handled (s : ReaderState) (b : OpenBlock ClassItem) (l : SourceLine)
    (free : s.run = none) (inClass : s.focus = .classBody b) :
    Handled l (fun t => Act l s.sketch t.sketch) (s.classLine dialect b l) := by
  obtain ⟨frames, items, focus, run, pending⟩ := s
  subst free inClass
  unfold classLine
  split
  · rename_i name found
    exact handled_feature _ _ (Act.annotate found (statementLevels_inEnum _ none pending))
  split
  · split
    · apply handled_ok
      simp only [sketch, levels, push, statementLevel, List.map_cons, Statement.outline,
        OpenBlock.toClass, List.map_reverse]
      exact Act.closeBlock
    · exact handled_strayEnd _
  split
  · rename_i header found
    split
    · rename_i f built
      apply handled_ok
      have placed := function_placement built
      simp only [sketch, levels, FunctionDecl.level, placed]
      exact Act.openBlock (.method found built) rfl
    · rename_i e failed
      exact handled_function_error failed
  split
  · exact handled_malformed .methodHeader l.code
  split
  · rename_i parts found
    apply handled_ok
    simp only [sketch, levels, OpenBlock.level, OpenBlock.push, OpenBlock.push?, List.map_append,
      List.map_cons, ClassItem.outline,
      trailing_outline ClassItem.comment ClassItem.outline (fun _ => rfl) l]
    exact Act.item (.field found) rfl (Or.inl rfl)
  · exact Act.rest (Or.inl rfl)

/-- A line of an interface acts on the sketch or is refused. -/
theorem interfaceLine_handled (s : ReaderState) (b : OpenBlock InterfaceItem) (l : SourceLine)
    (free : s.run = none) (inInterface : s.focus = .interfaceBody b) :
    Handled l (fun t => Act l s.sketch t.sketch) (s.interfaceLine dialect b l) := by
  obtain ⟨frames, items, focus, run, pending⟩ := s
  subst free inInterface
  unfold interfaceLine
  split
  · rename_i name found
    exact handled_feature _ _ (Act.annotate found (statementLevels_inEnum _ none pending))
  split
  · split
    · apply handled_ok
      simp only [sketch, levels, push, statementLevel, List.map_cons, Statement.outline,
        OpenBlock.toInterface, List.map_reverse]
      exact Act.closeBlock
    · exact handled_strayEnd _
  split
  · rename_i header found
    split
    · rename_i f built
      apply handled_ok
      have placed := function_placement built
      simp only [sketch, levels, OpenBlock.level, OpenBlock.push, OpenBlock.push?,
        List.map_append, List.map_cons, InterfaceItem.outline, placed,
        trailing_outline InterfaceItem.comment InterfaceItem.outline (fun _ => rfl) l]
      exact Act.item (.interfaceMethod found built) rfl (Or.inl rfl)
    · rename_i e failed
      exact handled_function_error failed
  split
  · rename_i name token found
    apply handled_ok
    simp only [sketch, levels, OpenBlock.level, OpenBlock.push, OpenBlock.push?, List.map_append,
      List.map_cons, InterfaceItem.outline,
      trailing_outline InterfaceItem.comment InterfaceItem.outline (fun _ => rfl) l]
    exact Act.item (.interfaceField found) rfl (Or.inr rfl)
  · exact handled_malformed .interfaceMember l.code

/-- A line of an enum acts on the sketch or is refused. -/
theorem enumLine_handled (s : ReaderState) (b : OpenBlock EnumItem) (next : Option Int)
    (l : SourceLine) (free : s.run = none) (inEnum : s.focus = .enumBody b next) :
    Handled l (fun t => Act l s.sketch t.sketch) (s.enumLine b next l) := by
  obtain ⟨frames, items, focus, run, pending⟩ := s
  subst free inEnum
  unfold enumLine
  split
  · split
    · apply handled_ok
      simp only [sketch, levels, push, statementLevel, List.map_cons, Statement.outline,
        OpenBlock.toEnum, List.map_reverse]
      exact Act.closeBlock
    · exact handled_strayEnd _
  split
  · rename_i name written found
    have added : Handled l
        (fun t => Act l (sketch ⟨frames, items, .enumBody b next, none, pending⟩) t.sketch)
        (.ok ⟨frames, items, .enumBody
          ((b.push (.member ⟨String.ofList name, (EnumValue.assign written next).value,
            l.codeRange⟩)).push? (l.trailing?.map EnumItem.comment))
          (EnumValue.assign written next).next, none, pending⟩) := by
      apply handled_ok
      simp only [sketch, levels, OpenBlock.level, OpenBlock.push, OpenBlock.push?,
        List.map_append, List.map_cons, EnumItem.outline,
        trailing_outline EnumItem.comment EnumItem.outline (fun _ => rfl) l]
      exact Act.member rfl (.enumMember found)
    dsimp only
    split
    · exact handled_warn _ added
    · exact added
  · exact handled_malformed .enumMember l.code

/-- Only in a function or a method the next line belongs to a body of code. -/
theorem focus_of_inCode {s : ReaderState} (inside : s.sketch.inCode = true) :
    (∃ f depth, s.focus = .functionBody f depth) ∨
      ∃ b m depth, s.focus = .methodBody b m depth := by
  obtain ⟨frames, items, focus, run, pending⟩ := s
  cases focus with
  | functionBody f depth => exact Or.inl ⟨f, depth, rfl⟩
  | methodBody b m depth => exact Or.inr ⟨b, m, depth, rfl⟩
  | statements =>
    revert inside
    cases frames <;> simp [sketch, levels, statementLevel, Sketch.inCode, NamespaceFrame.head,
      Header.hasCode]
  | classBody b => simp [sketch, levels, OpenBlock.level, Sketch.inCode, Header.hasCode] at inside
  | interfaceBody b =>
    simp [sketch, levels, OpenBlock.level, Sketch.inCode, Header.hasCode] at inside
  | enumBody b next => simp [sketch, levels, OpenBlock.level, Sketch.inCode, Header.hasCode] at inside

/-- A line of a body of code leaves the sketch alone or ends the body. -/
theorem bodyLine_handled (s : ReaderState) (l : SourceLine) (inside : s.sketch.inCode = true) :
    Handled l (fun t => Move l s.sketch t.sketch) (s.step dialect l) := by
  have found := focus_of_inCode inside
  obtain ⟨frames, items, focus, run, pending⟩ := s
  unfold step
  obtain ⟨f, depth, rfl⟩ | ⟨b, m, depth, rfl⟩ := found
  · dsimp only
    split
    · apply handled_ok
      simp only [sketch, levels, push, statementLevel, List.map_cons, Statement.outline,
        FunctionDecl.endingAt, FunctionDecl.level]
      exact Move.endCode rfl
    · exact handled_ok (Move.inCode inside)
  · dsimp only
    split
    · apply handled_ok
      simp only [sketch, levels, OpenBlock.level, OpenBlock.push, List.map_cons,
        ClassItem.outline, FunctionDecl.endingAt, FunctionDecl.level]
      exact Move.endCode rfl
    · exact handled_ok (Move.inCode inside)

/-- Once the comment lines above are made a comment, none are waiting. -/
theorem closeRun_run (s : ReaderState) : s.closeRun.run = none := by
  obtain ⟨frames, items, focus, run, pending⟩ := s
  cases run with
  | none => rfl
  | some c => rfl

theorem closeRun_inCode (s : ReaderState) (outside : s.sketch.inCode = false) :
    s.closeRun.sketch.inCode = false := by
  obtain ⟨frames, items, focus, run, pending⟩ := s
  cases run with
  | none => exact outside
  | some c =>
    cases focus with
    | functionBody f depth => cases outside
    | methodBody b m depth => cases outside
    | _ => exact outside

/-- The line after the comment lines just read acts on the sketch by the block it belongs to, or is
refused. -/
theorem blockLine_handled (s : ReaderState) (l : SourceLine) (free : s.run = none)
    (outside : s.sketch.inCode = false) :
    Handled l (fun t => Act l s.sketch t.sketch)
      (match s.focus with
        | .classBody b => s.classLine dialect b l
        | .interfaceBody b => s.interfaceLine dialect b l
        | .enumBody b next => s.enumLine b next l
        | _ => s.statementLine dialect l) := by
  cases found : s.focus with
  | statements => exact statementLine_handled s l free found
  | classBody b => exact classLine_handled s b l free found
  | interfaceBody b => exact interfaceLine_handled s b l free found
  | enumBody b next => exact enumLine_handled s b next l free found
  | functionBody f depth =>
    simp only [sketch, levels, found] at outside
    cases outside
  | methodBody b m depth =>
    simp only [sketch, levels, found] at outside
    cases outside

/-- A line outside bodies of code joins the comment lines above it, or acts on the sketch, or is
refused. -/
theorem outerLine_handled (dialect : Dialect) (s : ReaderState) (l : SourceLine)
    (outside : s.sketch.inCode = false) :
    Handled l (fun t => Move l s.sketch t.sketch) (s.gather l fun s l =>
      match s.focus with
      | .classBody b => s.classLine dialect b l
      | .interfaceBody b => s.interfaceLine dialect b l
      | .enumBody b next => s.enumLine b next l
      | _ => s.statementLine dialect l) := by
  have closed := sketch_closeRun s outside
  have free := closeRun_run s
  have acts : ∀ {outcome : Outcome ReaderState}, Line.isComment l.text = false →
      Handled l (fun t => Act l s.closeRun.sketch t.sketch) outcome →
      Handled l (fun t => Move l s.sketch t.sketch) outcome := by
    intro outcome code handled
    unfold Handled at handled ⊢
    split at handled
    · rw [closed] at handled
      exact Move.act outside code handled
    · exact handled
  unfold gather
  split
  · rename_i comment
    apply handled_ok
    rw [sketch_addComment]
    exact Move.gather outside comment
  rename_i noComment
  have code : Line.isComment l.text = false := by simpa using noComment
  split
  · apply acts code
    apply handled_ok
    have resting : Act l ⟨s.closeRun.levels, none, s.closeRun.pending⟩
        ⟨s.closeRun.levels, none, s.closeRun.pending⟩ := Act.rest (Or.inl rfl)
    simpa only [sketch, free] using resting
  · exact acts code (blockLine_handled s.closeRun l free (closeRun_inCode s outside))

/-- Every line makes a move of the sketch, or is refused with an error about this line. -/
theorem step_handled (dialect : Dialect) (s : ReaderState) (l : SourceLine) :
    Handled l (fun t => Move l s.sketch t.sketch) (s.step dialect l) := by
  cases inside : s.sketch.inCode with
  | true => exact bodyLine_handled s l inside
  | false =>
    have outer := outerLine_handled dialect s l inside
    unfold step
    cases found : s.focus with
    | functionBody f depth =>
      simp only [sketch, levels, found] at inside
      cases inside
    | methodBody b m depth =>
      simp only [sketch, levels, found] at inside
      cases inside
    | _ => exact outer

end ReaderState

/-- The sketch of an empty text. -/
def Sketch.start : Sketch := ⟨[⟨none, []⟩], none, []⟩

/-- What every line that is taken keeps holds where a text has been read: `Inv n s` speaks of the
reader before the line with the number `n`. -/
theorem readFrom_invariant {Inv : Nat → ReaderState → Prop} (lines : List (List Char))
    (step : ∀ index text s t, lines[index]? = some text → Inv index s →
      (s.step dialect ⟨index, text⟩).result = .ok t → Inv (index + 1) t) :
    ∀ (rest before : List (List Char)) (s t : ReaderState), lines = before ++ rest →
      Inv before.length s → (readFrom dialect before.length s rest).result = .ok t →
      Inv lines.length t := by
  intro rest
  induction rest with
  | nil =>
    intro before s t split inv read
    cases read
    simpa [split] using inv
  | cons text more ih =>
    intro before s t split inv read
    simp only [readFrom, Outcome.andThen] at read
    cases stepped : (s.step dialect ⟨before.length, text⟩).result with
    | error e => simp [stepped] at read
    | ok u =>
      simp only [stepped] at read
      have here : lines[before.length]? = some text := by simp [split]
      have next := step before.length text s u here inv stepped
      apply ih (before ++ [text]) u t (by simp [split])
      · simpa using next
      · simpa using read

/-- What the reader has at the start and every line keeps holds where a whole text has been read. -/
theorem state_of_read {Inv : Nat → ReaderState → Prop} {lines : List (List Char)} {t : ReaderState}
    (read : (readFrom dialect 0 {} lines).result = .ok t) (start : Inv 0 {})
    (step : ∀ index text s t, lines[index]? = some text → Inv index s →
      (s.step dialect ⟨index, text⟩).result = .ok t → Inv (index + 1) t) : Inv lines.length t :=
  readFrom_invariant lines step lines [] {} t rfl start read

/-- A line that is taken makes a move of the sketch. -/
theorem ReaderState.move_of_step {s t : ReaderState} {l : SourceLine}
    (stepped : (s.step dialect l).result = .ok t) : Move l s.sketch t.sketch := by
  have handled := step_handled dialect s l
  simpa only [Handled, stepped] using handled

/-- What the empty sketch has and every move keeps holds of the sketch of a whole text. -/
theorem sketch_of_read {Inv : Nat → Sketch → Prop} {lines : List (List Char)} {t : ReaderState}
    (read : (readFrom dialect 0 {} lines).result = .ok t) (start : Inv 0 .start)
    (step : ∀ index text s t, lines[index]? = some text → Inv index s →
      Move ⟨index, text⟩ s t → Inv (index + 1) t) : Inv lines.length t.sketch := by
  apply @state_of_read dialect (fun index s => Inv index s.sketch) lines t read start
  intro index text s t here inv stepped
  exact step index text s.sketch t.sketch here inv (ReaderState.move_of_step stepped)

/-- The result of reading some lines, by what the lines leave. -/
theorem readLines_result (lines : List (List Char)) :
    (readLines dialect lines).result =
      match (readFrom dialect 0 {} lines).result with
      | .ok s => s.finish
      | .error e => .error e := by
  simp only [readLines, Outcome.andThen]
  cases (readFrom dialect 0 {} lines).result <;> rfl

/-- The lines of a text that is read leave a state that can end. -/
theorem readLines_ok {lines : List (List Char)} {statements : List Statement}
    (read : (readLines dialect lines).result = .ok statements) :
    ∃ t, (readFrom dialect 0 {} lines).result = .ok t ∧ t.finish = .ok statements := by
  rw [readLines_result] at read
  cases found : (readFrom dialect 0 {} lines).result with
  | ok t =>
    rw [found] at read
    exact ⟨t, rfl, read⟩
  | error e =>
    rw [found] at read
    cases read

/-- A state that can end has a single open list, which makes the tree. -/
theorem ReaderState.finish_ok {t : ReaderState} {statements : List Statement}
    (finished : t.finish = .ok statements) :
    t.sketch.closeRun.levels = [⟨none, (outlines statements).reverse⟩] := by
  obtain ⟨frames, items, focus, run, pending⟩ := t
  cases focus with
  | statements =>
    cases frames with
    | nil =>
      cases finished
      rw [outlines_eq_map, List.map_reverse, List.reverse_reverse]
      cases run with
      | none => rfl
      | some c =>
        simp only [ReaderState.closeRun, ReaderState.pushComment, List.map_cons, Statement.outline]
        rfl
    | cons frame outer => cases finished
  | functionBody f depth => cases finished
  | methodBody b m depth => cases finished
  | classBody b => cases finished
  | interfaceBody b => cases finished
  | enumBody b next => cases finished

/-- Every open declaration starts on a line before the given one. -/
def OpenedBefore (index : Nat) (s : Sketch) : Prop :=
  ∀ head ∈ s.heads, head.start.line < index

theorem OpenedBefore.mono {first second : Nat} {s : Sketch} (before : OpenedBefore first s)
    (le : first ≤ second) : OpenedBefore second s :=
  fun head member => Nat.lt_of_lt_of_le (before head member) le

theorem Sketch.heads_closeRun (s : Sketch) : s.closeRun.heads = s.heads := by
  obtain ⟨levels, run, pending⟩ := s
  cases run with
  | none => rfl
  | some c => cases levels <;> rfl

theorem Sketch.inCode_closeRun (s : Sketch) : s.closeRun.inCode = s.inCode := by
  obtain ⟨levels, run, pending⟩ := s
  cases run with
  | none => rfl
  | some c => cases levels <;> rfl

theorem openedBefore_act {l : SourceLine} {s t : Sketch} (before : OpenedBefore l.index s)
    (act : Act l s t) : OpenedBefore (l.index + 1) t := by
  have later := before.mono (Nat.le_succ l.index)
  cases act with
  | rest kept => exact later
  | annotate found outside => exact later
  | item reads oneLine taken => exact later
  | member inEnum reads => exact later
  | openBlock reads block =>
    intro head member
    rcases List.mem_cons.mp member with rfl | member
    · exact Nat.lt_succ_self l.index
    · exact later head member
  | closeBlock => exact fun head member => later head (List.mem_cons_of_mem _ member)

/-- The line of a move comes after the first lines of all declarations that are open after it. -/
theorem openedBefore_move {l : SourceLine} {s t : Sketch} (before : OpenedBefore l.index s)
    (move : Move l s t) : OpenedBefore (l.index + 1) t := by
  have later := before.mono (Nat.le_succ l.index)
  cases move with
  | inCode inside => exact later
  | endCode code => exact fun head member => later head (List.mem_cons_of_mem _ member)
  | gather outside comment =>
    obtain ⟨levels, run, pending⟩ := s
    cases run <;> exact later
  | act outside code act =>
    apply openedBefore_act _ act
    intro head member
    rw [Sketch.heads_closeRun] at member
    exact before head member

/-- Where a text has been read, all that is open has been opened in it. -/
theorem openedBefore_of_read {lines : List (List Char)} {t : ReaderState}
    (read : (readFrom dialect 0 {} lines).result = .ok t) : OpenedBefore lines.length t.sketch := by
  apply sketch_of_read read
  · intro head member
    cases member
  · intro index text s t _ before move
    exact openedBefore_move before move

end BrightDoc
