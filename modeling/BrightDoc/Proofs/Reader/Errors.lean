import BrightDoc.Proofs.Reader.Simulation

/-! # Errors and continuations

An error about a line is final: whatever is written after the text, it is reported again. A block that
is still open can be closed by `end` lines, and then the text is read. So the two sorts of errors tell
the texts that no continuation mends from those that some continuation completes. -/

namespace BrightDoc

variable {dialect : Dialect}

/-- The line that closes a block. -/
def endLine (kind : BlockKind) : List Char :=
  ("end " ++ kind.word).toList

/-- The line that closes a block is neither comment, blank nor annotation, and is read as what it
is. -/
theorem endLine_recognised (kind : BlockKind) :
    Line.isComment (endLine kind) = false ∧ Line.isBlank (endLine kind) = false ∧
      Line.annotationName? (endLine kind) = none ∧
      Line.blockEnd? (Line.splitComment (endLine kind)).1 = some kind.word.toList := by
  cases kind <;> decide

theorem readFrom_ok_append {index : Nat} {s t : ReaderState} {first : List (List Char)}
    (read : (readFrom dialect index s first).result = .ok t) (second : List (List Char)) :
    (readFrom dialect index s (first ++ second)).result =
      (readFrom dialect (index + first.length) t second).result := by
  rw [readFrom_append]
  simp only [Outcome.andThen, read]

theorem readFrom_error_append {index : Nat} {s : ReaderState} {e : ParseError}
    {first : List (List Char)} (read : (readFrom dialect index s first).result = .error e)
    (second : List (List Char)) : (readFrom dialect index s (first ++ second)).result = .error e := by
  rw [readFrom_append]
  simp only [Outcome.andThen, read]

/-- An error on the way through some lines is about one of them, and is final. -/
theorem readFrom_error {e : ParseError} (lines : List (List Char)) :
    ∀ (index : Nat) (s : ReaderState), (readFrom dialect index s lines).result = .error e →
      e.isUnterminated = false ∧ index + 1 ≤ e.line ∧ e.line ≤ index + lines.length := by
  induction lines with
  | nil => intro index s failed; cases failed
  | cons text more ih =>
    intro index s failed
    have handled := ReaderState.step_handled dialect s ⟨index, text⟩
    simp only [readFrom, Outcome.andThen] at failed
    cases stepped : (s.step dialect ⟨index, text⟩).result with
    | error other =>
      simp only [Handled, stepped, SourceLine.number] at handled
      simp only [stepped, Except.error.injEq] at failed
      rw [← failed, handled.1, List.length_cons]
      exact ⟨handled.2, Nat.le_refl _, by omega⟩
    | ok t =>
      simp only [stepped] at failed
      have found := ih (index + 1) t failed
      rw [List.length_cons]
      exact ⟨found.1, by omega, by omega⟩

/-- The error at the end of a text is about the first line of an open declaration. -/
theorem finish_error {s : ReaderState} {e : ParseError} (failed : s.finish = .error e) :
    e.isUnterminated = true ∧ ∃ head ∈ s.sketch.heads, e.line = head.start.line + 1 := by
  obtain ⟨frames, items, focus, run, pending⟩ := s
  cases focus with
  | statements =>
    cases frames with
    | nil => cases failed
    | cons frame outer =>
      cases failed
      exact ⟨rfl, frame.head, List.mem_cons_self .., rfl⟩
  | methodBody b m depth =>
    cases failed
    exact ⟨rfl, _, List.mem_cons_self .., rfl⟩
  | functionBody f depth =>
    cases failed
    exact ⟨rfl, _, List.mem_cons_self .., rfl⟩
  | classBody b =>
    cases failed
    exact ⟨rfl, _, List.mem_cons_self .., rfl⟩
  | interfaceBody b =>
    cases failed
    exact ⟨rfl, _, List.mem_cons_self .., rfl⟩
  | enumBody b next =>
    cases failed
    exact ⟨rfl, _, List.mem_cons_self .., rfl⟩

namespace ReaderState

theorem gather_code {s : ReaderState} {l : SourceLine} (notComment : Line.isComment l.text = false)
    (notBlank : Line.isBlank l.text = false)
    (handle : ReaderState → SourceLine → Outcome ReaderState) :
    s.gather l handle = handle s.closeRun l := by
  simp only [gather, notComment, notBlank, Bool.false_eq_true, if_false]

/-- A line that closes a block, outside bodies of code, is given to the block it belongs to. -/
theorem step_endLine {s : ReaderState} (index : Nat) (kind : BlockKind)
    (outside : s.sketch.inCode = false) :
    s.step dialect ⟨index, endLine kind⟩ =
      match s.closeRun.focus with
      | .classBody b => s.closeRun.classLine dialect b ⟨index, endLine kind⟩
      | .interfaceBody b => s.closeRun.interfaceLine dialect b ⟨index, endLine kind⟩
      | .enumBody b next => s.closeRun.enumLine b next ⟨index, endLine kind⟩
      | _ => s.closeRun.statementLine dialect ⟨index, endLine kind⟩ := by
  obtain ⟨notComment, notBlank, -, -⟩ := endLine_recognised kind
  cases found : s.focus with
  | functionBody f depth =>
    simp only [sketch, levels, found] at outside
    cases outside
  | methodBody b m depth =>
    simp only [sketch, levels, found] at outside
    cases outside
  | _ =>
    unfold step
    rw [found]
    exact gather_code notComment notBlank _

/-- An `end namespace` line closes the innermost namespace. -/
theorem step_endNamespace {s : ReaderState} (index : Nat) {frame : NamespaceFrame}
    {outer : List NamespaceFrame} (atStatements : s.focus = .statements)
    (opened : s.frames = frame :: outer) :
    ∃ t, (s.step dialect ⟨index, endLine .ofNamespace⟩).result = .ok t ∧
      t.focus = .statements ∧ t.frames = outer := by
  obtain ⟨-, -, notAnnotation, ends⟩ := endLine_recognised .ofNamespace
  obtain ⟨frames, items, focus, run, pending⟩ := s
  subst atStatements opened
  rw [step_endLine index _ rfl]
  cases run <;>
    simp only [closeRun, pushComment, statementLine, notAnnotation, SourceLine.code, ends,
      endNamespace, if_true] <;>
    exact ⟨_, rfl, rfl, rfl⟩

/-- The `end` line of a class, interface or enum closes it. -/
theorem step_endBlock {s : ReaderState} (index : Nat) (kind : BlockKind)
    (inBlock : (∃ b, kind = .ofClass ∧ s.focus = .classBody b) ∨
      (∃ b, kind = .ofInterface ∧ s.focus = .interfaceBody b) ∨
      ∃ b next, kind = .ofEnum ∧ s.focus = .enumBody b next) :
    ∃ t, (s.step dialect ⟨index, endLine kind⟩).result = .ok t ∧
      t.focus = .statements ∧ t.frames = s.frames := by
  obtain ⟨-, -, notAnnotation, ends⟩ := endLine_recognised kind
  obtain ⟨frames, items, focus, run, pending⟩ := s
  obtain ⟨b, rfl, rfl⟩ | ⟨b, rfl, rfl⟩ | ⟨b, next, rfl, rfl⟩ := inBlock
  · rw [step_endLine index _ rfl]
    cases run <;>
      simp only [closeRun, pushComment, classLine, notAnnotation, SourceLine.code, ends,
        if_true] <;>
      exact ⟨_, rfl, rfl, rfl⟩
  · rw [step_endLine index _ rfl]
    cases run <;>
      simp only [closeRun, pushComment, interfaceLine, notAnnotation, SourceLine.code, ends,
        if_true] <;>
      exact ⟨_, rfl, rfl, rfl⟩
  · rw [step_endLine index _ rfl]
    cases run <;>
      simp only [closeRun, pushComment, enumLine, SourceLine.code, ends, if_true] <;>
      exact ⟨_, rfl, rfl, rfl⟩

/-- An `end function` line closes one function. -/
theorem bodyDepth_endLine (depth index : Nat) :
    bodyDepth depth ⟨index, endLine .function⟩ = depth - 1 := by
  have notComment : Line.isComment (endLine .function) = false := by decide
  have opened : Line.openedFunctions (Line.splitComment (endLine .function)).1 = 0 := by decide
  have closed : Line.closedFunctions (Line.splitComment (endLine .function)).1 = 1 := by decide
  simp only [bodyDepth, SourceLine.code, notComment, opened, closed, Bool.false_eq_true, if_false,
    Nat.add_zero]

end ReaderState

/-- `Closes index s frames`: some `end` lines from the line with this number on take the state `s`
to a list of statements with the given namespaces open. -/
def Closes (dialect : Dialect) (index : Nat) (s : ReaderState) (frames : List NamespaceFrame) : Prop :=
  ∃ more t, (∀ line ∈ more, ∃ kind, line = endLine kind) ∧
    (readFrom dialect index s more).result = .ok t ∧ t.focus = .statements ∧ t.frames = frames

/-- One more `end` line in front. -/
theorem Closes.cons {index : Nat} {s t : ReaderState} {frames : List NamespaceFrame}
    {kind : BlockKind} (stepped : (s.step dialect ⟨index, endLine kind⟩).result = .ok t)
    (closes : Closes dialect (index + 1) t frames) : Closes dialect index s frames := by
  obtain ⟨more, u, ends, read, atStatements, left⟩ := closes
  refine ⟨endLine kind :: more, u, ?_, ?_, atStatements, left⟩
  · intro line member
    rcases List.mem_cons.mp member with rfl | member
    · exact ⟨kind, rfl⟩
    · exact ends line member
  · simp only [readFrom, Outcome.andThen, stepped]
    exact read

theorem closes_statements {index : Nat} {s : ReaderState} (atStatements : s.focus = .statements) :
    Closes dialect index s s.frames :=
  ⟨[], s, by simp, rfl, atStatements, rfl⟩

/-- A block other than a function is closed by its `end` line. -/
theorem closes_block {index : Nat} {s : ReaderState} {kind : BlockKind}
    (inBlock : (∃ b, kind = .ofClass ∧ s.focus = .classBody b) ∨
      (∃ b, kind = .ofInterface ∧ s.focus = .interfaceBody b) ∨
      ∃ b next, kind = .ofEnum ∧ s.focus = .enumBody b next) : Closes dialect index s s.frames := by
  obtain ⟨t, stepped, atStatements, left⟩ := ReaderState.step_endBlock index kind inBlock
  rw [← left]
  exact Closes.cons stepped (closes_statements atStatements)

/-- A function of any depth is closed by `end function` lines. -/
theorem closes_functionBody (left : Nat) :
    ∀ (depth index : Nat) (s : ReaderState) (f : FunctionDecl), depth - 1 = left →
      s.focus = .functionBody f depth → Closes dialect index s s.frames := by
  induction left with
  | zero =>
    intro depth index s f last inBody
    have ended : (s.step dialect ⟨index, endLine .function⟩).result =
        .ok (s.push (.function (f.endingAt ⟨index, endLine .function⟩))) := by
      simp only [ReaderState.step, inBody, ReaderState.bodyDepth_endLine, last]
      rfl
    exact Closes.cons ended (closes_statements rfl)
  | succ left ih =>
    intro depth index s f more inBody
    have stepped : (s.step dialect ⟨index, endLine .function⟩).result =
        .ok { s with focus := .functionBody f (left + 1) } := by
      simp only [ReaderState.step, inBody, ReaderState.bodyDepth_endLine, more]
      rfl
    exact Closes.cons stepped (ih (left + 1) (index + 1) _ f rfl rfl)

/-- A method of any depth is closed by `end function` lines, and its class after it. -/
theorem closes_methodBody (left : Nat) :
    ∀ (depth index : Nat) (s : ReaderState) (b : OpenBlock ClassItem) (m : Method),
      depth - 1 = left → s.focus = .methodBody b m depth → Closes dialect index s s.frames := by
  induction left with
  | zero =>
    intro depth index s b m last inBody
    have ended : (s.step dialect ⟨index, endLine .function⟩).result =
        .ok { s with focus := .classBody (b.push
          (.method { m with function := m.function.endingAt ⟨index, endLine .function⟩ })) } := by
      simp only [ReaderState.step, inBody, ReaderState.bodyDepth_endLine, last]
      rfl
    exact Closes.cons ended (closes_block (Or.inl ⟨_, rfl, rfl⟩))
  | succ left ih =>
    intro depth index s b m more inBody
    have stepped : (s.step dialect ⟨index, endLine .function⟩).result =
        .ok { s with focus := .methodBody b m (left + 1) } := by
      simp only [ReaderState.step, inBody, ReaderState.bodyDepth_endLine, more]
      rfl
    exact Closes.cons stepped (ih (left + 1) (index + 1) _ b m rfl rfl)

/-- Whatever a line may belong to, `end` lines lead back to the innermost list of statements. -/
theorem closes_focus (index : Nat) (s : ReaderState) : Closes dialect index s s.frames := by
  cases found : s.focus with
  | statements => exact closes_statements found
  | functionBody f depth => exact closes_functionBody _ depth index s f rfl found
  | classBody b => exact closes_block (Or.inl ⟨b, rfl, found⟩)
  | methodBody b m depth => exact closes_methodBody _ depth index s b m rfl found
  | interfaceBody b => exact closes_block (Or.inr (Or.inl ⟨b, rfl, found⟩))
  | enumBody b next => exact closes_block (Or.inr (Or.inr ⟨b, next, rfl, found⟩))

/-- The namespaces around a list of statements are closed by `end namespace` lines. -/
theorem closes_frames (frames : List NamespaceFrame) :
    ∀ (index : Nat) (s : ReaderState), s.focus = .statements → s.frames = frames →
      Closes dialect index s [] := by
  induction frames with
  | nil =>
    intro index s atStatements none
    rw [← none]
    exact closes_statements atStatements
  | cons frame outer ih =>
    intro index s atStatements opened
    obtain ⟨t, stepped, after, left⟩ := ReaderState.step_endNamespace index atStatements opened
    exact Closes.cons stepped (ih (index + 1) t after left)

/-- From every state some `end` lines close all that is open. -/
theorem closes_all (index : Nat) (s : ReaderState) : Closes dialect index s [] := by
  obtain ⟨first, t, ends, read, atStatements, left⟩ := closes_focus index s
  obtain ⟨second, u, ends', read', atStatements', left'⟩ :=
    closes_frames s.frames (index + first.length) t atStatements left
  refine ⟨first ++ second, u, ?_, ?_, atStatements', left'⟩
  · intro line member
    rcases List.mem_append.mp member with member | member
    · exact ends line member
    · exact ends' line member
  · rw [readFrom_ok_append read, read']

/-- An error about a line comes again with every continuation. -/
theorem readLines_final {lines : List (List Char)} {e : ParseError}
    (failed : (readLines dialect lines).result = .error e) (final : e.isUnterminated = false)
    (more : List (List Char)) : (readLines dialect (lines ++ more)).result = .error e := by
  rw [readLines_result] at failed ⊢
  cases read : (readFrom dialect 0 {} lines).result with
  | error other =>
    simp only [read] at failed
    rw [readFrom_error_append read]
    exact failed
  | ok s =>
    simp only [read] at failed
    rw [(finish_error failed).1] at final
    cases final

/-- A text that ends inside a block is completed by some `end` lines. -/
theorem readLines_completable {lines : List (List Char)} {e : ParseError}
    (failed : (readLines dialect lines).result = .error e) (unterminated : e.isUnterminated = true) :
    ∃ more, (∀ line ∈ more, ∃ kind, line = endLine kind) ∧
      ∃ statements, (readLines dialect (lines ++ more)).result = .ok statements := by
  rw [readLines_result] at failed
  cases read : (readFrom dialect 0 {} lines).result with
  | error other =>
    simp only [read, Except.error.injEq] at failed
    rw [failed] at read
    rw [(readFrom_error lines 0 {} read).1] at unterminated
    cases unterminated
  | ok s =>
    obtain ⟨more, t, ends, readMore, atStatements, left⟩ := closes_all (0 + lines.length) s
    refine ⟨more, ends, t.closeRun.items.reverse, ?_⟩
    rw [readLines_result, readFrom_ok_append read, readMore]
    simp only [ReaderState.finish, atStatements, left]

/-- An error names a line of the text, counted from one. -/
theorem readLines_error_line {lines : List (List Char)} {e : ParseError}
    (failed : (readLines dialect lines).result = .error e) : 1 ≤ e.line ∧ e.line ≤ lines.length := by
  rw [readLines_result] at failed
  cases read : (readFrom dialect 0 {} lines).result with
  | error other =>
    simp only [read, Except.error.injEq] at failed
    rw [failed] at read
    have bounds := (readFrom_error lines 0 {} read).2
    omega
  | ok s =>
    simp only [read] at failed
    obtain ⟨head, member, line⟩ := (finish_error failed).2
    have := openedBefore_of_read read head member
    omega

/-- The errors of the reader classify the texts that it does not read, in both dialects. An error
names a line of the text. One that is not about an open block comes again, the very same, with every
continuation of the text; one about an open block is mended by some lines that each close a block. So
a block is reported as open exactly for the texts, not read as they are, that can still be
completed. -/
theorem error_classifies_continuations (dialect : Dialect) (lines : List (List Char))
    (e : ParseError) (failed : (readLines dialect lines).result = .error e) :
    (1 ≤ e.line ∧ e.line ≤ lines.length) ∧
    (e.isUnterminated = false →
      ∀ more, (readLines dialect (lines ++ more)).result = .error e) ∧
    (e.isUnterminated = true → ∃ more, (∀ line ∈ more, ∃ kind, line = endLine kind) ∧
      ∃ statements, (readLines dialect (lines ++ more)).result = .ok statements) ∧
    (e.isUnterminated = true ↔
      ∃ more statements, (readLines dialect (lines ++ more)).result = .ok statements) := by
  refine ⟨readLines_error_line failed, readLines_final failed, readLines_completable failed, ?_⟩
  constructor
  · intro unterminated
    obtain ⟨more, -, statements, read⟩ := readLines_completable failed unterminated
    exact ⟨more, statements, read⟩
  · rintro ⟨more, statements, read⟩
    cases sort : e.isUnterminated with
    | true => rfl
    | false =>
      have again : (readLines dialect (lines ++ more)).result = .error e :=
        readLines_final failed sort more
      rw [again] at read
      cases read

/-- A method that is open two functions deep, in a class of a namespace, is reported by its own line,
and the text can be completed. -/
theorem open_method_is_completable :
    let lines := ["namespace a.b", "class C", "private sub run()", "f = function(x)", "' end sub"].map
      String.toList
    (readLines .brightScript lines).result = .error (.unterminated .sub 3) ∧
      ∃ more statements, (readLines .brightScript (lines ++ more)).result = .ok statements := by
  have failed : (readLines .brightScript (["namespace a.b", "class C", "private sub run()",
      "f = function(x)", "' end sub"].map String.toList)).result =
        .error (.unterminated .sub 3) := by rfl
  exact ⟨failed, (error_classifies_continuations _ _ _ failed).2.2.2.mp rfl⟩

end BrightDoc
