import BrightDoc.Proofs.Line.Alike
import BrightDoc.Proofs.Reader.Arrangement
import BrightDoc.Proofs.Reader.Declared
import BrightDoc.Proofs.Reader.Errors
import BrightDoc.Proofs.Reader.Indifference

/-! # Bodies of code are skipped

For every function of a tree the reader was in its body from the line after the header up to the last
line, and looked at those lines only to count the functions that they open and close. So the texts in
them, in literals and comments, make no difference to the tree, but for the column where the function
ends. -/

namespace BrightDoc

variable {dialect : Dialect}

/-- The state of the reader before the line with the given number. -/
def stateBefore (dialect : Dialect) (lines : List (List Char)) (index : Nat) :
    Except ParseError ReaderState :=
  (readFrom dialect 0 {} (lines.take index)).result

theorem stateBefore_succ {lines : List (List Char)} {index : Nat} {text : List Char} {s : ReaderState}
    (here : lines[index]? = some text) (before : stateBefore dialect lines index = .ok s) :
    stateBefore dialect lines (index + 1) = (s.step dialect ⟨index, text⟩).result := by
  have length : (lines.take index).length = index := by
    have inside := (List.getElem?_eq_some_iff.mp here).1
    rw [List.length_take, Nat.min_eq_left (Nat.le_of_lt inside)]
  rw [stateBefore, List.take_add_one, here, Option.toList_some, readFrom_append, Outcome.andThen,
    show (readFrom dialect 0 {} (lines.take index)).result = .ok s from before, length, Nat.zero_add]
  simp only [readFrom, Outcome.andThen]
  cases (s.step dialect ⟨index, text⟩).result <;> rfl

/-- The line of the header whose body of code the next line belongs to. -/
def Sketch.codeStart? (s : Sketch) : Option Nat :=
  match s.levels with
  | ⟨some head, _⟩ :: _ => if head.header.hasCode then some head.start.line else none
  | _ => none

/-- Before the line `index` the reader is in the body of code below the header on the line `start`. -/
def InCodeFrom (dialect : Dialect) (lines : List (List Char)) (start index : Nat) : Prop :=
  ∃ s, stateBefore dialect lines index = .ok s ∧ s.sketch.codeStart? = some start

/-- The reader skipped the lines below the header up to the last line, and no further. -/
structure Placement.Skipped (dialect : Dialect) (lines : List (List Char)) (p : Placement) : Prop where
  inside : ∀ index, p.range.start.line < index → index ≤ p.range.stop.line →
    InCodeFrom dialect lines p.range.start.line index
  closed : ∃ s, stateBefore dialect lines (p.range.stop.line + 1) = .ok s ∧ s.sketch.inCode = false

/-- Only the innermost of the open lists may be a body of code. -/
def Sketch.PlainAround (s : Sketch) : Prop :=
  ∀ level ∈ s.levels.tail, ∀ head ∈ level.head, head.header.hasCode = false

namespace ReaderState

theorem plainAround (s : ReaderState) : s.sketch.PlainAround := by
  have around : ∀ level ∈ s.statementLevel :: outerLevels s.frames, ∀ head ∈ level.head,
      head.header.hasCode = false := by
    obtain ⟨frames, items, focus, run, pending⟩ := s
    simp only [statementLevel]
    induction frames generalizing items with
    | nil => simp [outerLevels]
    | cons frame outer ih =>
      intro level member
      rcases List.mem_cons.mp member with rfl | member
      · intro head found
        cases found
        rfl
      · exact ih frame.before level member
  obtain ⟨frames, items, focus, run, pending⟩ := s
  cases focus with
  | statements => exact fun level member => around level (List.mem_cons_of_mem _ member)
  | methodBody b m depth =>
    intro level member
    rcases List.mem_cons.mp member with rfl | member
    · intro head found
      cases found
      rfl
    · exact around level member
  | _ => exact around

/-- Outside bodies of code none is open. -/
theorem opensFrom_of_outside {s : ReaderState} (outside : s.sketch.inCode = false) (start : Nat) :
    s.sketch.OpensFrom start := by
  intro head member code
  obtain ⟨level, among, found⟩ := List.mem_filterMap.mp member
  have plain : ∀ level ∈ s.levels.tail, ∀ head ∈ level.head, head.header.hasCode = false :=
    s.plainAround
  have notCode : head.header.hasCode = false := by
    simp only [sketch, Sketch.inCode] at among outside
    cases levels : s.levels with
    | nil =>
      rw [levels] at among
      cases among
    | cons first rest =>
      rw [levels] at among outside plain
      rcases List.mem_cons.mp among with rfl | among
      · dsimp only at outside
        rw [found] at outside
        exact outside
      · exact plain level among head found
  rw [notCode] at code
  cases code

end ReaderState

theorem Sketch.codeStart?_of_outside {s : Sketch} (outside : s.inCode = false) :
    s.codeStart? = none := by
  obtain ⟨levels, run, pending⟩ := s
  cases levels with
  | nil => rfl
  | cons level outer =>
    obtain ⟨head, nodes⟩ := level
    cases head with
    | none => rfl
    | some head =>
      have plain : head.header.hasCode = false := outside
      simp [codeStart?, plain]

theorem Sketch.inCode_of_codeStart? {s : Sketch} {start : Nat} (found : s.codeStart? = some start) :
    s.inCode = true := by
  cases inCode : s.inCode with
  | true => rfl
  | false =>
    rw [codeStart?_of_outside inCode] at found
    cases found

/-- A function that is more than a line has a body of code. -/
theorem Header.hasCode_of_signature? {header : Header} (isFunction : header.signature?.isSome = true)
    (block : header.isOneLine = false) : header.hasCode = true := by
  cases header with
  | function signature => rfl
  | method signature access overrides => rfl
  | interfaceMethod signature => cases block
  | _ => cases isFunction

/-- The property of all declarations with a body of code that have been read to their end. -/
def Sketch.AllCode (P : Placement → Prop) (s : Sketch) : Prop :=
  ∀ found ∈ s.closed, found.1.hasCode = true → P found.2

section Moves

variable {P : Placement → Prop} {l : SourceLine} {outer : List Level} {nodes : List Outline}
  {run run' : Option Comment} {pending pending' : List Annotation}

theorem Sketch.PlainAround.closeRun {s : Sketch} (plain : s.PlainAround) : s.closeRun.PlainAround := by
  obtain ⟨levels, run, pending⟩ := s
  cases run with
  | none => exact plain
  | some c => cases levels <;> exact plain

theorem Sketch.PlainAround.outside {level : Level} {head : Option Head}
    (plain : Sketch.PlainAround ⟨level :: ⟨head, nodes⟩ :: outer, run, pending⟩)
    (siblings : List Outline) :
    Sketch.inCode ⟨⟨head, siblings⟩ :: outer, run', pending'⟩ = false := by
  cases head with
  | none => rfl
  | some head => exact plain ⟨some head, nodes⟩ List.mem_cons_self head rfl

/-- A move keeps the property, if the declaration whose code it ends has it. -/
theorem Sketch.AllCode.move {s t : Sketch} (all : s.AllCode P) (plain : s.PlainAround)
    (closed : ∀ start annotations, s.codeStart? = some start.line → t.inCode = false →
      P { range := ⟨start, l.stop⟩, annotations }) (move : Move l s t) : t.AllCode P := by
  intro found inside code
  rcases closed_move move inside with before | finishes
  · exact all found before code
  · cases finishes with
    | line oneLine settled =>
      rw [Header.hasCode_of_isOneLine oneLine] at code
      cases code
    | @block head innermost outside kept =>
      apply closed head.start head.annotations
      · obtain ⟨levels, run, pending⟩ := s
        cases levels with
        | nil => cases innermost
        | cons level outer =>
          obtain ⟨_, nodes⟩ := level
          cases innermost
          exact if_pos code
      · obtain ⟨levels, run, pending⟩ := t
        cases levels with
        | nil => rfl
        | cons level outer =>
          obtain ⟨around, nodes⟩ := level
          cases around with
          | none => rfl
          | some around =>
            obtain ⟨level, member, found⟩ := outside around rfl
            exact plain level member around found

/-- The code that the reader is in after a line has been open before it, or its header is on the line. -/
theorem codeStart?_act {s t : Sketch} (plain : s.PlainAround) (outside : s.inCode = false)
    (act : Act l s t) {start : Nat} (found : t.codeStart? = some start) : start = l.index := by
  have none : ∀ {u : Sketch}, u.inCode = false → u.codeStart? ≠ some start := by
    intro u outside found
    rw [Sketch.codeStart?_of_outside outside] at found
    cases found
  cases act with
  | rest kept => exact absurd found (none outside)
  | annotate name _ => exact absurd found (none outside)
  | item reads oneLine taken => exact absurd found (none outside)
  | member inEnum reads => exact absurd found (none outside)
  | openBlock reads block =>
    simp only [Sketch.codeStart?] at found
    split at found
    · exact (Option.some.inj found).symm
    · cases found
  | closeBlock => exact absurd found (none (plain.outside _))

theorem codeStart?_move {s t : Sketch} (plain : s.PlainAround) (move : Move l s t) {start : Nat}
    (found : t.codeStart? = some start) : s.codeStart? = some start ∨ start = l.index := by
  cases move with
  | inCode inside => exact Or.inl found
  | endCode code =>
    rw [Sketch.codeStart?_of_outside (plain.outside _)] at found
    cases found
  | gather outside comment =>
    obtain ⟨levels, run, pending⟩ := s
    cases run <;> exact Or.inl found
  | act outside code act =>
    exact Or.inr (codeStart?_act plain.closeRun (s.inCode_closeRun.trans outside) act found)

end Moves

/-- What the reader can tell of its past: it has been in the body of code that it is in since the line
after the header, and it skipped the bodies of all functions that it has read. -/
structure ReaderState.Remembers (dialect : Dialect) (lines : List (List Char)) (index : Nat)
    (s : ReaderState) : Prop where
  now : stateBefore dialect lines index = .ok s
  code : ∀ start ∈ s.sketch.codeStart?, ∀ i, start < i → i ≤ index → InCodeFrom dialect lines start i
  skipped : s.sketch.AllCode (Placement.Skipped dialect lines)

theorem ReaderState.Remembers.step {lines : List (List Char)} {index : Nat} {text : List Char}
    {s t : ReaderState} (remembers : s.Remembers dialect lines index) (here : lines[index]? = some text)
    (stepped : (s.step dialect ⟨index, text⟩).result = .ok t) :
    t.Remembers dialect lines (index + 1) := by
  have now : stateBefore dialect lines (index + 1) = .ok t :=
    (stateBefore_succ here remembers.now).trans stepped
  have move := move_of_step stepped
  refine ⟨now, ?_, remembers.skipped.move s.plainAround ?_ move⟩
  · intro start found i after upTo
    rcases Nat.lt_or_eq_of_le upTo with before | rfl
    · rcases codeStart?_move s.plainAround move found with open_ | same
      · exact remembers.code start open_ i after (Nat.le_of_lt_succ before)
      · exact absurd after (by rw [same]; exact Nat.not_lt_of_le (Nat.le_of_lt_succ before))
    · exact ⟨t, now, found⟩
  · intro start annotations inside outside
    exact ⟨remembers.code start.line inside, t, now, outside⟩

/-- The bodies of all functions of a tree have been skipped. -/
theorem skipped_of_readLines {lines : List (List Char)} {statements : List Statement}
    (read : (readLines dialect lines).result = .ok statements) :
    ∀ found ∈ declarationsOf (outlines statements), found.1.hasCode = true →
      found.2.Skipped dialect lines := by
  obtain ⟨t, read, finished⟩ := readLines_ok read
  have remembers : t.Remembers dialect lines lines.length := by
    apply state_of_read read
    · refine ⟨rfl, ?_, ?_⟩
      · intro start found
        cases found
      · intro found inside
        rw [closed_start] at inside
        cases inside
    · intro index text s u here remembers stepped
      exact remembers.step here stepped
  intro found inside
  exact remembers.skipped found (closed_of_finish finished inside)

/-- The function without the column where it ends, if its header is on the given line. -/
def FunctionDecl.forgetEnd (line : Nat) (f : FunctionDecl) : FunctionDecl :=
  if f.placement.range.start.line = line then
    { f with placement := { f.placement with
        range := { f.placement.range with stop := { line := f.placement.range.stop.line } } } }
  else f

theorem keepsFrom_forgetEnd {line start : Nat} (before : line < start) :
    KeepsFrom start (FunctionDecl.forgetEnd line) := by
  intro f after
  rw [FunctionDecl.forgetEnd, if_neg (by omega)]

/-- Where a function ends on its last line is forgotten with its end. -/
theorem forgetEnd_endingAt (f : FunctionDecl) (index : Nat) (line other : List Char) :
    (f.endingAt ⟨index, other⟩).forgetEnd f.placement.range.start.line =
      (f.endingAt ⟨index, line⟩).forgetEnd f.placement.range.start.line := by
  simp [FunctionDecl.forgetEnd, FunctionDecl.endingAt, SourceLine.stop]

/-- A line of a body of code may be exchanged for a line that is alike: the reader goes to the same
state, but for the column where the function ends, if the line ends it. -/
theorem ReaderState.step_of_alike {s t : ReaderState} {start : Nat}
    (inside : s.sketch.codeStart? = some start) {line other : List Char}
    (alike : Line.Alike line other) {index : Nat}
    (stepped : (s.step dialect ⟨index, line⟩).result = .ok t) :
    ∃ t', (s.step dialect ⟨index, other⟩).result = .ok t' ∧
      (t.sketch.inCode = true → t' = t) ∧
      (t.sketch.inCode = false → t'.sketch.inCode = false ∧
        t'.recast (.forgetEnd start) [] = t.recast (.forgetEnd start) []) := by
  have depth := fun left => bodyDepth_of_alike alike left index
  have found := focus_of_inCode (Sketch.inCode_of_codeStart? inside)
  obtain ⟨frames, items, focus, run, pending⟩ := s
  obtain ⟨f, left, rfl⟩ | ⟨b, m, left, rfl⟩ := found
  · cases inside
    simp only [step, depth left] at stepped ⊢
    split at stepped
    · cases stepped
      refine ⟨_, rfl, ?_, ?_⟩
      · intro still
        cases frames <;> cases still
      · intro outside
        refine ⟨by cases frames <;> rfl, ?_⟩
        simp only [recast, push, List.map_cons, Statement.recast, forgetEnd_endingAt f index line other]
    · exact ⟨t, stepped, fun _ => rfl, fun outside => ⟨outside, rfl⟩⟩
  · cases inside
    simp only [step, depth left] at stepped ⊢
    split at stepped
    · cases stepped
      refine ⟨_, rfl, ?_, ?_⟩
      · intro still
        cases still
      · intro outside
        refine ⟨rfl, ?_⟩
        simp only [recast, Focus.recast, OpenBlock.mapBody, OpenBlock.push, List.map_cons,
          ClassItem.recast, forgetEnd_endingAt m.function index line other]
    · exact ⟨t, stepped, fun _ => rfl, fun outside => ⟨outside, rfl⟩⟩

/-- The lines of the text below the first line of a stretch, down to its last one. -/
def Range.linesBelow (lines : List (List Char)) (r : Range) : List (List Char) :=
  (lines.drop (r.start.line + 1)).take (r.stop.line - r.start.line)

/-- The lines differ in texts only, and only below the first line of the stretch, down to its last. -/
structure ChangedWithin (r : Range) (lines others : List (List Char)) : Prop where
  above : others.take (r.start.line + 1) = lines.take (r.start.line + 1)
  inside : List.Forall₂ Line.Alike (r.linesBelow lines) (r.linesBelow others)
  below : others.drop (r.stop.line + 1) = lines.drop (r.stop.line + 1)

section Changed

variable {p : Placement} {lines others : List (List Char)}

/-- A line of the stretch, and what it is exchanged for. -/
theorem ChangedWithin.at {r : Range} (changed : ChangedWithin r lines others) {index : Nat}
    (after : r.start.line < index) (upTo : index ≤ r.stop.line) (within : r.stop.line < lines.length) :
    ∃ line other, lines[index]? = some line ∧ others[index]? = some other ∧ Line.Alike line other := by
  obtain ⟨offset, rfl⟩ : ∃ offset, index = r.start.line + 1 + offset := Nat.exists_eq_add_of_le after
  have inLines : offset < (r.linesBelow lines).length := by
    simp only [Range.linesBelow, List.length_take, List.length_drop]
    omega
  have inOthers : offset < (r.linesBelow others).length := changed.inside.length_eq ▸ inLines
  have found : ∀ {text : List (List Char)} (inText : offset < (r.linesBelow text).length),
      text[r.start.line + 1 + offset]? = some ((r.linesBelow text).get ⟨offset, inText⟩) := by
    intro text inText
    rw [List.get_eq_getElem, ← List.getElem?_eq_getElem inText, Range.linesBelow,
      List.getElem?_take_of_lt (by omega), List.getElem?_drop]
  exact ⟨_, _, found inLines, found inOthers, changed.inside.get inLines inOthers⟩

/-- Up to the last line of a function the reader goes through the same states. -/
theorem stateBefore_of_changed (skipped : p.Skipped dialect lines)
    (changed : ChangedWithin p.range lines others)
    (within : p.range.stop.line < lines.length) {index : Nat} (after : p.range.start.line < index)
    (upTo : index ≤ p.range.stop.line) :
    stateBefore dialect others index = stateBefore dialect lines index := by
  induction index, after using Nat.le_induction with
  | base => rw [stateBefore, changed.above, stateBefore]
  | succ index after ih =>
    have upTo' : index ≤ p.range.stop.line := Nat.le_of_succ_le upTo
    obtain ⟨s, now, inside⟩ := skipped.inside index after upTo'
    obtain ⟨t, next, still⟩ := skipped.inside (index + 1) (Nat.lt_succ_of_lt after) upTo
    obtain ⟨line, other, here, there, alike⟩ := changed.at after upTo' within
    have stepped : (s.step dialect ⟨index, line⟩).result = .ok t :=
      (stateBefore_succ here now).symm.trans next
    obtain ⟨t', stepped', kept, -⟩ := ReaderState.step_of_alike inside alike stepped
    rw [stateBefore_succ there ((ih upTo').trans now), stepped', next,
      kept (Sketch.inCode_of_codeStart? still)]

/-- After the last line the states differ in the column where the function ends. -/
theorem stateAfter_of_changed (skipped : p.Skipped dialect lines)
    (changed : ChangedWithin p.range lines others)
    (within : p.range.stop.line < lines.length) (ordered : p.range.start.line < p.range.stop.line) :
    ∃ t t', stateBefore dialect lines (p.range.stop.line + 1) = .ok t ∧
      stateBefore dialect others (p.range.stop.line + 1) = .ok t' ∧
      t.sketch.inCode = false ∧ t'.sketch.inCode = false ∧
      t'.recast (.forgetEnd p.range.start.line) [] = t.recast (.forgetEnd p.range.start.line) [] := by
  obtain ⟨s, now, inside⟩ := skipped.inside p.range.stop.line ordered (Nat.le_refl _)
  obtain ⟨t, next, outside⟩ := skipped.closed
  obtain ⟨line, other, here, there, alike⟩ := changed.at ordered (Nat.le_refl _) within
  have stepped : (s.step dialect ⟨p.range.stop.line, line⟩).result = .ok t :=
    (stateBefore_succ here now).symm.trans next
  obtain ⟨t', stepped', -, closed⟩ := ReaderState.step_of_alike inside alike stepped
  have now' := (stateBefore_of_changed skipped changed within ordered (Nat.le_refl _)).trans now
  exact ⟨t, t', next, (stateBefore_succ there now').trans stepped', outside, closed outside⟩

/-- Two values that are changed to the same one are there together. -/
theorem exists_ok_of_map_eq {α β : Type} {f : α → β} {first second : Except ParseError α} {value : α}
    (same : second.map f = first.map f) (found : first = .ok value) :
    ∃ other, second = .ok other ∧ f other = f value := by
  subst found
  cases second with
  | error e => cases same
  | ok other => exact ⟨other, rfl, Except.ok.inj same⟩

/-- States that differ in where a function ends, with no code open, are followed by trees that differ
in nothing else. -/
theorem finish_of_recast_eq {g : FunctionDecl → FunctionDecl} {start : Nat} (keeps : KeepsFrom start g)
    {s s' t : ReaderState} (outside : s.sketch.inCode = false) (outside' : s'.sketch.inCode = false)
    (same : s'.recast g [] = s.recast g []) {rest : List (List Char)} {statements : List Statement}
    (read : (readFrom dialect start s rest).result = .ok t) (finished : t.finish = .ok statements) :
    ∃ t' statements', (readFrom dialect start s' rest).result = .ok t' ∧ t'.finish = .ok statements' ∧
      statements'.map (Statement.recast g) = statements.map (Statement.recast g) := by
  have results : (readFrom dialect start s' rest).result.map (ReaderState.recast g []) =
      (readFrom dialect start s rest).result.map (ReaderState.recast g []) := by
    have run := @readFrom_recast dialect g [] start keeps rest start
    have first := run s (ReaderState.opensFrom_of_outside outside start) (Nat.le_refl _) (Or.inl rfl)
    have second := run s' (ReaderState.opensFrom_of_outside outside' start) (Nat.le_refl _) (Or.inl rfl)
    rw [same, first] at second
    exact congrArg Outcome.result second.symm
  obtain ⟨t', read', alike⟩ := exists_ok_of_map_eq results read
  have ends : t'.finish.map (List.map (Statement.recast g)) =
      t.finish.map (List.map (Statement.recast g)) := by
    rw [← ReaderState.finish_recast, ← ReaderState.finish_recast, alike]
  obtain ⟨statements', finished', alike⟩ := exists_ok_of_map_eq ends finished
  exact ⟨t', statements', read', finished', alike⟩

/-- A text may be changed in the skipped lines of one function. -/
theorem readLines_of_changed {statements : List Statement}
    (read : (readLines dialect lines).result = .ok statements) (skipped : p.Skipped dialect lines)
    (changed : ChangedWithin p.range lines others) (within : p.range.stop.line < lines.length)
    (ordered : p.range.start.line < p.range.stop.line) :
    ∃ statements', (readLines dialect others).result = .ok statements' ∧
      statements'.map (Statement.recast (.forgetEnd p.range.start.line)) =
        statements.map (Statement.recast (.forgetEnd p.range.start.line)) := by
  obtain ⟨t, t', before, before', outside, outside', same⟩ :=
    stateAfter_of_changed skipped changed within ordered
  obtain ⟨-, last, -, there, -⟩ := changed.at ordered (Nat.le_refl _) within
  -- Both texts go on with the same lines after the end of the function.
  have cut : ∀ {text : List (List Char)} {u : ReaderState}, p.range.stop.line < text.length →
      stateBefore dialect text (p.range.stop.line + 1) = .ok u → (readFrom dialect 0 {} text).result =
        (readFrom dialect (p.range.stop.line + 1) u (text.drop (p.range.stop.line + 1))).result := by
    intro text u within before
    have parts := readFrom_ok_append before (text.drop (p.range.stop.line + 1))
    rw [List.take_append_drop, List.length_take, Nat.min_eq_left within, Nat.zero_add] at parts
    exact parts
  obtain ⟨end_, readAll, finished⟩ := readLines_ok read
  rw [cut within before] at readAll
  obtain ⟨end', statements', readAll', finished', alike⟩ :=
    finish_of_recast_eq (keepsFrom_forgetEnd (by omega)) outside outside' same readAll finished
  refine ⟨statements', ?_, alike⟩
  rw [readLines_result, cut (List.getElem?_eq_some_iff.mp there).1 before', changed.below, readAll']
  exact finished'

end Changed

/-- Texts in literals and comments of a body of code are inert: for every function and method of the
tree of a source, changing them below its header gives a source with the same tree, but for the column
where the function ends. -/
theorem texts_in_code_inert (dialect : Dialect) (source changed : String) (statements : List Statement)
    (parsed : (parse dialect source).result = .ok statements) (header : Header) (p : Placement)
    (declared : (header, p) ∈ declarationsOf (outlines statements))
    (isFunction : header.signature?.isSome = true)
    (textsOnly : ChangedWithin p.range (Text.lines source.toList) (Text.lines changed.toList)) :
    ∃ statements', (parse dialect changed).result = .ok statements' ∧
      statements'.map (Statement.recast (.forgetEnd p.range.start.line)) =
        statements.map (Statement.recast (.forgetEnd p.range.start.line)) := by
  have placed := (outlined_of_parse parsed).declared declared
  have read : (readLines dialect (Text.lines source.toList)).result = .ok statements := parsed
  cases oneLine : header.isOneLine with
  | true =>
    -- A method of an interface has no lines below its header.
    have same : Text.lines changed.toList = Text.lines source.toList := by
      have below := textsOnly.below
      rw [placed.oneLine oneLine] at below
      rw [← List.take_append_drop (p.range.start.line + 1) (Text.lines changed.toList),
        textsOnly.above, below, List.take_append_drop]
    refine ⟨statements, ?_, rfl⟩
    rw [parse, same]
    exact read
  | false =>
    have code := Header.hasCode_of_signature? isFunction oneLine
    obtain ⟨line, last, -⟩ := placed.valid.stop
    obtain ⟨statements', read', alike⟩ := readLines_of_changed read
      (skipped_of_readLines read (header, p) declared code) textsOnly
      (List.getElem?_eq_some_iff.mp last).1 (placed.block oneLine)
    exact ⟨statements', read', alike⟩

/-- An `end sub` in a literal, one in a comment line and one after the code of the last line of a
method. -/
theorem ends_in_texts_inert :
    let source := "class C\nsub f()\nx = \"\"'a\n' b\nend sub'\nend class"
    let changed := "class C\nsub f()\nx = \"end sub\"'\"\nrem end sub\nend sub' end sub\nend class"
    ∃ statements statements', (parse .brighterScript source).result = .ok statements ∧
      (parse .brighterScript changed).result = .ok statements' ∧
      statements'.map (Statement.recast (.forgetEnd 1)) =
        statements.map (Statement.recast (.forgetEnd 1)) := by
  intro source changed
  let method : Range := ⟨⟨1, 0⟩, ⟨4, 8⟩⟩
  have run : (parse .brighterScript source).result.toOption.map
      (fun statements => (declarationsOf (outlines statements)).map
        fun found => (found.1.signature?.isSome, found.2.range)) =
      some [(false, ⟨⟨0, 0⟩, ⟨5, 9⟩⟩), (true, method)] := by decide +kernel
  have textsOnly : ChangedWithin method (Text.lines source.toList) (Text.lines changed.toList) := by
    refine ⟨by decide +kernel, ?_, by decide +kernel⟩
    have lines : method.linesBelow (Text.lines source.toList) =
        ["x = ".toList ++ ['"', '"', '\'', 'a'], "' b".toList, "end sub".toList ++ ['\'']] := by
      decide +kernel
    have others : method.linesBelow (Text.lines changed.toList) =
        ["x = ".toList ++ '"' :: ("end sub".toList ++ ['"', '\'', '"']), "rem end sub".toList,
          "end sub".toList ++ '\'' :: " end sub".toList] := by decide +kernel
    rw [lines, others]
    refine .cons (Or.inl ?_) (.cons (Or.inr (by decide)) (.cons (Or.inl ?_) .nil))
    · have literal : Line.SameCode ['"', '"', '\'', 'a']
          ('"' :: ("end sub".toList ++ ['"', '\'', '"'])) :=
        .literal List.not_mem_nil (by decide) (.comment ['a'] ['"'])
      exact literal.after _ (by decide) (by decide)
    · exact (Line.SameCode.comment [] " end sub".toList).after _ (by decide) (by decide)
  cases parsed : (parse .brighterScript source).result with
  | error e =>
    rw [parsed] at run
    cases run
  | ok statements =>
    rw [parsed] at run
    have listed := Option.some.inj run
    obtain ⟨⟨header, p⟩, declared, same⟩ := List.mem_map.mp
      (listed ▸ List.mem_cons_of_mem _ (List.mem_singleton_self (true, method)))
    obtain ⟨isFunction, rangeEq⟩ := Prod.mk.inj same
    obtain ⟨statements', parsed', alike⟩ := texts_in_code_inert .brighterScript source changed
      statements parsed header p declared isFunction (rangeEq ▸ textsOnly)
    dsimp only at rangeEq
    rw [rangeEq] at alike
    exact ⟨statements, statements', rfl, parsed', alike⟩

end BrightDoc
