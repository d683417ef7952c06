import BrightDoc.Proofs.Line.Reindented
import BrightDoc.Proofs.Reader.Bodies
import BrightDoc.Proofs.Reader.Concatenation
import BrightDoc.Proofs.Tree.Relocate

/-! # Readers of lines with other blanks before them

Two readers that have read the same but for the columns, each before a line of its own that agrees with
that of the other after its blanks, have read the same after it, or are refused with the same error. So
two texts whose lines agree in this way have the same tree but for the columns, and the same warnings. -/

namespace BrightDoc

variable {dialect : Dialect}

open Position (flat)

/-- The outcomes have the same warnings, and related results or the same error. -/
def Outcome.Agrees {α : Type} (R : α → α → Prop) (first second : Outcome α) : Prop :=
  first.warnings = second.warnings ∧
    match first.result, second.result with
    | .ok a, .ok b => R a b
    | .error e, .error e' => e = e'
    | _, _ => False

section Agrees

variable {α β : Type} {R : α → α → Prop} {S : β → β → Prop} {first second : Outcome α}

theorem agrees_ok {a b : α} (related : R a b) : (Outcome.ok a).Agrees R (.ok b) :=
  ⟨rfl, related⟩

theorem agrees_fail (error : ParseError) : (Outcome.fail error).Agrees R (.fail error) :=
  ⟨rfl, rfl⟩

theorem Outcome.Agrees.warn (agrees : first.Agrees R second) (warning : Warning) :
    (first.warn warning).Agrees R (second.warn warning) :=
  ⟨congrArg (warning :: ·) agrees.1, agrees.2⟩

theorem Outcome.Agrees.feature (agrees : first.Agrees R second) (dialect : Dialect)
    (warning : Warning) :
    (first.feature dialect warning).Agrees R (second.feature dialect warning) := by
  cases dialect with
  | brightScript => exact agrees.warn warning
  | brighterScript => exact agrees

theorem Outcome.Agrees.andThen (agrees : first.Agrees R second) {next other : α → Outcome β}
    (related : ∀ a b, R a b → (next a).Agrees S (other b)) :
    (first.andThen next).Agrees S (second.andThen other) := by
  obtain ⟨warnings, result⟩ := first
  obtain ⟨warnings', result'⟩ := second
  obtain ⟨told, results⟩ := agrees
  dsimp only at told
  subst told
  match result, result' with
  | .ok a, .ok b =>
    obtain ⟨more, results⟩ := related a b results
    exact ⟨congrArg (warnings ++ ·) more, results⟩
  | .error e, .error e' => exact ⟨rfl, results⟩
  | .ok a, .error e => exact absurd results id
  | .error e, .ok b => exact absurd results id

end Agrees

/-- The lines have the same number, and agree after the blanks that they start with. -/
structure SourceLine.Reindented (l l' : SourceLine) : Prop where
  index : l.index = l'.index
  text : Line.Reindented l.text l'.text

namespace SourceLine.Reindented

variable {l l' : SourceLine} (same : l.Reindented l')

include same

theorem number : l.number = l'.number := by
  rw [SourceLine.number, SourceLine.number, same.index]

theorem code : Line.Reindented l.code l'.code :=
  same.text.code

/-- Places on the two lines differ in their columns only. -/
theorem onLine (first second : Nat) :
    flat ⟨l.index, first⟩ = flat ⟨l'.index, second⟩ := by
  rw [flat, flat, same.index]

theorem range : l.range.relocate flat = l'.range.relocate flat := by
  simp only [SourceLine.range, Range.relocate, SourceLine.start, SourceLine.stop, flat, same.index]

theorem codeRange : l.codeRange.relocate flat = l'.codeRange.relocate flat := by
  simp only [SourceLine.codeRange, Range.relocate, SourceLine.start, flat, same.index]

theorem trailing? :
    l.trailing?.map (Comment.relocate flat) = l'.trailing?.map (Comment.relocate flat) := by
  simp only [SourceLine.trailing?, same.text.comment_eq, Option.map_map]
  congr 1
  funext text
  simp only [Function.comp_apply, Comment.relocate, Range.relocate, Range.onLine, flat, same.index]

/-- The comment that ends the line, as items of the list it goes to. -/
theorem trailing {Item : Type} {comment : Comment → Item} {item : Item → Item}
    (comments : ∀ c : Comment, item (comment c) = comment (c.relocate flat)) :
    (l.trailing?.map comment).toList.map item = (l'.trailing?.map comment).toList.map item := by
  have flattened : ∀ found : Option Comment, (found.map comment).toList.map item =
      ((found.map (Comment.relocate flat)).map comment).toList := by
    intro found
    cases found with
    | none => rfl
    | some c => simp [comments]
  rw [flattened, flattened, same.trailing?]

theorem malformed (construct : Construct) {text text' : List Char}
    (alike : Line.Reindented text text') : l.malformed construct text = l'.malformed construct text' := by
  rw [SourceLine.malformed, SourceLine.malformed, same.number, alike.trim_eq]

theorem params (texts : List (List Char)) : l.params texts = l'.params texts := by
  induction texts with
  | nil => rfl
  | cons text more ih => rw [SourceLine.params, SourceLine.params, ih, same.malformed _ rfl]

/-- A function header on the two lines gives the same function, or the same error. -/
theorem function (header : Line.FunctionHeader) {annotations annotations' : List Annotation}
    (above : annotations.map (·.relocate flat) = annotations'.map (·.relocate flat)) :
    (l.function header annotations).map (FunctionDecl.relocate flat) =
      (l'.function header annotations').map (FunctionDecl.relocate flat) := by
  rw [SourceLine.function, SourceLine.function, same.params]
  cases l'.params (Line.parameterTexts header.params) with
  | error e => rfl
  | ok params =>
    simp only [Except.map, FunctionDecl.relocate, Placement.relocate, above, same.range]

theorem endingAt {f f' : FunctionDecl} (function : f.relocate flat = f'.relocate flat) :
    (f.endingAt l).relocate flat = (f'.endingAt l').relocate flat := by
  obtain ⟨name, kind, params, returns, placement⟩ := FunctionDecl.mk.inj function
  obtain ⟨ranges, annotations⟩ := Placement.mk.inj placement
  obtain ⟨start, -⟩ := Range.mk.inj ranges
  simp only [FunctionDecl.relocate, FunctionDecl.endingAt, Placement.relocate, Range.relocate, name,
    kind, params, returns, start, annotations, SourceLine.stop, same.onLine _ (Line.endColumn l'.text)]

theorem bodyDepth (depth : Nat) : BrightDoc.bodyDepth depth l = BrightDoc.bodyDepth depth l' := by
  rw [BrightDoc.bodyDepth, BrightDoc.bodyDepth, same.text.isComment_eq,
    same.code.openedFunctions_eq, same.code.closedFunctions_eq]

end SourceLine.Reindented

/-- The trees are the same but for their columns. -/
def SameTree (first second : List Statement) : Prop :=
  first.map (Statement.relocate flat) = second.map (Statement.relocate flat)

section SameTree

variable {first second : List Statement}

theorem SameTree.cons (same : SameTree first second) {statement statement' : Statement}
    (alike : statement.relocate flat = statement'.relocate flat) :
    SameTree (statement :: first) (statement' :: second) :=
  congrArg₂ List.cons alike same

theorem SameTree.append (same : SameTree first second) {before before' : List Statement}
    (alike : SameTree before before') : SameTree (before ++ first) (before' ++ second) := by
  rw [SameTree, List.map_append, List.map_append, alike, same]

theorem SameTree.reverse (same : SameTree first second) : SameTree first.reverse second.reverse := by
  rw [SameTree, List.map_reverse, List.map_reverse, same]

end SameTree

/-- The open blocks are the same but for their columns. -/
structure OpenBlock.Same {Item : Type} (item : Item → Item) (b b' : OpenBlock Item) : Prop where
  name : b.name = b'.name
  parent : b.parent = b'.parent
  start : flat b.start = flat b'.start
  annotations : b.annotations.map (·.relocate flat) = b'.annotations.map (·.relocate flat)
  body : b.body.map item = b'.body.map item

/-- The open namespaces are the same but for their columns. -/
structure NamespaceFrame.Same (f f' : NamespaceFrame) : Prop where
  name : f.name = f'.name
  start : flat f.start = flat f'.start
  annotations : f.annotations.map (·.relocate flat) = f'.annotations.map (·.relocate flat)
  before : SameTree f.before f'.before

/-- The next line belongs to the same, but for the columns. -/
inductive Focus.Same : Focus → Focus → Prop where
  | statements : Same .statements .statements
  | functionBody {f f' : FunctionDecl} (depth : Nat)
      (function : f.relocate flat = f'.relocate flat) :
      Same (.functionBody f depth) (.functionBody f' depth)
  | classBody {b b' : OpenBlock ClassItem} (block : b.Same (ClassItem.relocate flat) b') :
      Same (.classBody b) (.classBody b')
  | methodBody {b b' : OpenBlock ClassItem} {m m' : Method} (depth : Nat)
      (block : b.Same (ClassItem.relocate flat) b') (method : m.relocate flat = m'.relocate flat) :
      Same (.methodBody b m depth) (.methodBody b' m' depth)
  | interfaceBody {b b' : OpenBlock InterfaceItem} (block : b.Same (InterfaceItem.relocate flat) b') :
      Same (.interfaceBody b) (.interfaceBody b')
  | enumBody {b b' : OpenBlock EnumItem} (next : Option Int)
      (block : b.Same (EnumItem.relocate flat) b') : Same (.enumBody b next) (.enumBody b' next)

/-- The readers have read the same, but for the columns. -/
structure ReaderState.Same (s s' : ReaderState) : Prop where
  frames : List.Forall₂ NamespaceFrame.Same s.frames s'.frames
  items : SameTree s.items s'.items
  focus : s.focus.Same s'.focus
  run : s.run.map (Comment.relocate flat) = s'.run.map (Comment.relocate flat)
  pending : s.pending.map (·.relocate flat) = s'.pending.map (·.relocate flat)

section Blocks

variable {Item : Type} {item : Item → Item} {b b' : OpenBlock Item} {l l' : SourceLine}

theorem OpenBlock.Same.push (same : b.Same item b') {member member' : Item}
    (alike : item member = item member') : (b.push member).Same item (b'.push member') :=
  ⟨same.name, same.parent, same.start, same.annotations, by
    rw [OpenBlock.push, OpenBlock.push, List.map_cons, List.map_cons, alike, same.body]⟩

/-- The comment that ends a line goes to the block that the line belongs to. -/
theorem OpenBlock.Same.push? (same : b.Same item b') (lines : l.Reindented l')
    {comment : Comment → Item} (comments : ∀ c : Comment, item (comment c) = comment (c.relocate flat)) :
    (b.push? (l.trailing?.map comment)).Same item (b'.push? (l'.trailing?.map comment)) :=
  ⟨same.name, same.parent, same.start, same.annotations, by
    rw [OpenBlock.push?, OpenBlock.push?, List.map_append, List.map_append, lines.trailing comments,
      same.body]⟩

theorem OpenBlock.Same.placement (same : b.Same item b') (lines : l.Reindented l') :
    (b.placement l).relocate flat = (b'.placement l').relocate flat := by
  simp only [OpenBlock.placement, Placement.relocate, Range.relocate, same.start, same.annotations,
    SourceLine.stop, lines.onLine _ (Line.endColumn l'.text)]

end Blocks

namespace ReaderState

variable {s s' : ReaderState} {l l' : SourceLine}

theorem Same.push (same : s.Same s') {statement statement' : Statement}
    (alike : statement.relocate flat = statement'.relocate flat) :
    (s.push statement).Same (s'.push statement') :=
  ⟨same.frames, same.items.cons alike, .statements, same.run, same.pending⟩

theorem Same.annotate (same : s.Same s') (lines : l.Reindented l') (name : List Char) :
    (s.annotate l name).Same (s'.annotate l' name) := by
  refine ⟨same.frames, same.items, same.focus, same.run, ?_⟩
  rw [ReaderState.annotate, ReaderState.annotate, List.map_append, List.map_append, same.pending,
    List.map_singleton, List.map_singleton, Annotation.relocate, Annotation.relocate, lines.range]

/-- No reader waits for the end of comment lines, or both do, after the same comment lines. -/
theorem Same.run_cases (same : s.Same s') : s.run = none ∧ s'.run = none ∨
    ∃ c c', s.run = some c ∧ s'.run = some c' ∧ c.relocate flat = c'.relocate flat := by
  have run := same.run
  cases found : s.run with
  | none =>
    rw [found, Option.map_none] at run
    exact Or.inl ⟨rfl, Option.map_eq_none_iff.mp run.symm⟩
  | some c =>
    rw [found, Option.map_some] at run
    obtain ⟨c', found', alike⟩ := Option.map_eq_some_iff.mp run.symm
    exact Or.inr ⟨c, c', rfl, found', alike.symm⟩

theorem Same.addComment (same : s.Same s') (lines : l.Reindented l') :
    (s.addComment l).Same (s'.addComment l') := by
  rcases same.run_cases with ⟨free, free'⟩ | ⟨c, c', held, held', alike⟩
  · rw [ReaderState.addComment, ReaderState.addComment, free, free']
    refine ⟨same.frames, same.items, same.focus, ?_, same.pending⟩
    simp only [Option.map_some, Comment.ofLine, Comment.relocate, lines.text.trim_eq, lines.range]
  · rw [ReaderState.addComment, ReaderState.addComment, held, held']
    refine ⟨same.frames, same.items, same.focus, ?_, same.pending⟩
    obtain ⟨text, ranges⟩ := Comment.mk.inj alike
    obtain ⟨start, -⟩ := Range.mk.inj ranges
    simp only [Option.map_some, Comment.extend, Comment.relocate, Range.relocate, text, start,
      lines.text.trim_eq, SourceLine.stop, lines.onLine _ (Line.endColumn l'.text)]

theorem Same.pushComment (same : s.Same s') {c c' : Comment}
    (alike : c.relocate flat = c'.relocate flat) : (s.pushComment c).Same (s'.pushComment c') := by
  obtain ⟨frames, items, focus, run, pending⟩ := s
  obtain ⟨frames', items', focus', run', pending'⟩ := s'
  obtain ⟨sameFrames, sameItems, sameFocus, sameRun, samePending⟩ := same
  cases sameFocus with
  | statements =>
    refine ⟨sameFrames, ?_, .statements, sameRun, samePending⟩
    have statement : (Statement.comment c).relocate flat = (Statement.comment c').relocate flat := by
      rw [Statement.relocate, Statement.relocate, alike]
    exact sameItems.cons statement
  | classBody block =>
    exact ⟨sameFrames, sameItems, .classBody (block.push (congrArg ClassItem.comment alike)), sameRun,
      samePending⟩
  | interfaceBody block =>
    exact ⟨sameFrames, sameItems, .interfaceBody (block.push (congrArg InterfaceItem.comment alike)),
      sameRun, samePending⟩
  | enumBody next block =>
    exact ⟨sameFrames, sameItems, .enumBody next (block.push (congrArg EnumItem.comment alike)), sameRun,
      samePending⟩
  | functionBody depth function =>
    exact ⟨sameFrames, sameItems, .functionBody depth function, sameRun, samePending⟩
  | methodBody depth block method =>
    exact ⟨sameFrames, sameItems, .methodBody depth block method, sameRun, samePending⟩

theorem Same.closeRun (same : s.Same s') : s.closeRun.Same s'.closeRun := by
  rcases same.run_cases with ⟨free, free'⟩ | ⟨c, c', held, held', alike⟩
  · rw [ReaderState.closeRun, ReaderState.closeRun, free, free']
    exact same
  · rw [ReaderState.closeRun, ReaderState.closeRun, held, held']
    obtain ⟨frames, items, focus, -, pending⟩ := same.pushComment alike
    exact ⟨frames, items, focus, rfl, pending⟩

theorem agrees_strayEnd (lines : l.Reindented l') (word : List Char) :
    (strayEnd l word).Agrees Same (strayEnd l' word) := by
  rw [strayEnd, strayEnd, lines.number]
  exact agrees_fail _

theorem agrees_malformed (lines : l.Reindented l') (construct : Construct) :
    (Outcome.fail (l.malformed construct l.code)).Agrees Same
      (.fail (l'.malformed construct l'.code)) := by
  rw [lines.malformed construct lines.code]
  exact agrees_fail _

theorem agrees_annotation (same : s.Same s') (lines : l.Reindented l') (name : List Char) :
    (s.annotationLine dialect l name).Agrees Same (s'.annotationLine dialect l' name) := by
  rw [annotationLine, annotationLine, lines.number]
  exact (agrees_ok (same.annotate lines name)).feature _ _

/-- Going on from the header of a function. -/
theorem agrees_function (same : s.Same s') (lines : l.Reindented l') (header : Line.FunctionHeader)
    {next next' : FunctionDecl → ReaderState}
    (related : ∀ f f', f.relocate flat = f'.relocate flat → (next f).Same (next' f')) :
    Outcome.Agrees Same
      (match l.function header s.pending with
        | .ok f => Outcome.ok (next f)
        | .error error => .fail error)
      (match l'.function header s'.pending with
        | .ok f => Outcome.ok (next' f)
        | .error error => .fail error) := by
  have alike := lines.function header same.pending
  cases found : l.function header s.pending with
  | ok f =>
    cases found' : l'.function header s'.pending with
    | ok f' =>
      rw [found, found'] at alike
      exact agrees_ok (related f f' (Except.ok.inj alike))
    | error e =>
      rw [found, found'] at alike
      cases alike
  | error e =>
    cases found' : l'.function header s'.pending with
    | ok f =>
      rw [found, found'] at alike
      cases alike
    | error e' =>
      rw [found, found'] at alike
      cases alike
      exact agrees_fail e

theorem agrees_endNamespace (same : s.Same s') (lines : l.Reindented l') (word : List Char) :
    (s.endNamespace l word).Agrees Same (s'.endNamespace l' word) := by
  obtain ⟨frames, items, focus, run, pending⟩ := s
  obtain ⟨frames', items', focus', run', pending'⟩ := s'
  obtain ⟨sameFrames, sameItems, sameFocus, sameRun, samePending⟩ := same
  dsimp only at sameFrames sameItems
  cases sameFrames with
  | nil => exact agrees_strayEnd lines word
  | @cons frame frame' outer outer' alike sameOuter =>
    simp only [endNamespace]
    split
    · refine agrees_ok ⟨sameOuter, alike.before.cons ?_, sameFocus, sameRun, samePending⟩
      have body : items.reverse.map (Statement.relocate flat) =
          items'.reverse.map (Statement.relocate flat) := sameItems.reverse
      simp only [Statement.relocate, relocateEach_eq_map, body, NamespaceHead.relocate,
        Placement.relocate, Range.relocate, alike.name, alike.start, alike.annotations,
        SourceLine.stop, lines.onLine _ (Line.endColumn l'.text)]
    · exact agrees_strayEnd lines word

theorem Same.openBlock (same : s.Same s') (lines : l.Reindented l') {Item : Type} {item : Item → Item}
    {focus : OpenBlock Item → Focus} (blocks : ∀ b b', b.Same item b' → (focus b).Same (focus b'))
    {comment : Comment → Item} (comments : ∀ c : Comment, item (comment c) = comment (c.relocate flat))
    (name : List Char) (parent : Option (List Char)) :
    (s.openBlock l name parent comment focus).Same (s'.openBlock l' name parent comment focus) := by
  refine ⟨same.frames, same.items, blocks _ _ (OpenBlock.Same.push? ?_ lines comments), same.run, rfl⟩
  exact ⟨rfl, rfl, lines.onLine _ _, same.pending, rfl⟩

theorem Same.openNamespace (same : s.Same s') (lines : l.Reindented l') (name : List Char) :
    (s.openNamespace l name).Same (s'.openNamespace l' name) := by
  refine ⟨.cons ⟨rfl, lines.onLine _ _, same.pending, same.items⟩ same.frames, ?_, same.focus,
    same.run, rfl⟩
  exact lines.trailing fun c => by rw [Statement.relocate]

theorem agrees_declare (same : s.Same s') (lines : l.Reindented l') (word : List Char) :
    (s.declare l word).Agrees Same (s'.declare l' word) := by
  unfold declare
  rw [lines.code.inheritingHeader?_eq, lines.code.inheritingHeader?_eq, lines.code.enumHeader?_eq,
    lines.code.namespaceHeader?_eq, lines.code.constant?_eq]
  split
  · cases Line.inheritingHeader? "class" l'.code with
    | none => exact agrees_malformed lines .classHeader
    | some found =>
      exact agrees_ok (same.openBlock lines (fun _ _ => Focus.Same.classBody) (fun _ => rfl) found.1 found.2)
  split
  · cases Line.inheritingHeader? "interface" l'.code with
    | none => exact agrees_malformed lines .interfaceHeader
    | some found =>
      exact agrees_ok (same.openBlock lines (fun _ _ => Focus.Same.interfaceBody) (fun _ => rfl) found.1
        found.2)
  split
  · cases Line.enumHeader? l'.code with
    | none => exact agrees_malformed lines .enumHeader
    | some name =>
      exact agrees_ok (same.openBlock lines (fun _ _ => Focus.Same.enumBody (some 0)) (fun _ => rfl) name none)
  split
  · cases Line.namespaceHeader? l'.code with
    | none => exact agrees_malformed lines .namespaceHeader
    | some name => exact agrees_ok (same.openNamespace lines name)
  · cases Line.constant? l'.code with
    | none => exact agrees_malformed lines .constant
    | some found =>
      refine agrees_ok
        ⟨same.frames, (same.items.cons ?_).append (lines.trailing ?_), same.focus, same.run, rfl⟩
      · simp only [Statement.relocate, ConstDecl.relocate, Placement.relocate, lines.codeRange,
          same.pending]
      · intro c
        rw [Statement.relocate]

theorem agrees_statementLine (same : s.Same s') (lines : l.Reindented l') :
    (s.statementLine dialect l).Agrees Same (s'.statementLine dialect l') := by
  unfold statementLine
  rw [lines.text.annotationName?_eq, lines.code.blockEnd?_eq, lines.code.functionHeader?_eq,
    lines.code.startsFunction_eq, lines.code.declarationWord?_eq]
  cases Line.annotationName? l'.text with
  | some name => exact agrees_annotation same lines name
  | none =>
    cases Line.blockEnd? l'.code with
    | some word => exact agrees_endNamespace same lines word
    | none =>
      cases Line.functionHeader? l'.code with
      | some header =>
        apply agrees_function same lines header
        intro f f' alike
        exact ⟨same.frames, same.items, .functionBody 1 alike, same.run, rfl⟩
      | none =>
        dsimp only
        split
        · exact agrees_malformed lines .functionHeader
        cases Line.declarationWord? l'.code with
        | some word =>
          rw [lines.number]
          exact (agrees_declare same lines word).feature _ _
        | none => exact agrees_ok ⟨same.frames, same.items, same.focus, same.run, rfl⟩

theorem agrees_classLine (same : s.Same s') (lines : l.Reindented l') {b b' : OpenBlock ClassItem}
    (block : b.Same (ClassItem.relocate flat) b') :
    (s.classLine dialect b l).Agrees Same (s'.classLine dialect b' l') := by
  unfold classLine
  rw [lines.text.annotationName?_eq, lines.code.blockEnd?_eq, lines.code.functionHeader?_eq,
    lines.code.startsFunction_eq, lines.code.field?_eq]
  cases Line.annotationName? l'.text with
  | some name => exact agrees_annotation same lines name
  | none =>
    cases Line.blockEnd? l'.code with
    | some word =>
      dsimp only
      split
      · refine agrees_ok (same.push ?_)
        simp only [Statement.relocate, OpenBlock.toClass, ClassDecl.relocate, List.map_reverse,
          block.name, block.parent, block.body, block.placement lines]
      · exact agrees_strayEnd lines word
    | none =>
      cases Line.functionHeader? l'.code with
      | some header =>
        apply agrees_function same lines header
        intro f f' alike
        refine ⟨same.frames, same.items, .methodBody 1 block ?_, same.run, rfl⟩
        rw [Method.relocate, Method.relocate, alike]
      | none =>
        dsimp only
        split
        · exact agrees_malformed lines .methodHeader
        cases Line.field? l'.code with
        | some parts =>
          refine agrees_ok ⟨same.frames, same.items, .classBody ?_, same.run, rfl⟩
          refine (block.push ?_).push? lines fun _ => rfl
          simp only [ClassItem.relocate, Placement.relocate, lines.codeRange, same.pending]
        | none => exact agrees_ok same

theorem agrees_interfaceLine (same : s.Same s') (lines : l.Reindented l')
    {b b' : OpenBlock InterfaceItem} (block : b.Same (InterfaceItem.relocate flat) b') :
    (s.interfaceLine dialect b l).Agrees Same (s'.interfaceLine dialect b' l') := by
  unfold interfaceLine
  rw [lines.text.annotationName?_eq, lines.code.blockEnd?_eq, lines.code.functionHeader?_eq,
    lines.code.interfaceField?_eq]
  cases Line.annotationName? l'.text with
  | some name => exact agrees_annotation same lines name
  | none =>
    cases Line.blockEnd? l'.code with
    | some word =>
      dsimp only
      split
      · refine agrees_ok (same.push ?_)
        simp only [Statement.relocate, OpenBlock.toInterface, InterfaceDecl.relocate,
          List.map_reverse, block.name, block.parent, block.body, block.placement lines]
      · exact agrees_strayEnd lines word
    | none =>
      cases Line.functionHeader? l'.code with
      | some header =>
        apply agrees_function same lines header
        intro f f' alike
        refine ⟨same.frames, same.items, .interfaceBody ?_, same.run, rfl⟩
        refine (block.push ?_).push? lines fun _ => rfl
        rw [InterfaceItem.relocate, InterfaceItem.relocate, alike]
      | none =>
        cases Line.interfaceField? l'.code with
        | some found =>
          refine agrees_ok ⟨same.frames, same.items, .interfaceBody ?_, same.run, rfl⟩
          refine (block.push ?_).push? lines fun _ => rfl
          simp only [InterfaceItem.relocate, lines.codeRange]
        | none => exact agrees_malformed lines .interfaceMember

theorem agrees_enumLine (same : s.Same s') (lines : l.Reindented l') {b b' : OpenBlock EnumItem}
    (block : b.Same (EnumItem.relocate flat) b') (next : Option Int) :
    (s.enumLine b next l).Agrees Same (s'.enumLine b' next l') := by
  unfold enumLine
  rw [lines.code.blockEnd?_eq, lines.code.enumMember?_eq, lines.number]
  cases Line.blockEnd? l'.code with
  | some word =>
    dsimp only
    split
    · refine agrees_ok (same.push ?_)
      simp only [Statement.relocate, OpenBlock.toEnum, EnumDecl.relocate, List.map_reverse,
        block.name, block.body, block.placement lines]
    · exact agrees_strayEnd lines word
  | none =>
    cases Line.enumMember? l'.code with
    | some found =>
      have member : (EnumItem.member ⟨String.ofList found.1, (EnumValue.assign found.2 next).value,
          l.codeRange⟩).relocate flat = (EnumItem.member ⟨String.ofList found.1,
          (EnumValue.assign found.2 next).value, l'.codeRange⟩).relocate flat := by
        simp only [EnumItem.relocate, lines.codeRange]
      have comments : ∀ c, (EnumItem.comment c).relocate flat = .comment (c.relocate flat) :=
        fun _ => rfl
      have counted := Focus.Same.enumBody (EnumValue.assign found.2 next).next
        ((block.push member).push? lines comments)
      dsimp only
      split
      · exact (agrees_ok ⟨same.frames, same.items, counted, same.run, same.pending⟩).warn _
      · exact agrees_ok ⟨same.frames, same.items, counted, same.run, same.pending⟩
    | none => exact agrees_malformed lines .enumMember

/-- A line outside function bodies. -/
theorem agrees_gather (same : s.Same s') (lines : l.Reindented l')
    {handle : ReaderState → SourceLine → Outcome ReaderState}
    (related : ∀ t t', t.Same t' → (handle t l).Agrees Same (handle t' l')) :
    (s.gather l handle).Agrees Same (s'.gather l' handle) := by
  rw [gather, gather, lines.text.isComment_eq, lines.text.isBlank_eq]
  split
  · exact agrees_ok (same.addComment lines)
  split
  · exact agrees_ok same.closeRun
  · exact related _ _ same.closeRun

/-- A line that is neither a comment line nor blank, outside function bodies. -/
theorem agrees_line (same : s.Same s') (lines : l.Reindented l') :
    Outcome.Agrees Same
      (match s.focus with
        | .classBody b => s.classLine dialect b l
        | .interfaceBody b => s.interfaceLine dialect b l
        | .enumBody b next => s.enumLine b next l
        | _ => s.statementLine dialect l)
      (match s'.focus with
        | .classBody b => s'.classLine dialect b l'
        | .interfaceBody b => s'.interfaceLine dialect b l'
        | .enumBody b next => s'.enumLine b next l'
        | _ => s'.statementLine dialect l') := by
  have focus := same.focus
  generalize s.focus = here, s'.focus = here' at focus ⊢
  cases focus with
  | classBody block => exact agrees_classLine same lines block
  | interfaceBody block => exact agrees_interfaceLine same lines block
  | enumBody next block => exact agrees_enumLine same lines block next
  | statements => exact agrees_statementLine same lines
  | functionBody depth function => exact agrees_statementLine same lines
  | methodBody depth block method => exact agrees_statementLine same lines

/-- Readers that have read the same, but for the columns, have done so after the next line. -/
theorem agrees_step (same : s.Same s') (lines : l.Reindented l') :
    (s.step dialect l).Agrees Same (s'.step dialect l') := by
  have focus := same.focus
  unfold step
  generalize s.focus = here, s'.focus = here' at focus ⊢
  cases focus with
  | @functionBody f f' depth function =>
    dsimp only
    rw [lines.bodyDepth]
    split
    · refine agrees_ok (same.push ?_)
      rw [Statement.relocate, Statement.relocate, lines.endingAt function]
    · exact agrees_ok ⟨same.frames, same.items, .functionBody _ function, same.run, same.pending⟩
  | @methodBody b b' m m' depth block method =>
    dsimp only
    rw [lines.bodyDepth]
    obtain ⟨function, access, overrides⟩ := Method.mk.inj method
    split
    · refine agrees_ok ⟨same.frames, same.items, .classBody (block.push ?_), same.run, same.pending⟩
      simp only [ClassItem.relocate, Method.relocate, lines.endingAt function, access, overrides]
    · exact agrees_ok ⟨same.frames, same.items, .methodBody _ block method, same.run, same.pending⟩
  | _ => exact agrees_gather same lines fun _ _ same => agrees_line same lines

/-- What the two readers have read at the end of their texts. -/
theorem agrees_finish (same : s.Same s') :
    Outcome.Agrees SameTree { result := s.finish } { result := s'.finish } := by
  have unclosed : ∀ {p p' : Position} (kind : BlockKind), flat p = flat p' →
      ParseError.unterminated kind (p.line + 1) = .unterminated kind (p'.line + 1) := by
    intro p p' kind alike
    rw [(Position.mk.inj alike).1]
  have unfinished : ∀ {f f' : FunctionDecl}, f.relocate flat = f'.relocate flat →
      ParseError.unterminated f.kind.block (f.placement.range.start.line + 1) =
        .unterminated f'.kind.block (f'.placement.range.start.line + 1) := by
    intro f f' function
    obtain ⟨-, kind, -, -, placement⟩ := FunctionDecl.mk.inj function
    rw [kind]
    exact unclosed _ (Range.mk.inj (Placement.mk.inj placement).1).1
  have items := same.closeRun.items
  have frames := same.frames
  have focus := same.focus
  unfold finish
  generalize s.focus = here, s'.focus = here' at focus ⊢
  generalize s.frames = around, s'.frames = around' at frames ⊢
  cases focus with
  | statements =>
    cases frames with
    | nil => exact ⟨rfl, items.reverse⟩
    | cons frame outer => exact ⟨rfl, unclosed _ frame.start⟩
  | functionBody depth function => exact ⟨rfl, unfinished function⟩
  | methodBody depth block method => exact ⟨rfl, unfinished (Method.mk.inj method).1⟩
  | classBody block => exact ⟨rfl, unclosed _ block.start⟩
  | interfaceBody block => exact ⟨rfl, unclosed _ block.start⟩
  | enumBody next block => exact ⟨rfl, unclosed _ block.start⟩

end ReaderState

/-- Lines with other blanks before them take readers that have read the same to readers that have read
the same. -/
theorem agrees_readFrom {lines lines' : List (List Char)}
    (reindented : List.Forall₂ Line.Reindented lines lines') :
    ∀ (index : Nat) (s s' : ReaderState), s.Same s' →
      (readFrom dialect index s lines).Agrees ReaderState.Same (readFrom dialect index s' lines') := by
  induction reindented with
  | nil =>
    intro index s s' same
    exact agrees_ok same
  | @cons text text' more more' alike _ ih =>
    intro index s s' same
    have line : SourceLine.Reindented ⟨index, text⟩ ⟨index, text'⟩ := ⟨rfl, alike⟩
    exact (ReaderState.agrees_step same line).andThen (ih (index + 1))

/-- Lines with other blanks before them have the same tree but for the columns, or the same error, and
the same warnings. -/
theorem agrees_readLines {lines lines' : List (List Char)}
    (reindented : List.Forall₂ Line.Reindented lines lines') :
    (readLines dialect lines).Agrees SameTree (readLines dialect lines') := by
  have start : ReaderState.Same {} {} := ⟨.nil, rfl, .statements, rfl, rfl⟩
  exact (agrees_readFrom reindented 0 {} {} start).andThen fun _ _ => ReaderState.agrees_finish

/-- An empty line below a text that is read, or not closed, leaves the tree or the error. -/
theorem ReaderState.finish_step_empty (dialect : Dialect) {s : ReaderState}
    (isOpen : s.focus.IsOpen) (index : Nat) :
    ((s.step dialect ⟨index, []⟩).andThen fun t => { result := t.finish }) =
      ({ result := s.finish } : Outcome (List Statement)) := by
  have finished := s.finish_closeRun
  obtain ⟨frames, items, focus, run, pending⟩ := s
  cases focus with
  | functionBody f depth =>
    obtain ⟨left, rfl⟩ := Nat.exists_eq_succ_of_ne_zero (Nat.ne_of_gt isOpen)
    rfl
  | methodBody b m depth =>
    obtain ⟨left, rfl⟩ := Nat.exists_eq_succ_of_ne_zero (Nat.ne_of_gt isOpen)
    rfl
  | _ => exact congrArg (fun result => ({ result } : Outcome (List Statement))) finished

/-- An empty line at the end of a text changes nothing. -/
theorem readLines_append_nil (lines : List (List Char)) :
    readLines dialect (lines ++ [[]]) = readLines dialect lines := by
  rw [readLines, readFrom_append, Outcome.andThen_assoc, readLines]
  apply Outcome.andThen_congr
  intro s read
  have finished := ReaderState.finish_step_empty dialect (isOpen_of_read read) (0 + lines.length)
  simpa only [readFrom, Outcome.andThen_assoc, Outcome.ok_andThen] using finished

end BrightDoc
