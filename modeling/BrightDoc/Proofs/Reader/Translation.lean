import BrightDoc.Reader.Parse
import BrightDoc.Proofs.Tree.Shift

/-! # Reading a text below another one

What the reader does with a line does not depend on the number of the line, nor on the statements that
were read before: below a text of `n` lines with the statements `base` the reader goes through the same
states, moved down by `n` lines and with `base` at the start of the outermost list
(`ReaderState.below`). -/

namespace BrightDoc

variable {dialect : Dialect}

/-- The error about a text `n` lines further down. -/
def ParseError.shift (n : Nat) : ParseError → ParseError
  | unterminated block line => unterminated block (line + n)
  | unexpectedEnd word line => unexpectedEnd word (line + n)
  | malformed construct line text => malformed construct (line + n) text

/-- The warning about a text `n` lines further down. -/
def Warning.shift (n : Nat) : Warning → Warning
  | annotationLine line => annotationLine (line + n)
  | declaration word line => declaration word (line + n)
  | openValue member line => openValue member (line + n)

namespace Outcome

variable {α β γ δ : Type}

/-- The outcome of reading a text `n` lines further down, with its result mapped. -/
def shift (n : Nat) (f : α → β) (outcome : Outcome α) : Outcome β where
  warnings := outcome.warnings.map (Warning.shift n)
  result :=
    match outcome.result with
    | .ok value => .ok (f value)
    | .error error => .error (error.shift n)

@[simp] theorem shift_ok (n : Nat) (f : α → β) (value : α) :
    (ok value).shift n f = ok (f value) := rfl

@[simp] theorem shift_fail (n : Nat) (f : α → β) (error : ParseError) :
    (fail error).shift n f = fail (error.shift n) := rfl

@[simp] theorem shift_warn (n : Nat) (f : α → β) (warning : Warning) (outcome : Outcome α) :
    (outcome.warn warning).shift n f = (outcome.shift n f).warn (warning.shift n) := rfl

@[simp] theorem shift_feature (n : Nat) (f : α → β) (dialect : Dialect) (warning : Warning)
    (outcome : Outcome α) :
    (outcome.feature dialect warning).shift n f =
      (outcome.shift n f).feature dialect (warning.shift n) := by
  cases dialect <;> rfl

/-- Going on from the moved result is moving what comes after. -/
theorem shift_andThen {n : Nat} {f : α → β} {g : γ → δ} {outcome : Outcome α} {next : α → Outcome γ}
    {next' : β → Outcome δ} (same : ∀ value, next' (f value) = (next value).shift n g) :
    (outcome.shift n f).andThen next' = (outcome.andThen next).shift n g := by
  obtain ⟨warnings, result⟩ := outcome
  cases result with
  | error error => rfl
  | ok value => simp [andThen, shift, same]

theorem andThen_congr {outcome : Outcome α} {next other : α → Outcome β}
    (same : ∀ value, outcome.result = .ok value → next value = other value) :
    outcome.andThen next = outcome.andThen other := by
  obtain ⟨warnings, result⟩ := outcome
  cases result with
  | error error => rfl
  | ok value => simp only [andThen, same value rfl]

end Outcome

/-- The line `n` lines further down. -/
def SourceLine.shift (n : Nat) (l : SourceLine) : SourceLine :=
  { l with index := l.index + n }

/-- The open block `n` lines further down. -/
def OpenBlock.shift {Item : Type} (n : Nat) (item : Item → Item) (b : OpenBlock Item) :
    OpenBlock Item :=
  { b with
    start := b.start.shift n
    annotations := b.annotations.map (·.shift n)
    body := b.body.map item }

/-- What the next line belongs to, `n` lines further down. -/
def Focus.shift (n : Nat) : Focus → Focus
  | statements => statements
  | functionBody f depth => functionBody (f.shift n) depth
  | classBody b => classBody (b.shift n (ClassItem.shift n))
  | methodBody b m depth => methodBody (b.shift n (ClassItem.shift n)) (m.shift n) depth
  | interfaceBody b => interfaceBody (b.shift n (InterfaceItem.shift n))
  | enumBody b next => enumBody (b.shift n (EnumItem.shift n)) next

/-- The statements of a list inside the given namespaces, `n` lines further down. The outermost list
goes on from the statements of the text above. -/
def itemsBelow (n : Nat) (base : List Statement) (frames : List NamespaceFrame)
    (items : List Statement) : List Statement :=
  items.map (Statement.shift n) ++ if frames.isEmpty then base else []

theorem itemsBelow_cons (n : Nat) (base : List Statement) (frames : List NamespaceFrame)
    (statement : Statement) (items : List Statement) :
    itemsBelow n base frames (statement :: items) =
      statement.shift n :: itemsBelow n base frames items := rfl

theorem itemsBelow_append (n : Nat) (base : List Statement) (frames : List NamespaceFrame)
    (added items : List Statement) :
    itemsBelow n base frames (added ++ items) =
      added.map (Statement.shift n) ++ itemsBelow n base frames items := by
  simp only [itemsBelow, List.map_append, List.append_assoc]

/-- The open namespaces `n` lines further down, below a text with the statements `base`. -/
def framesBelow (n : Nat) (base : List Statement) : List NamespaceFrame → List NamespaceFrame
  | [] => []
  | f :: outer =>
    { name := f.name
      start := f.start.shift n
      annotations := f.annotations.map (·.shift n)
      before := itemsBelow n base outer f.before } :: framesBelow n base outer

/-- The state below a text of `n` lines that has the statements `base`, newest first. -/
def ReaderState.below (n : Nat) (base : List Statement) (s : ReaderState) : ReaderState where
  frames := framesBelow n base s.frames
  items := itemsBelow n base s.frames s.items
  focus := s.focus.shift n
  run := s.run.map (Comment.shift n)
  pending := s.pending.map (·.shift n)

section Lines

variable (n : Nat) (l : SourceLine)

theorem text_shift : (l.shift n).text = l.text := rfl

theorem code_shift : (l.shift n).code = l.code := rfl

theorem trailing?_shift : (l.shift n).trailing? = l.trailing?.map (Comment.shift n) := by
  simp only [SourceLine.trailing?, Option.map_map]
  rfl

theorem malformed_shift (construct : Construct) (text : List Char) :
    (l.shift n).malformed construct text = (l.malformed construct text).shift n := by
  simp only [SourceLine.malformed, ParseError.shift, SourceLine.number, SourceLine.shift]
  congr 1
  omega

theorem number_shift : (l.shift n).number = l.number + n := by
  simp only [SourceLine.number, SourceLine.shift]
  omega

theorem params_shift (texts : List (List Char)) :
    (l.shift n).params texts = (l.params texts).mapError (ParseError.shift n) := by
  induction texts with
  | nil => rfl
  | cons text more ih =>
    simp only [SourceLine.params]
    split
    · rw [ih]
      cases l.params more <;> rfl
    · rw [malformed_shift]
      rfl

theorem function_shift (header : Line.FunctionHeader) (annotations : List Annotation) :
    (l.shift n).function header (annotations.map (·.shift n)) =
      ((l.function header annotations).map (FunctionDecl.shift n)).mapError (ParseError.shift n) := by
  simp only [SourceLine.function, params_shift]
  cases l.params (Line.parameterTexts header.params) <;> rfl

end Lines

namespace ReaderState

variable (n : Nat) (base : List Statement) (s : ReaderState) (l : SourceLine)

theorem push_below (statement : Statement) :
    (s.below n base).push (statement.shift n) = (s.push statement).below n base := rfl

theorem annotate_below (name : List Char) :
    (s.below n base).annotate (l.shift n) name = (s.annotate l name).below n base := by
  simp only [annotate, below, List.map_append]
  rfl

theorem addComment_below :
    (s.below n base).addComment (l.shift n) = (s.addComment l).below n base := by
  obtain ⟨frames, items, focus, run, pending⟩ := s
  cases run <;> rfl

theorem closeRun_below : (s.below n base).closeRun = s.closeRun.below n base := by
  obtain ⟨frames, items, focus, run, pending⟩ := s
  cases run with
  | none => rfl
  | some c => cases focus <;> rfl

theorem strayEnd_below (word : List Char) :
    strayEnd (l.shift n) word = (strayEnd l word).shift n (below n base) := by
  simp only [strayEnd, Outcome.shift_fail, ParseError.shift, number_shift]

theorem malformed_below (construct : Construct) (text : List Char) :
    Outcome.fail ((l.shift n).malformed construct text) =
      (Outcome.fail (l.malformed construct text)).shift n (below n base) := by
  rw [malformed_shift, Outcome.shift_fail]

theorem endNamespace_below (word : List Char) :
    (s.below n base).endNamespace (l.shift n) word =
      (s.endNamespace l word).shift n (below n base) := by
  obtain ⟨frames, items, focus, run, pending⟩ := s
  cases frames with
  | nil => exact strayEnd_below n base l word
  | cons frame outer =>
    simp only [endNamespace, below, framesBelow]
    split
    · have inner : itemsBelow n base (frame :: outer) items = items.map (Statement.shift n) :=
        List.append_nil _
      simp only [Outcome.shift_ok, below, itemsBelow_cons, Statement.shift, shiftEach_eq_map,
        List.map_reverse, inner]
      rfl
    · exact strayEnd_below n base l word

/-- Opening a block, where the items of its body move with it. -/
theorem openBlock_below {Item : Type} (name : List Char) (parent : Option (List Char))
    {comment : Comment → Item} {focus : OpenBlock Item → Focus} {item : Item → Item}
    (comments : ∀ c : Comment, comment (c.shift n) = item (comment c))
    (blocks : ∀ b, focus (b.shift n item) = (focus b).shift n) :
    (s.below n base).openBlock (l.shift n) name parent comment focus =
      (s.openBlock l name parent comment focus).below n base := by
  simp only [openBlock, below, trailing?_shift, Option.map_map, ← blocks]
  cases l.trailing? with
  | none => rfl
  | some c =>
    simp only [Option.map_some, Function.comp, comments]
    rfl

theorem openNamespace_below (name : List Char) :
    (s.below n base).openNamespace (l.shift n) name =
      (s.openNamespace l name).below n base := by
  simp only [openNamespace, below, trailing?_shift, framesBelow]
  cases l.trailing? <;> simp [itemsBelow, Statement.shift] <;> rfl

/-- A one-line declaration and the comment that ends its line, among the items of their list. -/
theorem trailing_below {Item : Type} {comment : Comment → Item} {item : Item → Item}
    (comments : ∀ c : Comment, comment (c.shift n) = item (comment c)) :
    ((l.shift n).trailing?.map comment).toList = (l.trailing?.map comment).toList.map item := by
  rw [trailing?_shift]
  cases l.trailing? with
  | none => rfl
  | some c => simp [comments]

/-- A member and the comment that ends its line, in the body of a block. -/
theorem member_below {Item : Type} (b : OpenBlock Item) (comment : Comment → Item)
    (item : Item → Item) (comments : ∀ c : Comment, comment (c.shift n) = item (comment c))
    (member : Item) :
    ((b.shift n item).push (item member)).push? ((l.shift n).trailing?.map comment) =
      ((b.push member).push? (l.trailing?.map comment)).shift n item := by
  simp only [OpenBlock.push?, trailing_below n l comments]
  simp only [OpenBlock.shift, OpenBlock.push, List.map_append, List.map_cons]

theorem declare_below (word : List Char) :
    (s.below n base).declare (l.shift n) word = (s.declare l word).shift n (below n base) := by
  unfold declare
  rw [code_shift]
  split
  · cases Line.inheritingHeader? "class" l.code with
    | none => exact malformed_below n base l .classHeader l.code
    | some found =>
      exact congrArg Outcome.ok (openBlock_below n base s l found.1 found.2 (fun _ => rfl) fun _ => rfl)
  split
  · cases Line.inheritingHeader? "interface" l.code with
    | none => exact malformed_below n base l .interfaceHeader l.code
    | some found =>
      exact congrArg Outcome.ok (openBlock_below n base s l found.1 found.2 (fun _ => rfl) fun _ => rfl)
  split
  · cases Line.enumHeader? l.code with
    | none => exact malformed_below n base l .enumHeader l.code
    | some name =>
      exact congrArg Outcome.ok (openBlock_below n base s l name none (fun _ => rfl) fun _ => rfl)
  split
  · cases Line.namespaceHeader? l.code with
    | none => exact malformed_below n base l .namespaceHeader l.code
    | some name => exact congrArg Outcome.ok (openNamespace_below n base s l name)
  · cases Line.constant? l.code with
    | none => exact malformed_below n base l .constant l.code
    | some found =>
      apply congrArg Outcome.ok
      have comments : ∀ c : Comment, Statement.comment (c.shift n) =
          (Statement.comment c).shift n := fun c => by rw [Statement.shift]
      simp only [below, itemsBelow_append, itemsBelow_cons, trailing_below n l comments,
        Statement.shift]
      rfl

theorem annotationLine_below (name : List Char) :
    (s.below n base).annotationLine dialect (l.shift n) name =
      (s.annotationLine dialect l name).shift n (below n base) := by
  rw [annotationLine, annotationLine, annotate_below, number_shift, Outcome.shift_feature]
  rfl

/-- Going on from the header of a function, where what comes after it moves down. -/
theorem function_below (header : Line.FunctionHeader) {next next' : FunctionDecl → ReaderState}
    (moved : ∀ f, next' (f.shift n) = (next f).below n base) :
    (match (l.shift n).function header (s.below n base).pending with
      | .ok f => Outcome.ok (next' f)
      | .error error => .fail error) =
    Outcome.shift n (below n base) (match l.function header s.pending with
      | .ok f => Outcome.ok (next f)
      | .error error => .fail error) := by
  have same := function_shift n l header s.pending
  rw [show (s.below n base).pending = s.pending.map (·.shift n) from rfl, same]
  cases l.function header s.pending with
  | ok f => exact congrArg Outcome.ok (moved f)
  | error error => rfl

theorem statementLine_below :
    (s.below n base).statementLine dialect (l.shift n) =
      (s.statementLine dialect l).shift n (below n base) := by
  unfold statementLine
  rw [code_shift, text_shift]
  cases Line.annotationName? l.text with
  | some name => exact annotationLine_below n base s l name
  | none =>
    dsimp only
    cases Line.blockEnd? l.code with
    | some word => exact endNamespace_below n base s l word
    | none =>
      dsimp only
      cases Line.functionHeader? l.code with
      | some header => exact function_below n base s l header fun f => rfl
      | none =>
        dsimp only
        split
        · exact malformed_below n base l .functionHeader l.code
        · cases Line.declarationWord? l.code with
          | some word =>
            dsimp only
            rw [declare_below, number_shift, Outcome.shift_feature]
            rfl
          | none => rfl

theorem classLine_below (b : OpenBlock ClassItem) :
    (s.below n base).classLine dialect (b.shift n (ClassItem.shift n)) (l.shift n) =
      (s.classLine dialect b l).shift n (below n base) := by
  have member := member_below n l b ClassItem.comment (ClassItem.shift n) fun _ => rfl
  unfold classLine
  rw [code_shift, text_shift]
  cases Line.annotationName? l.text with
  | some name => exact annotationLine_below n base s l name
  | none =>
    dsimp only
    cases Line.blockEnd? l.code with
    | some word =>
      dsimp only
      split
      · have closed : Statement.classDecl ((b.shift n (ClassItem.shift n)).toClass (l.shift n)) =
            (Statement.classDecl (b.toClass l)).shift n := by
          simp only [Statement.shift, OpenBlock.toClass, ClassDecl.shift, OpenBlock.shift,
            List.map_reverse]
          rfl
        rw [closed, push_below, Outcome.shift_ok]
      · exact strayEnd_below n base l word
    | none =>
      dsimp only
      cases Line.functionHeader? l.code with
      | some header => exact function_below n base s l header fun f => rfl
      | none =>
        dsimp only
        split
        · exact malformed_below n base l .methodHeader l.code
        · cases Line.field? l.code with
          | some parts =>
            simp only [Outcome.shift_ok, below, Focus.shift, ← member]
            rfl
          | none => rfl

theorem interfaceLine_below (b : OpenBlock InterfaceItem) :
    (s.below n base).interfaceLine dialect (b.shift n (InterfaceItem.shift n)) (l.shift n) =
      (s.interfaceLine dialect b l).shift n (below n base) := by
  have member := member_below n l b InterfaceItem.comment (InterfaceItem.shift n) fun _ => rfl
  unfold interfaceLine
  rw [code_shift, text_shift]
  cases Line.annotationName? l.text with
  | some name => exact annotationLine_below n base s l name
  | none =>
    dsimp only
    cases Line.blockEnd? l.code with
    | some word =>
      dsimp only
      split
      · have closed : Statement.interfaceDecl
            ((b.shift n (InterfaceItem.shift n)).toInterface (l.shift n)) =
            (Statement.interfaceDecl (b.toInterface l)).shift n := by
          simp only [Statement.shift, OpenBlock.toInterface, InterfaceDecl.shift, OpenBlock.shift,
            List.map_reverse]
          rfl
        rw [closed, push_below, Outcome.shift_ok]
      · exact strayEnd_below n base l word
    | none =>
      dsimp only
      cases Line.functionHeader? l.code with
      | some header =>
        apply function_below n base s l header
        intro f
        simp only [below, Focus.shift, ← member]
        rfl
      | none =>
        cases Line.interfaceField? l.code with
        | some found =>
          simp only [Outcome.shift_ok, below, Focus.shift, ← member]
          rfl
        | none => exact malformed_below n base l .interfaceMember l.code

theorem enumLine_below (b : OpenBlock EnumItem) (next : Option Int) :
    (s.below n base).enumLine (b.shift n (EnumItem.shift n)) next (l.shift n) =
      (s.enumLine b next l).shift n (below n base) := by
  have member := member_below n l b EnumItem.comment (EnumItem.shift n) fun _ => rfl
  unfold enumLine
  rw [code_shift]
  cases Line.blockEnd? l.code with
  | some word =>
    dsimp only
    split
    · have closed : Statement.enumDecl ((b.shift n (EnumItem.shift n)).toEnum (l.shift n)) =
          (Statement.enumDecl (b.toEnum l)).shift n := by
        simp only [Statement.shift, OpenBlock.toEnum, EnumDecl.shift, OpenBlock.shift,
          List.map_reverse]
        rfl
      rw [closed, push_below, Outcome.shift_ok]
    · exact strayEnd_below n base l word
  | none =>
    cases Line.enumMember? l.code with
    | some found =>
      dsimp only
      split
      · simp only [Outcome.shift_warn, Outcome.shift_ok, below, Focus.shift, ← member, number_shift]
        rfl
      · simp only [Outcome.shift_ok, below, Focus.shift, ← member]
        rfl
    | none => exact malformed_below n base l .enumMember l.code

theorem gather_below (dialect : Dialect) :
    ((s.below n base).gather (l.shift n) fun s l =>
      match s.focus with
      | .classBody b => s.classLine dialect b l
      | .interfaceBody b => s.interfaceLine dialect b l
      | .enumBody b next => s.enumLine b next l
      | _ => s.statementLine dialect l) =
    Outcome.shift n (below n base) (s.gather l fun s l =>
      match s.focus with
      | .classBody b => s.classLine dialect b l
      | .interfaceBody b => s.interfaceLine dialect b l
      | .enumBody b next => s.enumLine b next l
      | _ => s.statementLine dialect l) := by
  unfold gather
  rw [text_shift, closeRun_below]
  split
  · exact congrArg Outcome.ok (addComment_below n base s l)
  split
  · rfl
  dsimp only
  rw [show (s.closeRun.below n base).focus = s.closeRun.focus.shift n from rfl]
  cases found : s.closeRun.focus with
  | classBody b => exact classLine_below n base s.closeRun l b
  | interfaceBody b => exact interfaceLine_below n base s.closeRun l b
  | enumBody b next => exact enumLine_below n base s.closeRun l b next
  | statements => exact statementLine_below n base s.closeRun l
  | functionBody f depth => exact statementLine_below n base s.closeRun l
  | methodBody b m depth => exact statementLine_below n base s.closeRun l

/-- A line further down takes the reader to the moved state, or is refused with the moved error. -/
theorem step_below (dialect : Dialect) :
    (s.below n base).step dialect (l.shift n) = (s.step dialect l).shift n (below n base) := by
  have outer := gather_below n base s l dialect
  have depth : ∀ left, bodyDepth left (l.shift n) = bodyDepth left l := fun _ => rfl
  unfold step
  rw [show (s.below n base).focus = s.focus.shift n from rfl]
  cases found : s.focus with
  | functionBody f left =>
    simp only [Focus.shift, depth]
    split
    · rfl
    · rfl
  | methodBody b m left =>
    simp only [Focus.shift, depth]
    split
    · rfl
    · rfl
  | statements => exact outer
  | classBody b => exact outer
  | interfaceBody b => exact outer
  | enumBody b next => exact outer

/-- What is left open at the end is the same further down, and the statements above come first. -/
theorem finish_below :
    (s.below n base).finish =
      match s.finish with
      | .ok statements => .ok (base.reverse ++ statements.map (Statement.shift n))
      | .error error => .error (error.shift n) := by
  have unclosed : ∀ (block : BlockKind) (start : Position),
      ParseError.unterminated block ((start.shift n).line + 1) =
        (ParseError.unterminated block (start.line + 1)).shift n := by
    intro block start
    simp only [ParseError.shift, Position.shift, Nat.add_right_comm]
  cases found : s.focus with
  | statements =>
    cases frames : s.frames with
    | nil =>
      obtain ⟨_, items, _, run, pending⟩ := s
      dsimp only at found frames
      subst found frames
      cases run <;>
        simp [finish, below, framesBelow, itemsBelow, Focus.shift, closeRun, pushComment,
          Statement.shift]
    | cons frame outer =>
      simp only [finish, below, found, frames]
      exact congrArg Except.error (unclosed _ _)
  | functionBody f depth =>
    simp only [finish, below, found]
    exact congrArg Except.error (unclosed _ _)
  | methodBody b m depth =>
    simp only [finish, below, found]
    exact congrArg Except.error (unclosed _ _)
  | classBody b =>
    simp only [finish, below, found]
    exact congrArg Except.error (unclosed _ _)
  | interfaceBody b =>
    simp only [finish, below, found]
    exact congrArg Except.error (unclosed _ _)
  | enumBody b next =>
    simp only [finish, below, found]
    exact congrArg Except.error (unclosed _ _)

end ReaderState

/-- Reading some lines below a text goes through the moved states. -/
theorem readFrom_below (dialect : Dialect) (n : Nat) (base : List Statement)
    (lines : List (List Char)) :
    ∀ (index : Nat) (s : ReaderState), readFrom dialect (index + n) (s.below n base) lines =
      (readFrom dialect index s lines).shift n (ReaderState.below n base) := by
  induction lines with
  | nil => intro index s; rfl
  | cons text more ih =>
    intro index s
    have stepped := s.step_below n base ⟨index, text⟩ dialect
    simp only [readFrom]
    rw [show (⟨index + n, text⟩ : SourceLine) = SourceLine.shift n ⟨index, text⟩ from rfl, stepped]
    apply Outcome.shift_andThen
    intro t
    rw [← ih (index + 1) t, Nat.add_right_comm]

/-- Reading all lines of a text below another one, to its end. -/
theorem readLines_below (dialect : Dialect) (n : Nat) (base : List Statement)
    (lines : List (List Char)) :
    ((readFrom dialect n (ReaderState.below n base {}) lines).andThen fun s => { result := s.finish }) =
      (readLines dialect lines).shift n fun statements =>
        base.reverse ++ statements.map (Statement.shift n) := by
  have read := readFrom_below dialect n base lines 0 {}
  rw [Nat.zero_add] at read
  rw [read, readLines]
  apply Outcome.shift_andThen
  intro s
  rw [s.finish_below n base]
  cases s.finish <;> rfl

end BrightDoc
