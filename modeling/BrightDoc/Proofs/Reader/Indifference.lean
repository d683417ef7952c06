import BrightDoc.Proofs.Reader.Simulation
import BrightDoc.Proofs.Tree.Recast

/-! # What the reader does not look at

The reader takes a line without looking at the functions it has read so far, nor at the namespaces
around the list of statements where it began. So a reader that has read other functions, inside further
namespaces, goes through the same states (`ReaderState.recast`), as long as no line closes one of those
namespaces. -/

namespace BrightDoc

variable {dialect : Dialect}

namespace Outcome

variable {α β : Type} (f : α → β)

theorem map_ok (value : α) : (ok value).map f = ok (f value) := rfl

theorem map_feature (dialect : Dialect) (warning : Warning) (outcome : Outcome α) :
    (outcome.feature dialect warning).map f = (outcome.map f).feature dialect warning := by
  cases dialect <;> rfl

/-- Going on from a mapped outcome is mapping what comes after, where the outcome has a result. -/
theorem map_andThen {γ δ : Type} {h : γ → δ} {outcome : Outcome α} {next : α → Outcome γ}
    {next' : β → Outcome δ}
    (same : ∀ value, outcome.result = .ok value → next' (f value) = (next value).map h) :
    (outcome.map f).andThen next' = (outcome.andThen next).map h := by
  obtain ⟨warnings, result⟩ := outcome
  cases result with
  | error error => rfl
  | ok value => simp [andThen, map, Except.map, same value rfl]

/-- Two outcomes in a row have a result only if the first one has. -/
theorem andThen_eq_ok {γ : Type} {outcome : Outcome α} {next : α → Outcome γ} {result : γ}
    (found : (outcome.andThen next).result = .ok result) :
    ∃ value, outcome.result = .ok value ∧ (next value).result = .ok result := by
  obtain ⟨warnings, first⟩ := outcome
  cases first with
  | error error => cases found
  | ok value => exact ⟨value, rfl, found⟩

end Outcome

/-- The open block with the items of its body changed. -/
def OpenBlock.mapBody {Item : Type} (item : Item → Item) (b : OpenBlock Item) : OpenBlock Item :=
  { b with body := b.body.map item }

/-- What the next line belongs to, with the functions read before it changed. A function that is still
open stays as it is. -/
def Focus.recast (g : FunctionDecl → FunctionDecl) : Focus → Focus
  | statements => statements
  | functionBody f depth => functionBody f depth
  | classBody b => classBody (b.mapBody (ClassItem.recast g))
  | methodBody b m depth => methodBody (b.mapBody (ClassItem.recast g)) m depth
  | interfaceBody b => interfaceBody (b.mapBody (InterfaceItem.recast g))
  | enumBody b next => enumBody b next

/-- The open namespace with the functions read before it changed. -/
def NamespaceFrame.recast (g : FunctionDecl → FunctionDecl) (f : NamespaceFrame) : NamespaceFrame :=
  { f with before := f.before.map (Statement.recast g) }

/-- The state with the functions read so far changed, inside the further namespaces `outer`. -/
def ReaderState.recast (g : FunctionDecl → FunctionDecl) (outer : List NamespaceFrame)
    (s : ReaderState) : ReaderState where
  frames := s.frames.map (NamespaceFrame.recast g) ++ outer
  items := s.items.map (Statement.recast g)
  focus := s.focus.recast g
  run := s.run
  pending := s.pending

namespace ReaderState

variable {g : FunctionDecl → FunctionDecl} {outer : List NamespaceFrame} (s : ReaderState)
  (l : SourceLine)

theorem closeRun_recast : (s.recast g outer).closeRun = s.closeRun.recast g outer := by
  obtain ⟨frames, items, focus, run, pending⟩ := s
  cases run with
  | none => rfl
  | some c => cases focus <;> rfl

theorem addComment_recast : (s.recast g outer).addComment l = (s.addComment l).recast g outer := by
  obtain ⟨frames, items, focus, run, pending⟩ := s
  cases run <;> rfl

theorem endNamespace_recast (word : List Char)
    (inside : outer = [] ∨ ∃ t, (s.endNamespace l word).result = .ok t) :
    (s.recast g outer).endNamespace l word = (s.endNamespace l word).map (recast g outer) := by
  obtain ⟨frames, items, focus, run, pending⟩ := s
  cases frames with
  | nil =>
    -- Without a namespace of its own the line would close one of the further ones.
    rcases inside with rfl | ⟨t, closed⟩
    · rfl
    · cases closed
  | cons frame rest =>
    simp only [endNamespace, recast, List.map_cons, List.cons_append]
    split
    · simp only [Outcome.map_ok, recast, List.map_cons, Statement.recast, recastEach_eq_map,
        List.map_reverse]
      rfl
    · rfl

/-- Comments are not changed. -/
theorem trailing_recast {Item : Type} {comment : Comment → Item} {item : Item → Item}
    (comments : ∀ c, item (comment c) = comment c) :
    (l.trailing?.map comment).toList.map item = (l.trailing?.map comment).toList := by
  cases l.trailing? with
  | none => rfl
  | some c => simp [comments]

theorem openBlock_recast {Item : Type} (name : List Char) (parent : Option (List Char))
    {comment : Comment → Item} {focus : OpenBlock Item → Focus} (item : Item → Item)
    (comments : ∀ c, item (comment c) = comment c)
    (blocks : ∀ b, (focus b).recast g = focus (b.mapBody item)) :
    (s.recast g outer).openBlock l name parent comment focus =
      (s.openBlock l name parent comment focus).recast g outer := by
  simp only [openBlock, recast, blocks, OpenBlock.mapBody, OpenBlock.push?, List.append_nil,
    trailing_recast l comments]

/-- A member and the comment that ends its line, in the body of a block. -/
theorem member_recast {Item : Type} (b : OpenBlock Item) (comment : Comment → Item)
    (item : Item → Item) (comments : ∀ c, item (comment c) = comment c) (member : Item) :
    ((b.push member).push? (l.trailing?.map comment)).mapBody item =
      ((b.mapBody item).push (item member)).push? (l.trailing?.map comment) := by
  simp only [OpenBlock.mapBody, OpenBlock.push?, OpenBlock.push, List.map_append, List.map_cons,
    trailing_recast l comments]

theorem declare_recast (word : List Char) :
    (s.recast g outer).declare l word = (s.declare l word).map (recast g outer) := by
  unfold declare
  split
  · cases Line.inheritingHeader? "class" l.code with
    | none => rfl
    | some found =>
      exact congrArg Outcome.ok (openBlock_recast s l found.1 found.2 (ClassItem.recast g)
        (fun _ => rfl) fun _ => rfl)
  split
  · cases Line.inheritingHeader? "interface" l.code with
    | none => rfl
    | some found =>
      exact congrArg Outcome.ok (openBlock_recast s l found.1 found.2 (InterfaceItem.recast g)
        (fun _ => rfl) fun _ => rfl)
  split
  · cases Line.enumHeader? l.code <;> rfl
  split
  · cases Line.namespaceHeader? l.code with
    | none => rfl
    | some name =>
      apply congrArg Outcome.ok
      have comments : ∀ c, (Statement.comment c).recast g = .comment c := fun c => rfl
      simp only [recast, openNamespace, trailing_recast l comments]
      rfl
  · cases Line.constant? l.code with
    | none => rfl
    | some found =>
      apply congrArg Outcome.ok
      have comments : ∀ c, (Statement.comment c).recast g = .comment c := fun c => rfl
      simp only [recast, List.map_append, List.map_cons, trailing_recast l comments]
      rfl

theorem annotationLine_recast (name : List Char) :
    (s.recast g outer).annotationLine dialect l name =
      (s.annotationLine dialect l name).map (recast g outer) := by
  rw [annotationLine, annotationLine, Outcome.map_feature]
  rfl

theorem statementLine_recast (inside : outer = [] ∨ ∃ t, (s.statementLine dialect l).result = .ok t) :
    (s.recast g outer).statementLine dialect l = (s.statementLine dialect l).map (recast g outer) := by
  unfold statementLine at inside ⊢
  revert inside
  cases Line.annotationName? l.text with
  | some name => exact fun _ => annotationLine_recast s l name
  | none =>
    dsimp only
    cases Line.blockEnd? l.code with
    | some word => exact endNamespace_recast s l word
    | none =>
      intro _
      dsimp only
      cases Line.functionHeader? l.code with
      | some header =>
        dsimp only
        rw [show (s.recast g outer).pending = s.pending from rfl]
        cases l.function header s.pending <;> rfl
      | none =>
        dsimp only
        split
        · rfl
        · cases Line.declarationWord? l.code with
          | some word =>
            dsimp only
            rw [declare_recast, Outcome.map_feature]
          | none => rfl

theorem classLine_recast (b : OpenBlock ClassItem) :
    (s.recast g outer).classLine dialect (b.mapBody (ClassItem.recast g)) l =
      (s.classLine dialect b l).map (recast g outer) := by
  unfold classLine
  cases Line.annotationName? l.text with
  | some name => exact annotationLine_recast s l name
  | none =>
    dsimp only
    cases Line.blockEnd? l.code with
    | some word =>
      dsimp only
      split
      · simp only [Outcome.map_ok, recast, push, OpenBlock.toClass, OpenBlock.mapBody, List.map_cons,
          Statement.recast, List.map_reverse]
        rfl
      · rfl
    | none =>
      dsimp only
      cases Line.functionHeader? l.code with
      | some header =>
        dsimp only
        rw [show (s.recast g outer).pending = s.pending from rfl]
        cases l.function header s.pending <;> rfl
      | none =>
        dsimp only
        split
        · rfl
        · cases Line.field? l.code with
          | none => rfl
          | some parts =>
            simp only [Outcome.map_ok, recast, Focus.recast,
              member_recast l b .comment (ClassItem.recast g) fun _ => rfl]
            rfl

/-- A method that the line declares must be one that stays as it is. -/
theorem interfaceLine_recast (b : OpenBlock InterfaceItem)
    (fixed : ∀ f : FunctionDecl, f.placement.range.start.line = l.index → g f = f) :
    (s.recast g outer).interfaceLine dialect (b.mapBody (InterfaceItem.recast g)) l =
      (s.interfaceLine dialect b l).map (recast g outer) := by
  have member := member_recast l b .comment (InterfaceItem.recast g) fun _ => rfl
  unfold interfaceLine
  cases Line.annotationName? l.text with
  | some name => exact annotationLine_recast s l name
  | none =>
    dsimp only
    cases Line.blockEnd? l.code with
    | some word =>
      dsimp only
      split
      · simp only [Outcome.map_ok, recast, push, OpenBlock.toInterface, OpenBlock.mapBody,
          List.map_cons, Statement.recast, List.map_reverse]
        rfl
      · rfl
    | none =>
      dsimp only
      cases Line.functionHeader? l.code with
      | some header =>
        dsimp only
        rw [show (s.recast g outer).pending = s.pending from rfl]
        cases built : l.function header s.pending with
        | error error => rfl
        | ok f =>
          have same : g f = f := fixed f (by rw [function_placement built]; rfl)
          simp only [Outcome.map_ok, recast, Focus.recast, member, InterfaceItem.recast, same]
      | none =>
        dsimp only
        cases Line.interfaceField? l.code with
        | none => rfl
        | some found =>
          simp only [Outcome.map_ok, recast, Focus.recast, member, InterfaceItem.recast]

theorem enumLine_recast (b : OpenBlock EnumItem) (next : Option Int) :
    (s.recast g outer).enumLine b next l = (s.enumLine b next l).map (recast g outer) := by
  unfold enumLine
  cases Line.blockEnd? l.code with
  | some word =>
    dsimp only
    split
    · rfl
    · rfl
  | none =>
    cases Line.enumMember? l.code with
    | none => rfl
    | some found =>
      dsimp only
      split
      · rfl
      · rfl

/-- A line that is neither a comment line nor blank, by the block it belongs to. -/
def blockLine (dialect : Dialect) (s : ReaderState) (l : SourceLine) : Outcome ReaderState :=
  match s.focus with
  | .classBody b => s.classLine dialect b l
  | .interfaceBody b => s.interfaceLine dialect b l
  | .enumBody b next => s.enumLine b next l
  | _ => s.statementLine dialect l

theorem blockLine_recast
    (fixed : ∀ f : FunctionDecl, f.placement.range.start.line = l.index → g f = f)
    (inside : outer = [] ∨ ∃ t, (s.blockLine dialect l).result = .ok t) :
    (s.recast g outer).blockLine dialect l = (s.blockLine dialect l).map (recast g outer) := by
  unfold blockLine at inside ⊢
  rw [show (s.recast g outer).focus = s.focus.recast g from rfl]
  revert inside
  cases s.focus with
  | classBody b => exact fun _ => classLine_recast s l b
  | interfaceBody b => exact fun _ => interfaceLine_recast s l b fixed
  | enumBody b next => exact fun _ => enumLine_recast s l b next
  | statements => exact statementLine_recast s l
  | functionBody f depth => exact statementLine_recast s l
  | methodBody b m depth => exact statementLine_recast s l

theorem gather_recast
    (fixed : ∀ f : FunctionDecl, f.placement.range.start.line = l.index → g f = f)
    (inside : outer = [] ∨ ∃ t, (s.gather l (blockLine dialect)).result = .ok t) :
    (s.recast g outer).gather l (blockLine dialect) =
      (s.gather l (blockLine dialect)).map (recast g outer) := by
  unfold gather at inside ⊢
  rw [closeRun_recast]
  revert inside
  split
  · exact fun _ => congrArg Outcome.ok (addComment_recast s l)
  split
  · exact fun _ => rfl
  · exact blockLine_recast s.closeRun l fixed

end ReaderState

/-- The bodies of code that are open start on no line before the given one. -/
def Sketch.OpensFrom (start : Nat) (s : Sketch) : Prop :=
  ∀ head ∈ s.heads, head.header.hasCode = true → start ≤ head.start.line

theorem Sketch.OpensFrom.act {start : Nat} {l : SourceLine} {s t : Sketch}
    (opens : s.OpensFrom start) (le : start ≤ l.index) (act : Act l s t) : t.OpensFrom start := by
  cases act with
  | rest kept => exact opens
  | annotate found outside => exact opens
  | item reads oneLine taken => exact opens
  | member inEnum reads => exact opens
  | openBlock reads block =>
    intro head member code
    rcases List.mem_cons.mp member with rfl | member
    · exact le
    · exact opens head member code
  | closeBlock => exact fun head member => opens head (List.mem_cons_of_mem _ member)

theorem Sketch.OpensFrom.move {start : Nat} {l : SourceLine} {s t : Sketch}
    (opens : s.OpensFrom start) (le : start ≤ l.index) (move : Move l s t) : t.OpensFrom start := by
  cases move with
  | inCode inside => exact opens
  | endCode code => exact fun head member => opens head (List.mem_cons_of_mem _ member)
  | gather outside comment =>
    obtain ⟨levels, run, pending⟩ := s
    cases run <;> exact opens
  | act outside code act =>
    apply Sketch.OpensFrom.act _ le act
    intro head member
    rw [Sketch.heads_closeRun] at member
    exact opens head member

/-- The rule leaves the functions alone that start on the given line or below it. -/
def KeepsFrom (start : Nat) (g : FunctionDecl → FunctionDecl) : Prop :=
  ∀ f : FunctionDecl, start ≤ f.placement.range.start.line → g f = f

section Run

variable {g : FunctionDecl → FunctionDecl} {outer : List NamespaceFrame} {start : Nat}

/-- A line takes the changed reader to the changed state, or is refused with the same error. -/
theorem ReaderState.step_recast (keeps : KeepsFrom start g) {s : ReaderState} {l : SourceLine}
    (opens : s.sketch.OpensFrom start) (le : start ≤ l.index)
    (inside : outer = [] ∨ ∃ t, (s.step dialect l).result = .ok t) :
    (s.recast g outer).step dialect l = (s.step dialect l).map (recast g outer) := by
  have fixed : ∀ f : FunctionDecl, f.placement.range.start.line = l.index → g f = f :=
    fun f here => keeps f (here ▸ le)
  obtain ⟨frames, items, focus, run, pending⟩ := s
  cases focus with
  | functionBody f depth =>
    have kept : g (f.endingAt l) = f.endingAt l :=
      keeps (f.endingAt l) (opens _ (List.mem_cons_self ..) rfl)
    simp only [step, recast, Focus.recast]
    split
    · simp only [Outcome.map_ok, push, recast, Focus.recast, List.map_cons, Statement.recast, kept]
    · rfl
  | methodBody b m depth =>
    have kept : g (m.function.endingAt l) = m.function.endingAt l :=
      keeps (m.function.endingAt l) (opens _ (List.mem_cons_self ..) rfl)
    simp only [step, recast, Focus.recast]
    split
    · simp only [Outcome.map_ok, recast, Focus.recast, OpenBlock.mapBody, OpenBlock.push,
        List.map_cons, ClassItem.recast, kept]
    · rfl
  | _ => exact gather_recast _ l fixed inside

/-- Reading some lines goes through the changed states. -/
theorem readFrom_recast (keeps : KeepsFrom start g) (lines : List (List Char)) :
    ∀ (index : Nat) (s : ReaderState), s.sketch.OpensFrom start → start ≤ index →
      (outer = [] ∨ ∃ t, (readFrom dialect index s lines).result = .ok t) →
      readFrom dialect index (s.recast g outer) lines =
        (readFrom dialect index s lines).map (ReaderState.recast g outer) := by
  induction lines with
  | nil => intro index s _ _ _; rfl
  | cons text more ih =>
    intro index s opens le inside
    have taken : outer = [] ∨ ∃ t, (s.step dialect ⟨index, text⟩).result = .ok t := by
      rcases inside with none | ⟨t, read⟩
      · exact Or.inl none
      · obtain ⟨u, stepped, -⟩ := Outcome.andThen_eq_ok read
        exact Or.inr ⟨u, stepped⟩
    simp only [readFrom]
    rw [ReaderState.step_recast keeps opens le taken]
    apply Outcome.map_andThen
    intro u stepped
    apply ih (index + 1) u (opens.move le (ReaderState.move_of_step stepped)) (Nat.le_succ_of_le le)
    rcases inside with none | ⟨t, read⟩
    · exact Or.inl none
    · obtain ⟨u', stepped', rest⟩ := Outcome.andThen_eq_ok read
      cases stepped.symm.trans stepped'
      exact Or.inr ⟨t, rest⟩

/-- What is left at the end, where no further namespace is around. -/
theorem ReaderState.finish_recast (s : ReaderState) :
    (s.recast g []).finish = s.finish.map (List.map (Statement.recast g)) := by
  have closed : (s.recast g []).closeRun.items = s.closeRun.items.map (Statement.recast g) := by
    rw [closeRun_recast]
    rfl
  unfold finish
  rw [closed]
  obtain ⟨frames, items, focus, run, pending⟩ := s
  cases focus with
  | statements =>
    cases frames with
    | nil => exact congrArg Except.ok (List.map_reverse ..).symm
    | cons frame outer => rfl
  | _ => rfl

end Run

end BrightDoc
