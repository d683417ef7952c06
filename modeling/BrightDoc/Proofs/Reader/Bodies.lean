import BrightDoc.Proofs.Reader.Simulation

/-! # Bodies of code

As long as the reader is in a body of code, some function is open in it. A comment line opens and closes
none, so it can never end a body: it leaves the reader as it is. -/

namespace BrightDoc

variable {dialect : Dialect}

/-- In a body of code at least one function is open. -/
def Focus.IsOpen : Focus → Prop
  | functionBody _ depth => 0 < depth
  | methodBody _ _ depth => 0 < depth
  | _ => True

/-- The property holds outside bodies of code, and in a body of code that a line has just opened. -/
structure HoldsFresh (P : Focus → Prop) : Prop where
  statements : P .statements
  classBody : ∀ b, P (.classBody b)
  interfaceBody : ∀ b, P (.interfaceBody b)
  enumBody : ∀ b next, P (.enumBody b next)
  functionBody : ∀ f, P (.functionBody f 1)
  methodBody : ∀ b m, P (.methodBody b m 1)

theorem holdsFresh_isOpen : HoldsFresh Focus.IsOpen where
  statements := trivial
  classBody _ := trivial
  interfaceBody _ := trivial
  enumBody _ _ := trivial
  functionBody _ := Nat.zero_lt_one
  methodBody _ _ := Nat.zero_lt_one

namespace ReaderState

variable {l : SourceLine} {P : Focus → Prop}

theorem closeRun_fresh (fresh : HoldsFresh P) {s : ReaderState} (holds : P s.focus) :
    P s.closeRun.focus := by
  obtain ⟨frames, items, focus, run, pending⟩ := s
  cases run with
  | none => exact holds
  | some c =>
    cases focus with
    | statements => exact fresh.statements
    | classBody b => exact fresh.classBody _
    | interfaceBody b => exact fresh.interfaceBody _
    | enumBody b next => exact fresh.enumBody _ _
    | functionBody f depth => exact holds
    | methodBody b m depth => exact holds

theorem statementLine_fresh (fresh : HoldsFresh P) (s : ReaderState) (holds : P s.focus) :
    Handled l (fun t => P t.focus) (s.statementLine dialect l) := by
  have declared : ∀ word, Handled l (fun t => P t.focus) (s.declare l word) := by
    intro word
    unfold declare
    repeat' split
    · exact handled_ok (fresh.classBody _)
    · exact handled_malformed .classHeader l.code
    · exact handled_ok (fresh.interfaceBody _)
    · exact handled_malformed .interfaceHeader l.code
    · exact handled_ok (fresh.enumBody _ _)
    · exact handled_malformed .enumHeader l.code
    · exact handled_ok holds
    · exact handled_malformed .namespaceHeader l.code
    · exact handled_ok holds
    · exact handled_malformed .constant l.code
  have ended : ∀ word, Handled l (fun t => P t.focus) (s.endNamespace l word) := by
    intro word
    unfold endNamespace
    repeat' split
    · exact handled_ok holds
    · exact handled_strayEnd word
    · exact handled_strayEnd word
  unfold statementLine
  split
  · exact handled_feature _ _ (handled_ok holds)
  split
  · exact ended _
  split
  · split
    · exact handled_ok (fresh.functionBody _)
    · rename_i failed
      exact handled_function_error failed
  split
  · exact handled_malformed .functionHeader l.code
  split
  · exact handled_feature _ _ (declared _)
  · exact handled_ok holds

theorem classLine_fresh (fresh : HoldsFresh P) (s : ReaderState) (b : OpenBlock ClassItem)
    (holds : P s.focus) : Handled l (fun t => P t.focus) (s.classLine dialect b l) := by
  unfold classLine
  split
  · exact handled_feature _ _ (handled_ok holds)
  split
  · split
    · exact handled_ok fresh.statements
    · exact handled_strayEnd _
  split
  · split
    · exact handled_ok (fresh.methodBody _ _)
    · rename_i failed
      exact handled_function_error failed
  split
  · exact handled_malformed .methodHeader l.code
  split
  · exact handled_ok (fresh.classBody _)
  · exact handled_ok holds

theorem interfaceLine_fresh (fresh : HoldsFresh P) (s : ReaderState) (b : OpenBlock InterfaceItem)
    (holds : P s.focus) : Handled l (fun t => P t.focus) (s.interfaceLine dialect b l) := by
  unfold interfaceLine
  split
  · exact handled_feature _ _ (handled_ok holds)
  split
  · split
    · exact handled_ok fresh.statements
    · exact handled_strayEnd _
  split
  · split
    · exact handled_ok (fresh.interfaceBody _)
    · rename_i failed
      exact handled_function_error failed
  split
  · exact handled_ok (fresh.interfaceBody _)
  · exact handled_malformed .interfaceMember l.code

theorem enumLine_fresh (fresh : HoldsFresh P) (s : ReaderState) (b : OpenBlock EnumItem)
    (next : Option Int) : Handled l (fun t => P t.focus) (s.enumLine b next l) := by
  unfold enumLine
  split
  · split
    · exact handled_ok fresh.statements
    · exact handled_strayEnd _
  split
  · dsimp only
    split
    · exact handled_warn _ (handled_ok (fresh.enumBody _ _))
    · exact handled_ok (fresh.enumBody _ _)
  · exact handled_malformed .enumMember l.code

/-- A line outside bodies of code leaves a state outside them, or one in a body just opened. -/
theorem gather_fresh (fresh : HoldsFresh P) (s : ReaderState) (holds : P s.focus) :
    Handled l (fun t => P t.focus) (s.gather l fun s l =>
      match s.focus with
      | .classBody b => s.classLine dialect b l
      | .interfaceBody b => s.interfaceLine dialect b l
      | .enumBody b next => s.enumLine b next l
      | _ => s.statementLine dialect l) := by
  have closed := closeRun_fresh fresh holds
  unfold gather
  split
  · apply handled_ok
    unfold addComment
    split <;> exact holds
  split
  · exact handled_ok closed
  dsimp only
  split
  · exact classLine_fresh fresh _ _ closed
  · exact interfaceLine_fresh fresh _ _ closed
  · exact enumLine_fresh fresh _ _ _
  · exact statementLine_fresh fresh _ closed

/-- After every line, a function is open in the body of code that the reader is in. -/
theorem step_isOpen {s t : ReaderState} (isOpen : s.focus.IsOpen)
    (stepped : (s.step dialect l).result = .ok t) : t.focus.IsOpen := by
  suffices handled : Handled l (fun t => t.focus.IsOpen) (s.step dialect l) by
    simpa only [Handled, stepped] using handled
  unfold step
  split
  · split
    · exact handled_ok trivial
    · rename_i left
      exact handled_ok (Nat.pos_of_ne_zero left)
  · split
    · exact handled_ok trivial
    · rename_i left
      exact handled_ok (Nat.pos_of_ne_zero left)
  · exact gather_fresh holdsFresh_isOpen s isOpen

/-- A comment line in a body of code changes nothing. -/
theorem step_comment_inCode {s : ReaderState} (isOpen : s.focus.IsOpen)
    (inside : s.sketch.inCode = true) (comment : Line.isComment l.text = true) :
    (s.step dialect l).result = .ok s := by
  have depth : ∀ depth, bodyDepth depth l = depth := by
    intro depth
    rw [bodyDepth, if_pos comment]
  unfold step
  obtain ⟨f, left, found⟩ | ⟨b, m, left, found⟩ := focus_of_inCode inside
  · rw [found] at isOpen
    simp only [found, depth]
    split
    · exact absurd isOpen (Nat.lt_irrefl 0)
    · rw [← found]
      rfl
  · rw [found] at isOpen
    simp only [found, depth]
    split
    · exact absurd isOpen (Nat.lt_irrefl 0)
    · rw [← found]
      rfl

end ReaderState

/-- Where a text has been read, a function is open in the body of code that the reader is in. -/
theorem isOpen_of_read {lines : List (List Char)} {t : ReaderState}
    (read : (readFrom dialect 0 {} lines).result = .ok t) : t.focus.IsOpen :=
  @state_of_read dialect (fun _ s => s.focus.IsOpen) lines t read trivial
    fun _ _ _ _ _ isOpen stepped => ReaderState.step_isOpen isOpen stepped

end BrightDoc
