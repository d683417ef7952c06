import BrightDoc.Proofs.Line.Reindented
import BrightDoc.Proofs.Reader.Concatenation
import BrightDoc.Proofs.Reader.OpenBlocks

/-! # How far an annotation waits

An annotation waits below its own line as long as no line takes it or drops it, and which lines do is told
by their texts and by the tree that they are in. Comment lines, blank lines, other annotations and lines
that end a block leave it. Headers and members take it. Any other line drops it, except in a class. -/

namespace BrightDoc

variable {dialect : Dialect}

/-- Whether an annotation above a line, which is no line of code, still waits below it. In a class it does
where the line is no member. -/
def Line.letsWait (inClass : Bool) (line : List Char) : Bool :=
  isComment line || isBlank line || (annotationName? line).isSome ||
    (blockEnd? (splitComment line).1).isSome ||
    inClass && (functionHeader? (splitComment line).1).isNone && (field? (splitComment line).1).isNone

/-- The annotation that a line is, if it is one. -/
def SourceLine.annotation? (l : SourceLine) : Option Annotation :=
  (Line.annotationName? l.text).map fun name => { name := String.ofList name, range := l.range }

/-- Whether the declaration is a class. -/
def Header.isClass : Header → Bool
  | classDecl .. => true
  | _ => false

/-- Whether the next line belongs to a class, and not to one of its methods. -/
def Focus.isClass : Focus → Bool
  | classBody _ => true
  | _ => false

section Texts

open BrightDoc.Text

/-- An annotation line is no other line. -/
theorem Line.only_annotation {line name : List Char} (found : annotationName? line = some name) :
    isComment line = false ∧ isBlank line = false ∧ blockEnd? (splitComment line).1 = none ∧
      enumMember? (splitComment line).1 = none := by
  obtain ⟨rest, start⟩ : ∃ rest, skipSpace line = '@' :: rest := by
    rw [annotationName?] at found
    split at found
    · rename_i rest start
      exact ⟨rest, start⟩
    · cases found
  have same : Reindented line ('@' :: rest) := start
  obtain ⟨code, codeStart⟩ : ∃ code, (splitComment ('@' :: rest)).1 = '@' :: code := ⟨_, rfl⟩
  have sameCode := same.code
  rw [codeStart] at sameCode
  rw [same.isComment_eq, same.isBlank_eq, sameCode.blockEnd?_eq, sameCode.enumMember?_eq]
  exact ⟨rfl, rfl, rfl, rfl⟩

end Texts

/-- `Passes l inClass before after`: of the annotations that wait before the line those are left that still
wait below it, and the line is one more if it is an annotation. -/
def Passes (l : SourceLine) (inClass : Bool) (before after : List Annotation) : Prop :=
  after = (if Line.letsWait inClass l.text then before else []) ++ l.annotation?.toList

section Passes

variable {l : SourceLine} {inClass : Bool} {before : List Annotation}

theorem passes_annotation {name : List Char} (found : Line.annotationName? l.text = some name) :
    Passes l inClass before (before ++ [{ name := String.ofList name, range := l.range }]) := by
  have waits : Line.letsWait inClass l.text = true := by simp [Line.letsWait, found]
  rw [Passes, if_pos waits, SourceLine.annotation?, found]
  rfl

/-- What tells of a line that is no comment, not blank and no annotation. -/
theorem letsWait_eq (plain : Line.isComment l.text = false) (inked : Line.isBlank l.text = false)
    (noMark : Line.annotationName? l.text = none) :
    Line.letsWait inClass l.text = ((Line.blockEnd? l.code).isSome ||
      inClass && (Line.functionHeader? l.code).isNone && (Line.field? l.code).isNone) := by
  simp [Line.letsWait, plain, inked, noMark, SourceLine.code]

theorem passes_kept (waits : Line.letsWait inClass l.text = true)
    (noMark : Line.annotationName? l.text = none) : Passes l inClass before before := by
  rw [Passes, if_pos waits, SourceLine.annotation?, noMark, Option.map_none, Option.toList_none,
    List.append_nil]

theorem passes_none (ends : Line.letsWait inClass l.text = false)
    (noMark : Line.annotationName? l.text = none) : Passes l inClass before [] := by
  rw [Passes, if_neg (Bool.eq_false_iff.mp ends), SourceLine.annotation?, noMark]
  rfl

end Passes

namespace ReaderState

variable {l : SourceLine} {s t : ReaderState}

theorem pending_endNamespace {word : List Char} (stepped : (s.endNamespace l word).result = .ok t) :
    t.pending = s.pending := by
  unfold endNamespace at stepped
  split at stepped
  · split at stepped
    · cases stepped
      rfl
    · cases stepped
  · cases stepped

theorem pending_declare {word : List Char} (stepped : (s.declare l word).result = .ok t) :
    t.pending = [] := by
  unfold declare at stepped
  repeat' split at stepped
  all_goals cases stepped
  all_goals rfl

section Lines

variable (plain : Line.isComment l.text = false) (inked : Line.isBlank l.text = false)

include plain inked

theorem passes_statementLine (stepped : (s.statementLine dialect l).result = .ok t) :
    Passes l false s.pending t.pending := by
  unfold statementLine at stepped
  split at stepped
  · rename_i name found
    rw [annotationLine, Outcome.feature_result] at stepped
    cases stepped
    exact passes_annotation found
  rename_i noMark
  split at stepped
  · rename_i word found
    rw [pending_endNamespace stepped]
    exact passes_kept (by simp [letsWait_eq plain inked noMark, found]) noMark
  rename_i noEnd
  have none : t.pending = [] := by
    split at stepped
    · split at stepped
      · cases stepped
        rfl
      · cases stepped
    split at stepped
    · cases stepped
    split at stepped
    · rw [Outcome.feature_result] at stepped
      exact pending_declare stepped
    · cases stepped
      rfl
  rw [none]
  exact passes_none (by simp [letsWait_eq plain inked noMark, noEnd]) noMark

theorem passes_classLine {b : OpenBlock ClassItem}
    (stepped : (s.classLine dialect b l).result = .ok t) : Passes l true s.pending t.pending := by
  unfold classLine at stepped
  split at stepped
  · rename_i name found
    rw [annotationLine, Outcome.feature_result] at stepped
    cases stepped
    exact passes_annotation found
  rename_i noMark
  split at stepped
  · rename_i word found
    split at stepped
    · cases stepped
      exact passes_kept (by simp [letsWait_eq plain inked noMark, found]) noMark
    · cases stepped
  rename_i noEnd
  split at stepped
  · rename_i header found
    split at stepped
    · cases stepped
      exact passes_none (by simp [letsWait_eq plain inked noMark, noEnd, found]) noMark
    · cases stepped
  rename_i noHeader
  split at stepped
  · cases stepped
  split at stepped
  · rename_i parts found
    cases stepped
    exact passes_none (by simp [letsWait_eq plain inked noMark, noEnd, found]) noMark
  · rename_i noField
    cases stepped
    exact passes_kept (by simp [letsWait_eq plain inked noMark, noHeader, noField]) noMark

theorem passes_interfaceLine {b : OpenBlock InterfaceItem}
    (stepped : (s.interfaceLine dialect b l).result = .ok t) : Passes l false s.pending t.pending := by
  unfold interfaceLine at stepped
  split at stepped
  · rename_i name found
    rw [annotationLine, Outcome.feature_result] at stepped
    cases stepped
    exact passes_annotation found
  rename_i noMark
  split at stepped
  · rename_i word found
    split at stepped
    · cases stepped
      exact passes_kept (by simp [letsWait_eq plain inked noMark, found]) noMark
    · cases stepped
  rename_i noEnd
  have none : t.pending = [] := by
    dsimp only at stepped
    split at stepped
    · split at stepped
      · cases stepped
        rfl
      · cases stepped
    split at stepped
    · cases stepped
      rfl
    · cases stepped
  rw [none]
  exact passes_none (by simp [letsWait_eq plain inked noMark, noEnd]) noMark

omit plain inked in
/-- In an enum nothing waits. -/
theorem passes_enumLine {b : OpenBlock EnumItem} {next : Option Int} (quiet : s.pending = [])
    (stepped : (s.enumLine b next l).result = .ok t) : Passes l false s.pending t.pending := by
  have noMark : Line.annotationName? l.text = none := by
    rw [Option.eq_none_iff_forall_ne_some]
    intro name found
    obtain ⟨-, -, noEnd, noMember⟩ := Line.only_annotation found
    unfold enumLine at stepped
    rw [show Line.blockEnd? l.code = none from noEnd,
      show Line.enumMember? l.code = none from noMember] at stepped
    cases stepped
  have none : t.pending = [] := by
    unfold enumLine at stepped
    split at stepped
    · split at stepped
      · cases stepped
        exact quiet
      · cases stepped
    split at stepped
    · dsimp only at stepped
      split at stepped
      · cases stepped
        exact quiet
      · cases stepped
        exact quiet
    · cases stepped
  rw [none, quiet]
  cases waits : Line.letsWait false l.text with
  | true => exact passes_kept waits noMark
  | false => exact passes_none waits noMark

end Lines

theorem closeRun_focus (s : ReaderState) :
    s.closeRun.focus.isClass = s.focus.isClass ∧ s.closeRun.pending = s.pending := by
  obtain ⟨frames, items, focus, run, pending⟩ := s
  cases run with
  | none => exact ⟨rfl, rfl⟩
  | some c => cases focus <;> exact ⟨rfl, rfl⟩

theorem inEnum_of_closeRun {b : OpenBlock EnumItem} {next : Option Int}
    (found : s.closeRun.focus = .enumBody b next) : s.sketch.inEnum = true := by
  obtain ⟨frames, items, focus, run, pending⟩ := s
  cases focus with
  | enumBody b next => rfl
  | _ => cases run <;> cases found

/-- What a line outside bodies of code leaves waiting. -/
theorem passes_step (outside : s.sketch.inCode = false)
    (quiet : s.sketch.inEnum = true → s.pending = []) (stepped : (s.step dialect l).result = .ok t) :
    Passes l s.focus.isClass s.pending t.pending := by
  have gathered : ∀ handle : ReaderState → SourceLine → Outcome ReaderState,
      (Line.isComment l.text = false → Line.isBlank l.text = false →
        (handle s.closeRun l).result = .ok t → Passes l s.focus.isClass s.pending t.pending) →
      (s.gather l handle).result = .ok t → Passes l s.focus.isClass s.pending t.pending := by
    intro handle handled gathered
    have noMark : Line.isComment l.text = true ∨ Line.isBlank l.text = true →
        Line.annotationName? l.text = none := by
      intro other
      rw [Option.eq_none_iff_forall_ne_some]
      intro name found
      obtain ⟨plain, inked, -⟩ := Line.only_annotation found
      simp [plain, inked] at other
    unfold gather at gathered
    split at gathered
    · rename_i comment
      cases gathered
      have kept : (s.addComment l).pending = s.pending := by
        unfold addComment
        split <;> rfl
      rw [kept]
      exact passes_kept (by simp [Line.letsWait, comment]) (noMark (Or.inl comment))
    rename_i plain
    split at gathered
    · rename_i blank
      cases gathered
      rw [s.closeRun_focus.2]
      exact passes_kept (by simp [Line.letsWait, blank]) (noMark (Or.inr blank))
    · rename_i inked
      exact handled (Bool.eq_false_iff.mpr plain) (Bool.eq_false_iff.mpr inked) gathered
  obtain ⟨sameFocus, samePending⟩ := s.closeRun_focus
  unfold step at stepped
  split at stepped
  · rename_i f depth found
    simp only [sketch, levels, found] at outside
    cases outside
  · rename_i b m depth found
    simp only [sketch, levels, found] at outside
    cases outside
  · refine gathered _ ?_ stepped
    intro plain inked handled
    rw [← sameFocus, ← samePending]
    split at handled
    · rename_i b found
      rw [found]
      exact passes_classLine plain inked handled
    · rename_i b found
      rw [found]
      exact passes_interfaceLine plain inked handled
    · rename_i b next found
      rw [found]
      exact passes_enumLine (samePending.trans (quiet (inEnum_of_closeRun found))) handled
    · rename_i notClass notInterface notEnum
      have inList : s.closeRun.focus.isClass = false := by
        cases focus : s.closeRun.focus with
        | classBody b => exact absurd focus (notClass b)
        | _ => rfl
      rw [inList]
      exact passes_statementLine plain inked handled

end ReaderState

section Code

variable {l : SourceLine} {s t : Sketch}

theorem quietCode_act (plain : s.PlainAround) (outside : s.inCode = false) (act : Act l s t)
    (inside : t.inCode = true) : t.pending = [] := by
  have never : ∀ {u : Sketch}, u.inCode = false → u.inCode = true → t.pending = [] := by
    intro u outside inside
    rw [outside] at inside
    cases inside
  cases act with
  | rest kept => exact never outside inside
  | annotate found _ => exact never outside inside
  | item reads oneLine taken => rfl
  | member inEnum reads => exact never outside inside
  | openBlock reads block => rfl
  | closeBlock => exact never (plain.outside _) inside

theorem quietCode_move (plain : s.PlainAround) (quiet : s.inCode = true → s.pending = [])
    (move : Move l s t) (inside : t.inCode = true) : t.pending = [] := by
  cases move with
  | inCode _ => exact quiet inside
  | endCode code =>
    rw [plain.outside] at inside
    cases inside
  | gather outside comment =>
    have same : (s.addComment l).inCode = s.inCode := by
      obtain ⟨levels, run, pending⟩ := s
      cases run <;> rfl
    rw [same, outside] at inside
    cases inside
  | act outside code act =>
    exact quietCode_act plain.closeRun (s.inCode_closeRun.trans outside) act inside

end Code

namespace ReaderState

variable {lines : List (List Char)} {s t : ReaderState}

/-- In a body of code nothing waits. -/
theorem pending_of_inCode (read : (readFrom dialect 0 {} lines).result = .ok s)
    (inside : s.sketch.inCode = true) : s.pending = [] := by
  have quiet : s.sketch.inCode = true → s.sketch.pending = [] := by
    apply @state_of_read dialect (fun _ s => s.sketch.inCode = true → s.sketch.pending = [])
      lines s read
    · exact fun _ => rfl
    · intro index text s t _ quiet stepped
      exact quietCode_move s.plainAround quiet (move_of_step stepped)
  exact quiet inside

/-- A line of a body of code makes no difference to what waits. -/
theorem pending_of_step {l : SourceLine} (inside : s.sketch.inCode = true)
    (stepped : (s.step dialect l).result = .ok t) : t.pending = s.pending := by
  have found := focus_of_inCode inside
  obtain ⟨frames, items, focus, run, pending⟩ := s
  unfold step at stepped
  obtain ⟨f, depth, rfl⟩ | ⟨b, m, depth, rfl⟩ := found
  · dsimp only at stepped
    split at stepped
    · cases stepped
      rfl
    · cases stepped
      rfl
  · dsimp only at stepped
    split at stepped
    · cases stepped
      rfl
    · cases stepped
      rfl

/-- The lists of statements are those of namespaces. -/
theorem isClass_of_mem_statementLevels {run : Option Comment} {pending : List Annotation} {head : Head}
    (inside : head ∈ Sketch.heads ⟨s.statementLevel :: outerLevels s.frames, run, pending⟩) :
    head.header.isClass = false := by
  obtain ⟨frames, items, focus, oldRun, oldPending⟩ := s
  simp only [statementLevel, Sketch.heads] at inside
  induction frames generalizing items with
  | nil => cases inside
  | cons frame outer ih =>
    rcases List.mem_cons.mp inside with rfl | around
    · rfl
    · exact ih frame.before around

/-- Outside bodies of code a class is open exactly if the next line belongs to it. -/
theorem isClass_focus_iff (outside : s.sketch.inCode = false) :
    s.focus.isClass = true ↔ ∃ head ∈ s.sketch.heads, head.header.isClass = true := by
  have around := @isClass_of_mem_statementLevels s s.run s.pending
  obtain ⟨frames, items, focus, run, pending⟩ := s
  -- A block that is no class has only itself and namespaces around the line.
  have noClass : ∀ own : Option Head, (∀ head ∈ own, head.header.isClass = false) →
      ¬∃ head ∈ own.toList ++ Sketch.heads ⟨statementLevel ⟨frames, items, focus, run, pending⟩ ::
        outerLevels frames, run, pending⟩, head.header.isClass = true := by
    rintro own plain ⟨head, inside, isClass⟩
    rcases List.mem_append.mp inside with isOwn | isAround
    · rw [plain head (Option.mem_toList.mp isOwn)] at isClass
      cases isClass
    · rw [around isAround] at isClass
      cases isClass
  cases focus with
  | functionBody f depth => cases outside
  | methodBody b m depth => cases outside
  | statements => exact iff_of_false Bool.false_ne_true (noClass none (by simp))
  | classBody b => exact iff_of_true rfl ⟨_, List.mem_cons_self, rfl⟩
  | interfaceBody b =>
    let own : Head := ⟨.interfaceDecl b.name b.parent, b.start, b.annotations⟩
    exact iff_of_false Bool.false_ne_true (noClass (some own) (by rintro _ ⟨⟩; rfl))
  | enumBody b next =>
    let own : Head := ⟨.enumDecl b.name, b.start, b.annotations⟩
    exact iff_of_false Bool.false_ne_true (noClass (some own) (by rintro _ ⟨⟩; rfl))

/-- A body of code is open exactly if the next line belongs to it. -/
theorem inCode_iff (s : ReaderState) :
    s.sketch.inCode = true ↔ ∃ head ∈ s.sketch.heads, head.header.hasCode = true := by
  constructor
  · intro inside
    generalize s.sketch = before at inside
    obtain ⟨levels, run, pending⟩ := before
    cases levels with
    | nil => cases inside
    | cons level outer =>
      obtain ⟨own, nodes⟩ := level
      cases own with
      | none => cases inside
      | some head => exact ⟨head, List.mem_cons_self, inside⟩
  · rintro ⟨head, inside, code⟩
    by_contra outside
    have opens := opensFrom_of_outside (Bool.eq_false_iff.mpr outside) (head.start.line + 1)
    exact absurd (opens head inside code) (Nat.not_succ_le_self _)

end ReaderState

theorem pendingAfter_take {lines : List (List Char)} {index : Nat} {s : ReaderState}
    (before : stateBefore dialect lines index = .ok s) :
    pendingAfter dialect (lines.take index) = s.pending := by
  rw [stateBefore] at before
  rw [pendingAfter, before]

/-- Whether the line is in a declaration of the kind. -/
def standsIn (kind : Header → Bool) (roots : List Outline) (index : Nat) : Bool :=
  (declarationsOf roots).any fun found => kind found.1 && found.2.Spans index

/-- The annotation is one of the text outside bodies of code, and no line from there down to the line
`index` takes it or drops it. -/
structure Annotation.WaitsTo (roots : List Outline) (lines : List (List Char)) (index : Nat)
    (a : Annotation) : Prop where
  above : a.range.start.line < index
  written : ∃ line, lines[a.range.start.line]? = some line ∧
    SourceLine.annotation? ⟨a.range.start.line, line⟩ = some a
  outside : standsIn Header.hasCode roots a.range.start.line = false
  passed : ∀ i, a.range.start.line < i → i < index → ∀ line, lines[i]? = some line →
    Line.letsWait (standsIn Header.isClass roots i) line = true

section Tree

variable {lines : List (List Char)} {statements : List Statement} {index : Nat}

/-- A declaration of a kind is open before a line if the line is in one. -/
theorem standsIn_iff (read : (readLines dialect lines).result = .ok statements)
    (within : index ≤ lines.length) {s : ReaderState} (now : stateBefore dialect lines index = .ok s)
    (kind : Header → Bool) :
    standsIn kind (outlines statements) index = true ↔
      ∃ head ∈ s.sketch.heads, kind head.header = true := by
  simp only [standsIn, List.any_eq_true, Bool.and_eq_true, decide_eq_true_eq,
    mem_heads_iff read within now]
  constructor
  · rintro ⟨found, declared, isKind, spans⟩
    exact ⟨_, ⟨found, declared, rfl, spans⟩, isKind⟩
  · rintro ⟨_, ⟨found, declared, rfl, spans⟩, isKind⟩
    exact ⟨found, declared, isKind, spans⟩

theorem exists_stateBefore (read : (readLines dialect lines).result = .ok statements) (index : Nat) :
    ∃ s, stateBefore dialect lines index = .ok s := by
  obtain ⟨t, readAll, -⟩ := readLines_ok read
  cases now : stateBefore dialect lines index with
  | ok s => exact ⟨s, rfl⟩
  | error e =>
    rw [← List.take_append_drop index lines, readFrom_append, Outcome.andThen,
      show (readFrom dialect 0 {} (lines.take index)).result = .error e from now] at readAll
    cases readAll

theorem Annotation.WaitsTo.succ_iff {roots : List Outline} {line : List Char} {a : Annotation}
    (here : lines[index]? = some line) :
    a.WaitsTo roots lines (index + 1) ↔
      (a.WaitsTo roots lines index ∧ Line.letsWait (standsIn Header.isClass roots index) line = true) ∨
        (SourceLine.annotation? ⟨index, line⟩ = some a ∧
          standsIn Header.hasCode roots index = false) := by
  constructor
  · rintro ⟨above, ⟨own, found, isOwn⟩, outside, passed⟩
    rcases Nat.lt_or_eq_of_le (Nat.le_of_lt_succ above) with before | rfl
    · refine Or.inl ⟨⟨before, ⟨own, found, isOwn⟩, outside, ?_⟩,
        passed index before (Nat.lt_succ_self _) line here⟩
      exact fun i after upTo => passed i after (Nat.lt_succ_of_lt upTo)
    · cases found.symm.trans here
      exact Or.inr ⟨isOwn, outside⟩
  · rintro (⟨⟨above, written, outside, passed⟩, waits⟩ | ⟨isOwn, outside⟩)
    · refine ⟨Nat.lt_succ_of_lt above, written, outside, ?_⟩
      intro i after upTo other found
      rcases Nat.lt_or_eq_of_le (Nat.le_of_lt_succ upTo) with before | rfl
      · exact passed i after before other found
      · cases found.symm.trans here
        exact waits
    · have same : a.range.start.line = index := by
        obtain ⟨name, -, rfl⟩ := Option.map_eq_some_iff.mp isOwn
        rfl
      refine ⟨by omega, ⟨line, same ▸ here, same ▸ isOwn⟩, same ▸ outside, ?_⟩
      intro i after upTo
      omega

/-- The annotations that wait above a line of a text that can be read are told by the texts of the lines
and the tree. -/
theorem mem_pendingAfter_iff (read : (readLines dialect lines).result = .ok statements)
    (within : index ≤ lines.length) (a : Annotation) :
    a ∈ pendingAfter dialect (lines.take index) ↔ a.WaitsTo (outlines statements) lines index := by
  induction index with
  | zero =>
    refine iff_of_false ?_ fun waits => absurd waits.above (Nat.not_lt_zero _)
    rw [List.take_zero]
    exact List.not_mem_nil
  | succ index ih =>
    have ih := ih (Nat.le_of_succ_le within)
    obtain ⟨s, now⟩ := exists_stateBefore read index
    obtain ⟨t, next⟩ := exists_stateBefore read (index + 1)
    have here : lines[index]? = some lines[index] := List.getElem?_eq_getElem within
    have stepped := (stateBefore_succ here now).symm.trans next
    rw [pendingAfter_take now] at ih
    rw [pendingAfter_take next, Annotation.WaitsTo.succ_iff here, ← ih]
    have stands := standsIn_iff read (Nat.le_of_succ_le within) now
    cases inside : s.sketch.inCode with
    | true =>
      have none := ReaderState.pending_of_inCode now inside
      have inCode := (stands Header.hasCode).mpr (s.inCode_iff.mp inside)
      rw [ReaderState.pending_of_step inside stepped, none, inCode]
      simp
    | false =>
      have inClass : standsIn Header.isClass (outlines statements) index = s.focus.isClass := by
        rw [Bool.eq_iff_iff, stands, ReaderState.isClass_focus_iff inside]
      have notInCode : standsIn Header.hasCode (outlines statements) index = false := by
        rw [Bool.eq_false_iff, ne_eq, stands, ← s.inCode_iff, inside]
        exact Bool.false_ne_true
      have passes : t.pending = _ := ReaderState.passes_step inside (marked_of_read now).quiet stepped
      rw [passes, inClass, notInCode, List.mem_append, Option.mem_toList]
      dsimp only
      cases Line.letsWait s.focus.isClass lines[index] <;> simp

end Tree

end BrightDoc
