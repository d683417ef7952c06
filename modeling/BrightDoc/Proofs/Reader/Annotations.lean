import BrightDoc.Proofs.Reader.Matching
import BrightDoc.Proofs.Reader.Waiting

/-! # Where annotations wait

An annotation waits from the line below its own up to the first line of the declaration that takes it.
Nothing waits any longer where a function, an enum or a single line has been read. But the end of a
class, an interface or a namespace leaves the annotations that wait, and a later declaration takes them:
only these stand above the end of a declaration before their own. -/

namespace BrightDoc

variable {dialect : Dialect}

/-- Whether annotations can wait where the declaration ends. -/
def Header.letsWait : Header → Bool
  | classDecl .. | interfaceDecl .. | namespaceDecl .. => true
  | _ => false

theorem Header.letsWait_eq_false {header : Header} (none : header.letsWait = false) :
    header.isOneLine = true ∨ header.hasCode = true ∨ header.isEnum = true := by
  cases header with
  | function signature => exact Or.inr (Or.inl rfl)
  | method signature access overrides => exact Or.inr (Or.inl rfl)
  | enumDecl name => exact Or.inr (Or.inr rfl)
  | classDecl name parent => cases none
  | interfaceDecl name parent => cases none
  | namespaceDecl name => cases none
  | _ => exact Or.inl rfl

/-- An annotation that waits stands above. -/
theorem line_lt_of_pending {lines : List (List Char)} {index : Nat} {a : Annotation}
    (waits : a ∈ pendingAfter dialect (lines.take index)) : a.range.start.line < index := by
  unfold pendingAfter at waits
  split at waits
  · rename_i s read
    have marked := (marked_of_read read).before a.range.start.line
      (List.mem_append_right _ (List.mem_map_of_mem waits))
    rw [List.length_take] at marked
    omega
  · cases waits

/-- A declaration that is open is no single line. -/
theorem ReaderState.isOneLine_of_innermost? {s : ReaderState} {head : Head}
    (innermost : s.sketch.innermost? = some head) : head.header.isOneLine = false := by
  obtain ⟨frames, items, focus, run, pending⟩ := s
  cases focus with
  | statements =>
    cases frames with
    | nil => cases innermost
    | cons frame outer =>
      cases innermost
      rfl
  | _ =>
    cases innermost
    rfl

/-- What the reader can tell of the annotations that it has met: each that waits has waited since the
line below its own, each that was taken has waited up to the declaration that took it, and none has been
left where a declaration ended that lets none wait. -/
structure ReaderState.Awaits (dialect : Dialect) (lines : List (List Char)) (index : Nat)
    (s : ReaderState) : Prop where
  now : stateBefore dialect lines index = .ok s
  waiting : ∀ a ∈ s.pending, ∀ i, a.range.start.line < i → i ≤ index →
    a ∈ pendingAfter dialect (lines.take i)
  taken : ∀ head ∈ s.sketch.declared, ∀ a ∈ head.annotations, ∀ i, a.range.start.line < i →
    i ≤ head.start.line → a ∈ pendingAfter dialect (lines.take i)
  settled : ∀ found ∈ s.sketch.closed, found.1.letsWait = false →
    pendingAfter dialect (lines.take (found.2.range.stop.line + 1)) = []

section Step

variable {lines : List (List Char)} {index : Nat} {text : List Char} {s t : ReaderState}

/-- Where a line ends a declaration that lets none wait, none does. -/
theorem ReaderState.Awaits.pending_of_finishes (awaits : s.Awaits dialect lines index)
    {found : Header × Placement} (finishes : Finishes ⟨index, text⟩ s.sketch t.sketch found)
    (none : found.1.letsWait = false) : found.2.range.stop.line = index ∧ t.pending = [] := by
  have marked := marked_of_read awaits.now
  cases finishes with
  | @line header annotations oneLine settled =>
    refine ⟨(header.rangeOn_line _).2, ?_⟩
    rcases settled with free | ⟨inEnum, kept⟩
    · exact free
    · exact kept.trans (marked.quiet inEnum)
  | @block head innermost outside kept =>
    refine ⟨rfl, Eq.trans kept ?_⟩
    have top : head ∈ s.sketch.heads ∧ s.sketch.inCode = head.header.hasCode := by
      generalize s.sketch = before at innermost
      obtain ⟨levels, run, pending⟩ := before
      cases levels with
      | nil => cases innermost
      | cons level outer =>
        obtain ⟨_, nodes⟩ := level
        cases innermost
        exact ⟨List.mem_cons_self, rfl⟩
    rcases Header.letsWait_eq_false none with oneLine | code | isEnum
    · rw [isOneLine_of_innermost? innermost] at oneLine
      cases oneLine
    · exact pending_of_inCode awaits.now (top.2.trans code)
    · exact marked.quiet (List.any_eq_true.mpr ⟨head, top.1, isEnum⟩)

theorem ReaderState.Awaits.step (awaits : s.Awaits dialect lines index)
    (here : lines[index]? = some text)
    (stepped : (s.step dialect ⟨index, text⟩).result = .ok t) : t.Awaits dialect lines (index + 1) := by
  have now : stateBefore dialect lines (index + 1) = .ok t :=
    (stateBefore_succ here awaits.now).trans stepped
  have move := move_of_step stepped
  refine ⟨now, ?_, ?_, ?_⟩
  · intro a waits i after upTo
    by_cases last : i = index + 1
    · rw [last, pendingAfter_take now]
      exact waits
    · have before : i ≤ index := by omega
      rcases waits_move move with kept | dropped | ⟨name, grown⟩
      · exact awaits.waiting a ((show t.pending = s.pending from kept) ▸ waits) i after before
      · rw [show t.pending = [] from dropped] at waits
        cases waits
      · rw [show t.pending = s.pending ++ _ from grown, List.mem_append] at waits
        rcases waits with old | new
        · exact awaits.waiting a old i after before
        · rw [List.mem_singleton.mp new] at after
          exact absurd before (Nat.not_le_of_lt after)
  · intro head declared a taken i after upTo
    rcases declares_move move with same | ⟨own, grown, line, annotations⟩
    · exact awaits.taken head (same ▸ declared) a taken i after upTo
    · rw [grown, List.mem_append] at declared
      rcases declared with old | new
      · exact awaits.taken head old a taken i after upTo
      · rw [List.mem_singleton.mp new] at taken upTo
        rcases annotations with all | none
        · rw [all] at taken
          exact awaits.waiting a taken i after (Nat.le_trans upTo (Nat.le_of_eq line))
        · rw [none] at taken
          cases taken
  · intro found closed none
    rcases closed_move move closed with before | finishes
    · exact awaits.settled found before none
    · obtain ⟨line, free⟩ := awaits.pending_of_finishes finishes none
      rw [line, pendingAfter_take now, free]

end Step

/-- What holds of the annotations in the tree of a text that is read. -/
theorem awaits_of_readLines {lines : List (List Char)} {statements : List Statement}
    (read : (readLines dialect lines).result = .ok statements) :
    ∀ found ∈ declarationsOf (outlines statements),
      (∀ a ∈ found.2.annotations, ∀ i, a.range.start.line < i → i ≤ found.2.range.start.line →
        a ∈ pendingAfter dialect (lines.take i)) ∧
      (found.1.letsWait = false →
        pendingAfter dialect (lines.take (found.2.range.stop.line + 1)) = []) := by
  obtain ⟨t, read, finished⟩ := readLines_ok read
  have awaits : t.Awaits dialect lines lines.length := by
    apply state_of_read read
    · refine ⟨rfl, ?_, ?_, ?_⟩
      · intro a waits
        cases waits
      · intro head declared
        cases declared
      · intro found closed
        rw [closed_start] at closed
        cases closed
    · intro index text s u here awaits stepped
      exact awaits.step here stepped
  intro found inside
  refine ⟨?_, awaits.settled found (closed_of_finish finished inside)⟩
  have declared : Head.ofDeclaration found ∈ t.sketch.declared := by
    rw [declared_of_finish finished]
    exact List.mem_map_of_mem inside
  exact awaits.taken _ declared

/-- The annotations of a node. -/
def Outline.annotations : Outline → List Annotation
  | comment _ => []
  | decl _ placement _ => placement.annotations

/-- Whether the node is a declaration. -/
def Outline.isDeclaration : Outline → Bool
  | comment _ => false
  | decl _ _ _ => true

/-- Whether annotations can wait where the node ends, if it is a declaration. -/
def Outline.letsWait : Outline → Bool
  | comment _ => true
  | decl header _ _ => header.letsWait

theorem Outline.mem_marks_of_annotation {node : Outline} {a : Annotation}
    (member : a ∈ node.annotations) : a.range.start.line ∈ marksOf [node] := by
  cases node with
  | comment c => cases member
  | decl header placement body =>
    rw [marksOf_decl]
    exact List.mem_append_left _ (List.mem_append_left _ (List.mem_map_of_mem member))

theorem marksOf_eq_flatMap (nodes : List Outline) :
    marksOf nodes = nodes.flatMap fun node => marksOf [node] := by
  induction nodes with
  | nil => exact marksOf_nil
  | cons node more ih => rw [← List.singleton_append, marksOf_append, ih, List.flatMap_append,
      List.flatMap_singleton]

/-- The marks of every list of siblings grow, and are below the first line of the declaration whose body
the list is. -/
theorem SiblingList.increasing {roots siblings : List Outline} {owner : Option (Header × Placement)}
    (reached : SiblingList roots owner siblings) (increasing : (marksOf roots).Pairwise (· < ·)) :
    (marksOf siblings).Pairwise (· < ·) ∧
      ∀ found ∈ owner, ∀ mark ∈ marksOf siblings, found.2.range.start.line < mark := by
  induction reached with
  | root =>
    refine ⟨increasing, ?_⟩
    intro found isOwner
    cases isOwner
  | @body owner siblings header placement body outer member ih =>
    rw [marksOf_eq_flatMap siblings, List.pairwise_flatMap] at ih
    have own := ih.1.1 _ member
    rw [marksOf_decl, List.pairwise_append] at own
    refine ⟨own.2.1, ?_⟩
    intro found isOwner mark inside
    cases isOwner
    exact own.2.2 _ (start_mem_marks placement) mark inside

/-- Annotations stay below the first line of the block around their declaration. They stay below a
declaration before their own in the same list exactly if they did not wait where it ended. Nothing waits
there where it is no class, interface or namespace; elsewhere those annotations do that no line from their
own down to the end of the declaration takes or drops. -/
theorem annotations_below_siblings_iff (dialect : Dialect) (source : String)
    (statements : List Statement) (parsed : (parse dialect source).result = .ok statements) :
    ∀ owner siblings, SiblingList (outlines statements) owner siblings →
      (∀ found ∈ owner, ∀ node ∈ siblings, ∀ a ∈ node.annotations,
        found.2.range.start.line < a.range.start.line) ∧
      siblings.Pairwise fun first second => first.isDeclaration = true →
        let left := pendingAfter dialect ((Text.lines source.toList).take (first.range.stop.line + 1))
        (∀ a ∈ second.annotations, first.range.stop.line < a.range.start.line ↔ a ∉ left) ∧
          (first.letsWait = false → left = []) ∧
          ∀ a, a ∈ left ↔
            a.WaitsTo (outlines statements) (Text.lines source.toList) (first.range.stop.line + 1) := by
  intro owner siblings reached
  have outlined := outlined_of_parse parsed
  have awaits := awaits_of_readLines parsed
  obtain ⟨ordered, -, placed⟩ := outlined.siblings reached
  obtain ⟨marks, inside⟩ := reached.increasing outlined.increasing
  refine ⟨?_, ?_⟩
  · intro found isOwner node member a annotates
    apply inside found isOwner
    rw [marksOf_eq_flatMap]
    exact List.mem_flatMap_of_mem member (Outline.mem_marks_of_annotation annotates)
  · have chain : siblings.IsChain Outline.Precedes := by
      apply ordered.imp_of_mem_imp
      intro first second _ member follows
      exact precedes_of_follows follows (placed second member)
    rw [marksOf_eq_flatMap, List.pairwise_flatMap] at marks
    refine (chain.pairwise.and marks.2).imp_of_mem ?_
    rintro first second isFirst isSecond ⟨precedes, apart⟩ isDeclaration
    cases first with
    | comment c => cases isDeclaration
    | decl header placement body =>
      have declared := reached.declarations_subset _ (mem_declarationsOf isFirst).1
      obtain ⟨last, there, -⟩ := (outlined.declared declared).valid.stop
      refine ⟨?_, (awaits _ declared).2,
        mem_pendingAfter_iff parsed (List.getElem?_eq_some_iff.mp there).1⟩
      intro a annotates
      cases second with
      | comment c => cases annotates
      | decl otherHeader other otherBody =>
        have later := reached.declarations_subset _ (mem_declarationsOf isSecond).1
        have below : placement.range.stop.line < other.range.start.line := by
          by_cases oneLine : header.isOneLine = true
          · have single : placement.range.stop.line = placement.range.start.line :=
              (outlined.declared declared).oneLine oneLine
            rw [single]
            simp only [marksOf_decl] at apart
            exact apart _ (List.mem_append_left _ (start_mem_marks placement)) _
              (List.mem_append_left _ (start_mem_marks other))
          · exact precedes.stop_lt (Bool.eq_false_iff.mpr oneLine)
        constructor
        · intro after waits
          exact absurd (line_lt_of_pending waits) (by omega)
        · intro absent
          by_contra notAfter
          exact absent ((awaits _ later).1 a annotates _ (by omega) below)

/-- The first annotation waits where the class ends, and is dropped by the line below that. -/
theorem dropped_annotation_stays_away :
    let source := "class A\n@x\nend class\nprint 1\n@y\nfunction f()\nend function"
    ∃ statements, (parse .brighterScript source).result = .ok statements ∧
      (annotationsOf (outlines statements)).map (fun a => a.range.start.line) = [4] ∧
      (outlines statements).Pairwise fun first second => first.isDeclaration = true →
        ∀ a ∈ second.annotations, first.range.stop.line < a.range.start.line ↔
          a ∉ pendingAfter .brighterScript
            ((Text.lines source.toList).take (first.range.stop.line + 1)) := by
  intro source
  have run : (parse .brighterScript source).result.toOption.map (fun statements =>
      (annotationsOf (outlines statements)).map fun a => a.range.start.line) = some [4] := by
    decide +kernel
  cases parsed : (parse .brighterScript source).result with
  | error e =>
    rw [parsed] at run
    cases run
  | ok statements =>
    rw [parsed] at run
    obtain ⟨-, below⟩ := annotations_below_siblings_iff .brighterScript source statements parsed none
      _ .root
    refine ⟨statements, rfl, Option.some.inj run, below.imp ?_⟩
    intro first second below isDeclaration
    exact (below isDeclaration).1

/-- An annotation at the end of a class is taken by the function after the class. -/
theorem class_end_leaves_annotation :
    let source := "class A\n@x\nend class\nfunction f()\nend function"
    ∃ statements, (parse .brighterScript source).result = .ok statements ∧
      ¬ (outlines statements).Pairwise fun first second => first.isDeclaration = true →
        ∀ a ∈ second.annotations, first.range.stop.line < a.range.start.line := by
  intro source
  have run : (parse .brighterScript source).result.toOption.map (fun statements =>
      decide ((outlines statements).Pairwise fun first second => first.isDeclaration = true →
        ∀ a ∈ second.annotations, first.range.stop.line < a.range.start.line)) = some false := by
    decide +kernel
  cases parsed : (parse .brighterScript source).result with
  | error e =>
    rw [parsed] at run
    cases run
  | ok statements =>
    rw [parsed] at run
    exact ⟨statements, rfl, of_decide_eq_false (Option.some.inj run)⟩

end BrightDoc
