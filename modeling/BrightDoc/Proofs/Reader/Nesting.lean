import BrightDoc.Proofs.Reader.Places
import BrightDoc.Proofs.Reader.Simulation

/-! # The outline of a text is well nested

`Sketch.Nested` is what every move keeps: the nodes of each open list stand in the text and follow
each other, all before the line that comes next, and around the open declarations the same holds
before their first lines. Closing a declaration makes a placed node of it. -/

namespace BrightDoc

variable {dialect : Dialect}

/-- The open list is in order and stands before the given line. -/
structure Level.Fits (lines : List (List Char)) (line : Nat) (level : Level) : Prop where
  placed : ∀ node ∈ level.nodes, node.Placed lines
  before : ∀ node ∈ level.nodes, node.range.stop.line < line
  ordered : level.nodes.reverse.IsChain (Outline.Follows lines)
  enclosed : ∀ head ∈ level.head, ∀ index node, level.nodes.reverse[index]? = some node →
    head.start.line < node.range.start.line ∨
      index = 0 ∧ node.Trails lines head.start.line

/-- The open declaration starts in the text. -/
structure Head.Fits (lines : List (List Char)) (head : Head) : Prop where
  start : head.start.In lines
  annotations : ∀ a ∈ head.annotations, a.PlacedIn lines
  read : ∃ text, lines[head.start.line]? = some text ∧ Line.isComment text = false ∧
    Reads ⟨head.start.line, text⟩ head.header
  block : head.header.isOneLine = false

/-- The open lists are in order, the innermost one before the given line and each other one before the
first line of the declaration that is open in it. -/
def LevelsFit (lines : List (List Char)) : Nat → List Level → Prop
  | _, [] => True
  | line, level :: outer =>
    level.Fits lines line ∧ ∀ head ∈ level.head,
      head.Fits lines ∧ head.start.line < line ∧ LevelsFit lines head.start.line outer

/-- What holds of the sketch before the given line. -/
structure Sketch.Nested (lines : List (List Char)) (line : Nat) (s : Sketch) : Prop where
  open_levels : s.run = none → LevelsFit lines line s.levels
  run : ∀ c ∈ s.run, c.PlacedIn lines ∧ c.IsFullLine lines ∧ c.range.stop.line + 1 = line ∧
    LevelsFit lines c.range.start.line s.levels
  code : s.inCode = true → s.run = none
  pending : ∀ a ∈ s.pending, a.PlacedIn lines

section Levels

variable {lines : List (List Char)}

theorem Level.Fits.mono {first second : Nat} {level : Level} (fits : level.Fits lines first)
    (le : first ≤ second) : level.Fits lines second := by
  refine ⟨fits.placed, ?_, fits.ordered, fits.enclosed⟩
  intro node member
  exact Nat.lt_of_lt_of_le (fits.before node member) le

theorem LevelsFit.mono {first second : Nat} {levels : List Level}
    (fit : LevelsFit lines first levels) (le : first ≤ second) : LevelsFit lines second levels := by
  cases levels with
  | nil => trivial
  | cons level outer =>
    refine ⟨fit.1.mono le, ?_⟩
    intro head found
    obtain ⟨fits, before, around⟩ := fit.2 head found
    exact ⟨fits, Nat.lt_of_lt_of_le before le, around⟩

theorem Level.Fits.push {first second : Nat} {head : Option Head} {nodes : List Outline}
    {node : Outline} (fits : Level.Fits lines first ⟨head, nodes⟩) (le : first ≤ second)
    (placed : node.Placed lines) (before : node.range.stop.line < second)
    (follows : ∀ last ∈ nodes.head?, Outline.Follows lines last node)
    (inside : ∀ h ∈ head, h.start.line < node.range.start.line) :
    Level.Fits lines second ⟨head, node :: nodes⟩ := by
  have later := fits.mono le
  refine ⟨?_, ?_, ?_, ?_⟩
  · intro other member
    rcases List.mem_cons.mp member with rfl | member
    · exact placed
    · exact later.placed other member
  · intro other member
    rcases List.mem_cons.mp member with rfl | member
    · exact before
    · exact later.before other member
  · rw [List.reverse_cons, List.isChain_append]
    refine ⟨later.ordered, List.isChain_singleton node, ?_⟩
    intro last isLast next isNext
    rw [List.getLast?_reverse] at isLast
    cases isNext
    exact follows last isLast
  · intro h found index other here
    rw [List.reverse_cons] at here
    by_cases old : index < nodes.reverse.length
    · rw [List.getElem?_append_left old] at here
      exact later.enclosed h found index other here
    · rw [List.getElem?_append_right (Nat.le_of_not_lt old)] at here
      have same : other = node := by
        have member := List.mem_of_getElem? here
        exact List.mem_singleton.mp member
      rw [same]
      exact Or.inl (inside h found)

/-- A node that starts on no line before the given one goes to the end of the innermost list. -/
theorem LevelsFit.push {first second : Nat} {head : Option Head} {nodes : List Outline}
    {outer : List Level} {node : Outline}
    (fit : LevelsFit lines first (⟨head, nodes⟩ :: outer)) (placed : node.Placed lines)
    (after : first ≤ node.range.start.line) (before : node.range.stop.line < second) :
    LevelsFit lines second (⟨head, node :: nodes⟩ :: outer) := by
  have le : first ≤ second :=
    Nat.le_of_lt (Nat.lt_of_le_of_lt (Nat.le_trans after placed.line_le) before)
  refine ⟨fit.1.push le placed before ?_ ?_, (fit.mono le).2⟩
  · intro last isLast
    have earlier := fit.1.before last (List.mem_of_head? isLast)
    exact Or.inl (Nat.lt_of_lt_of_le earlier after)
  · intro h found
    exact Nat.lt_of_lt_of_le (fit.2 h found).2.1 after

end Levels

section Lines

variable {lines : List (List Char)} {l : SourceLine}

theorem Header.rangeOn_valid (header : Header) (here : lines[l.index]? = some l.text)
    (inked : Line.Inked l.code) : (header.rangeOn l).Valid lines := by
  have whole : l.range.Valid lines := by
    obtain ⟨c, member, notWhite⟩ := inked
    exact SourceLine.range_valid here ⟨c, l.code_isPrefix.subset member, notWhite⟩
  have code := SourceLine.codeRange_valid here inked
  cases header <;> first | exact code | exact whole

/-- The comment that ends a first line is a node of its own on that line. -/
theorem trailing?_placed {c : Comment} {header : Header} (here : lines[l.index]? = some l.text)
    (notComment : Line.isComment l.text = false) (reads : Reads l header)
    (found : l.trailing? = some c) :
    (Outline.comment c).Placed lines ∧ c.IsTrailing lines ∧ c.range.start.line = l.index ∧
      c.range.stop.line = l.index := by
  obtain ⟨trailing, line⟩ := SourceLine.trailing?_isTrailing here notComment reads.inked found
  refine ⟨.comment ⟨trailing.valid, Or.inl trailing⟩, trailing, line, ?_⟩
  rw [trailing.oneLine, line]

theorem LevelsFit.item {head : Option Head} {nodes : List Outline} {outer : List Level}
    {header : Header} {annotations : List Annotation}
    (fit : LevelsFit lines l.index (⟨head, nodes⟩ :: outer))
    (here : lines[l.index]? = some l.text) (notComment : Line.isComment l.text = false)
    (reads : Reads l header) (oneLine : header.isOneLine = true)
    (annotated : ∀ a ∈ annotations, a.PlacedIn lines) :
    LevelsFit lines (l.index + 1)
      (⟨head, l.trailingNodes ++
        .decl header { range := header.rangeOn l, annotations } [] :: nodes⟩ :: outer) := by
  obtain ⟨starts, stops⟩ := header.rangeOn_line l
  have placed : (Outline.decl header { range := header.rangeOn l, annotations } []).Placed lines := by
    refine .decl ⟨header.rangeOn_valid here reads.inked, annotated, ?_, ?_, ?_⟩ List.isChain_nil
      ?_ ?_
    · rw [starts]
      exact ⟨l.text, here, notComment, reads⟩
    · intro _
      rw [starts, stops]
    · intro block
      rw [oneLine] at block
      cases block
    · intro index node found
      simp at found
    · intro node member
      simp at member
  have declared := fit.push placed (Nat.le_of_eq starts.symm)
    (Nat.lt_succ_of_le (Nat.le_of_eq stops))
  cases found : l.trailing? with
  | none =>
    rw [trailingNodes_of_none found]
    exact declared
  | some c =>
    obtain ⟨commented, trailing, line, stop⟩ := trailing?_placed here notComment reads found
    rw [trailingNodes_of_some found]
    refine ⟨declared.1.push (Nat.le_refl _) commented ?_ ?_ ?_, declared.2⟩
    · change c.range.stop.line < l.index + 1
      rw [stop]
      exact Nat.lt_succ_self _
    -- The comment stands on the very line of the declaration before it.
    · intro last isLast
      cases isLast
      exact Or.inr ⟨oneLine, c, rfl, trailing, line.trans stops.symm⟩
    · intro h found
      change h.start.line < c.range.start.line
      rw [line]
      exact (fit.2 h found).2.1

theorem LevelsFit.openBlock {levels : List Level} {header : Header}
    {annotations : List Annotation} (fit : LevelsFit lines l.index levels)
    (here : lines[l.index]? = some l.text) (notComment : Line.isComment l.text = false)
    (reads : Reads l header) (block : header.isOneLine = false)
    (annotated : ∀ a ∈ annotations, a.PlacedIn lines) :
    LevelsFit lines (l.index + 1)
      (⟨some { header, start := l.start, annotations },
        if header.hasCode then [] else l.trailingNodes⟩ :: levels) := by
  have fresh : Level.Fits lines (l.index + 1) ⟨some { header, start := l.start, annotations }, []⟩ := by
    refine ⟨?_, ?_, List.isChain_nil, ?_⟩ <;> simp
  refine ⟨?_, ?_⟩
  · split
    · exact fresh
    cases found : l.trailing? with
    | none =>
      rw [trailingNodes_of_none found]
      exact fresh
    | some c =>
      obtain ⟨commented, trailing, line, stop⟩ := trailing?_placed here notComment reads found
      rw [trailingNodes_of_some found]
      refine ⟨?_, ?_, List.isChain_singleton _, ?_⟩
      · intro node member
        rw [List.mem_singleton.mp member]
        exact commented
      · intro node member
        rw [List.mem_singleton.mp member]
        exact Nat.lt_succ_of_le (Nat.le_of_eq stop)
      · intro head isHead index node here
        cases isHead
        rw [List.reverse_singleton, List.getElem?_singleton] at here
        split at here
        · rename_i first
          cases here
          exact Or.inr ⟨first, c, rfl, trailing, line⟩
        · cases here
  · intro head isHead
    cases isHead
    exact ⟨⟨SourceLine.start_in here, annotated, ⟨l.text, here, notComment, reads⟩, block⟩,
      Nat.lt_succ_self _, fit⟩

theorem LevelsFit.closeBlock {head : Head} {nodes siblings : List Outline}
    {outside : Option Head} {outer : List Level}
    (fit : LevelsFit lines l.index (⟨some head, nodes⟩ :: ⟨outside, siblings⟩ :: outer))
    (here : lines[l.index]? = some l.text) :
    LevelsFit lines (l.index + 1) (⟨outside, head.close l nodes.reverse :: siblings⟩ :: outer) := by
  obtain ⟨fits, before, around⟩ := fit.2 head rfl
  have placed : (head.close l nodes.reverse).Placed lines := by
    refine .decl ⟨⟨fits.start, SourceLine.stop_in here, Or.inl before⟩, fits.annotations, fits.read,
      ?_, fun _ => before⟩ fit.1.ordered ?_ ?_
    · intro oneLine
      rw [fits.block] at oneLine
      cases oneLine
    · intro index node found
      rcases fit.1.enclosed head rfl index node found with after | trails
      · refine Or.inl ⟨after, fit.1.before node ?_⟩
        exact List.mem_reverse.mp (List.mem_of_getElem? found)
      · exact Or.inr trails
    · intro node member
      exact fit.1.placed node (List.mem_reverse.mp member)
  exact around.push placed (Nat.le_refl _) (Nat.lt_succ_self _)

theorem Sketch.Nested.of_levels {line : Nat} {levels : List Level} {pending : List Annotation}
    (fit : LevelsFit lines line levels) (annotated : ∀ a ∈ pending, a.PlacedIn lines) :
    Sketch.Nested lines line ⟨levels, none, pending⟩ := by
  refine ⟨fun _ => fit, ?_, fun _ => rfl, annotated⟩
  intro c found
  cases found

theorem nested_act {s t : Sketch} (nested : s.Nested lines l.index) (free : s.run = none)
    (here : lines[l.index]? = some l.text) (notComment : Line.isComment l.text = false)
    (act : Act l s t) : t.Nested lines (l.index + 1) := by
  have fit := nested.open_levels free
  cases act with
  | @rest levels pending left kept =>
    apply Sketch.Nested.of_levels (fit.mono (Nat.le_succ _))
    intro a member
    rcases kept with rfl | rfl
    · exact nested.pending a member
    · cases member
  | annotate found outside =>
    apply Sketch.Nested.of_levels (fit.mono (Nat.le_succ _))
    intro a member
    rcases List.mem_append.mp member with member | member
    · exact nested.pending a member
    · rw [List.mem_singleton.mp member]
      exact ⟨SourceLine.range_valid here (Line.inked_of_annotationName? found), rfl⟩
  | @item head nodes outer pending annotations header reads oneLine taken =>
    refine .of_levels (fit.item here notComment reads oneLine ?_) (by simp)
    intro a member
    rcases taken with rfl | rfl
    · exact nested.pending a member
    · cases member
  | member inEnum reads =>
    exact .of_levels (fit.item here notComment reads rfl (by simp)) nested.pending
  | openBlock reads block =>
    exact .of_levels (fit.openBlock here notComment reads block nested.pending) (by simp)
  | closeBlock => exact .of_levels (fit.closeBlock here) nested.pending

theorem nested_closeRun {line : Nat} {s : Sketch} (nested : s.Nested lines line) :
    s.closeRun.Nested lines line ∧ s.closeRun.run = none := by
  obtain ⟨levels, run, pending⟩ := s
  cases run with
  | none => exact ⟨nested, rfl⟩
  | some c =>
    obtain ⟨placed, -, stop, fit⟩ := nested.run c rfl
    cases levels with
    | nil => exact ⟨.of_levels trivial nested.pending, rfl⟩
    | cons level outer =>
      refine ⟨.of_levels (fit.push (.comment placed) (Nat.le_refl _) ?_) nested.pending, rfl⟩
      change c.range.stop.line < line
      omega

theorem Sketch.Nested.of_run {line : Nat} {levels : List Level} {c : Comment}
    {pending : List Annotation} (outside : Sketch.inCode ⟨levels, some c, pending⟩ = false)
    (valid : c.range.Valid lines) (full : c.IsFullLine lines) (stop : c.range.stop.line + 1 = line)
    (fit : LevelsFit lines c.range.start.line levels)
    (annotated : ∀ a ∈ pending, a.PlacedIn lines) :
    Sketch.Nested lines line ⟨levels, some c, pending⟩ := by
  refine ⟨?_, ?_, ?_, annotated⟩
  · intro free
    cases free
  · intro found same
    cases same
    exact ⟨⟨valid, Or.inr full⟩, full, stop, fit⟩
  · intro inside
    rw [outside] at inside
    cases inside

theorem nested_addComment {s : Sketch} (nested : s.Nested lines l.index)
    (outside : s.inCode = false) (here : lines[l.index]? = some l.text)
    (comment : Line.isComment l.text = true) : (s.addComment l).Nested lines (l.index + 1) := by
  obtain ⟨levels, run, pending⟩ := s
  cases run with
  | none =>
    have full : (Comment.ofLine l).IsFullLine lines := by
      intro index low high
      have same : index = l.index := Nat.le_antisymm high low
      rw [same]
      exact ⟨l.text, here, comment⟩
    have valid := SourceLine.range_valid here (Line.inked_of_isComment comment)
    exact .of_run outside valid full rfl (nested.open_levels rfl) nested.pending
  | some old =>
    obtain ⟨placed, oldFull, stop, fit⟩ := nested.run old rfl
    -- The lines of the longer comment are those of the old one and the line just read.
    have full : (old.extend l).IsFullLine lines := by
      intro index low high
      by_cases last : index = l.index
      · rw [last]
        exact ⟨l.text, here, comment⟩
      · have high : index ≤ l.index := high
        exact oldFull index low (by omega)
    have before : old.range.start.line < l.index := by
      have le := placed.valid.line_le
      omega
    have valid : (old.extend l).range.Valid lines :=
      ⟨placed.valid.start, SourceLine.stop_in here, Or.inl before⟩
    exact .of_run outside valid full rfl fit nested.pending

theorem nested_move {s t : Sketch} (nested : s.Nested lines l.index)
    (here : lines[l.index]? = some l.text) (move : Move l s t) : t.Nested lines (l.index + 1) := by
  cases move with
  | inCode inside =>
    have free := nested.code inside
    have later := (nested.open_levels free).mono (Nat.le_succ l.index)
    refine ⟨fun _ => later, ?_, fun _ => free, nested.pending⟩
    intro c found
    rw [free] at found
    cases found
  | @endCode head nodes siblings outside outer run pending code =>
    have free : run = none := nested.code code
    subst free
    exact .of_levels ((nested.open_levels rfl).closeBlock here) nested.pending
  | gather outside comment => exact nested_addComment nested outside here comment
  | act outside notComment act =>
    obtain ⟨closed, free⟩ := nested_closeRun nested
    exact nested_act closed free here notComment act

end Lines

theorem nested_start (lines : List (List Char)) : Sketch.start.Nested lines 0 := by
  apply Sketch.Nested.of_levels
  · refine ⟨⟨by simp, by simp, List.isChain_nil, by simp⟩, ?_⟩
    intro head found
    cases found
  · simp

/-- What is read of a text is well nested. -/
theorem nested_of_read {lines : List (List Char)} {t : ReaderState}
    (read : (readFrom dialect 0 {} lines).result = .ok t) : t.sketch.Nested lines lines.length := by
  apply sketch_of_read read (nested_start lines)
  intro index text s t here nested move
  exact nested_move nested here move

end BrightDoc
