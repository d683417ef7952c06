import BrightDoc.Proofs.Reader.Marks

/-! # The declarations read so far

The first lines of all declarations of a sketch, those that are still open among them, in the order of
the text. A move adds at most one, which starts on the line of the move and takes all annotations that
wait or none; and annotations come to wait only one by one, each from its own line. -/

namespace BrightDoc

/-- What the first line of a declaration of a tree says. -/
def Head.ofDeclaration (found : Header × Placement) : Head :=
  { header := found.1, start := found.2.range.start, annotations := found.2.annotations }

/-- The first lines of all declarations in some nodes, in the order of the declarations. -/
def headsOf (nodes : List Outline) : List Head :=
  (declarationsOf nodes).map Head.ofDeclaration

theorem headsOf_append (first second : List Outline) :
    headsOf (first ++ second) = headsOf first ++ headsOf second := by
  rw [headsOf, declarationsOf_append, List.map_append]
  rfl

@[simp] theorem headsOf_nil : headsOf [] = [] := by
  simp [headsOf, declarationsOf]

@[simp] theorem headsOf_comment (c : Comment) : headsOf [.comment c] = [] := by
  simp [headsOf, declarationsOf, Outline.declarations]

@[simp] theorem headsOf_decl (header : Header) (placement : Placement) (body : List Outline) :
    headsOf [.decl header placement body] =
      { header, start := placement.range.start, annotations := placement.annotations } ::
        headsOf body := by
  simp [headsOf, declarationsOf, Outline.declarations, Head.ofDeclaration]

@[simp] theorem headsOf_reverse_trailingNodes (l : SourceLine) :
    headsOf l.trailingNodes.reverse = [] := by
  cases found : l.trailing? with
  | none => simp [trailingNodes_of_none found]
  | some c => simp [trailingNodes_of_some found]

/-- The first lines of the declarations in the open lists, from the outermost to the innermost one. -/
def levelHeads : List Level → List Head
  | [] => []
  | level :: outer => levelHeads outer ++ (level.head.toList ++ headsOf level.nodes.reverse)

/-- The first lines of all declarations that have been read, in source order. -/
def Sketch.declared (s : Sketch) : List Head :=
  levelHeads s.levels

/-- Nodes that are added to a list bring their own first lines. -/
theorem levelHeads_push (head : Option Head) (added nodes : List Outline) (outer : List Level) :
    levelHeads (⟨head, added ++ nodes⟩ :: outer) =
      levelHeads (⟨head, nodes⟩ :: outer) ++ headsOf added.reverse := by
  simp only [levelHeads, List.reverse_append, headsOf_append, List.append_assoc]

theorem declared_closeRun (s : Sketch) : s.closeRun.declared = s.declared := by
  obtain ⟨levels, run, pending⟩ := s
  cases run with
  | none => rfl
  | some c =>
    cases levels with
    | nil => rfl
    | cons level outer =>
      have pushed := levelHeads_push level.head [.comment c] level.nodes outer
      rw [List.reverse_singleton, headsOf_comment, List.append_nil] at pushed
      exact pushed

/-- `Declares l s t`: the line `l` declares nothing between the two sketches, or one declaration that
takes all annotations that wait or none. -/
def Declares (l : SourceLine) (s t : Sketch) : Prop :=
  t.declared = s.declared ∨
    ∃ head : Head, t.declared = s.declared ++ [head] ∧ head.start.line = l.index ∧
      (head.annotations = s.pending ∨ head.annotations = [])

theorem declared_item (l : SourceLine) (head : Option Head) (nodes : List Outline)
    (outer : List Level) (header : Header) (annotations : List Annotation) :
    levelHeads (⟨head, l.trailingNodes ++
        .decl header { range := header.rangeOn l, annotations } [] :: nodes⟩ :: outer) =
      levelHeads (⟨head, nodes⟩ :: outer) ++
        [{ header, start := (header.rangeOn l).start, annotations }] := by
  rw [List.append_cons, levelHeads_push, List.reverse_append, headsOf_append,
    headsOf_reverse_trailingNodes, List.append_nil, List.reverse_singleton, headsOf_decl,
    headsOf_nil]

theorem declared_openBlock (l : SourceLine) (levels : List Level) (header : Header)
    (annotations : List Annotation) :
    levelHeads (⟨some { header, start := l.start, annotations },
        if header.hasCode then [] else l.trailingNodes⟩ :: levels) =
      levelHeads levels ++ [{ header, start := l.start, annotations }] := by
  have body : headsOf (if header.hasCode then [] else l.trailingNodes).reverse = [] := by
    split
    · exact headsOf_nil
    · exact headsOf_reverse_trailingNodes l
  rw [levelHeads, body]
  rfl

theorem declared_closeBlock (l : SourceLine) (head : Head) (nodes siblings : List Outline)
    (outside : Option Head) (outer : List Level) :
    levelHeads (⟨outside, head.close l nodes.reverse :: siblings⟩ :: outer) =
      levelHeads (⟨some head, nodes⟩ :: ⟨outside, siblings⟩ :: outer) := by
  have pushed := levelHeads_push outside [head.close l nodes.reverse] siblings outer
  rw [List.reverse_singleton, Head.close, headsOf_decl] at pushed
  exact pushed

theorem declares_act {l : SourceLine} {s t : Sketch} (act : Act l s t) : Declares l s t := by
  cases act with
  | rest kept => exact Or.inl rfl
  | annotate found outside => exact Or.inl rfl
  | @item head nodes outer pending annotations header reads oneLine taken =>
    exact Or.inr ⟨_, declared_item l head nodes outer header annotations,
      (header.rangeOn_line l).1, taken⟩
  | @member head nodes outer pending name value inEnum reads =>
    exact Or.inr ⟨_, declared_item l (some head) nodes outer (.enumMember name value) [], rfl,
      Or.inr rfl⟩
  | @openBlock levels pending header reads block =>
    exact Or.inr ⟨_, declared_openBlock l levels header pending, rfl, Or.inl rfl⟩
  | closeBlock => exact Or.inl (declared_closeBlock l _ _ _ _ _)

theorem declares_move {l : SourceLine} {s t : Sketch} (move : Move l s t) : Declares l s t := by
  cases move with
  | inCode inside => exact Or.inl rfl
  | endCode code => exact Or.inl (declared_closeBlock l _ _ _ _ _)
  | gather outside comment =>
    obtain ⟨levels, run, pending⟩ := s
    cases run <;> exact Or.inl rfl
  | act outside code act =>
    have declares := declares_act act
    rw [Declares, declared_closeRun, pending_closeRun] at declares
    exact declares

/-- `Waits l before after`: the line `l` leaves the annotations that wait, or drops them all, or is one
more itself. -/
def Waits (l : SourceLine) (before after : List Annotation) : Prop :=
  after = before ∨ after = [] ∨ ∃ name, after = before ++ [{ name, range := l.range }]

theorem waits_act {l : SourceLine} {s t : Sketch} (act : Act l s t) :
    Waits l s.pending t.pending := by
  cases act with
  | rest kept =>
    rcases kept with rfl | rfl
    · exact Or.inl rfl
    · exact Or.inr (Or.inl rfl)
  | @annotate _ _ name found quiet => exact Or.inr (Or.inr ⟨String.ofList name, rfl⟩)
  | item reads oneLine taken => exact Or.inr (Or.inl rfl)
  | member inEnum reads => exact Or.inl rfl
  | openBlock reads block => exact Or.inr (Or.inl rfl)
  | closeBlock => exact Or.inl rfl

theorem waits_move {l : SourceLine} {s t : Sketch} (move : Move l s t) :
    Waits l s.pending t.pending := by
  cases move with
  | inCode inside => exact Or.inl rfl
  | endCode code => exact Or.inl rfl
  | gather outside comment =>
    obtain ⟨levels, run, pending⟩ := s
    cases run <;> exact Or.inl rfl
  | act outside code act => exact pending_closeRun s ▸ waits_act act

/-- The declaration whose body the next line belongs to. -/
def Sketch.innermost? (s : Sketch) : Option Head :=
  s.levels.head?.bind Level.head

theorem innermost?_closeRun (s : Sketch) : s.closeRun.innermost? = s.innermost? := by
  obtain ⟨levels, run, pending⟩ := s
  cases run with
  | none => rfl
  | some c => cases levels <;> rfl

/-- The declarations that have been read to their end. -/
def Sketch.closed (s : Sketch) : List (Header × Placement) :=
  s.levels.flatMap fun level => declarationsOf level.nodes

/-- `Finishes l s t found`: between the two sketches the line `l` ends the declaration `found`, as one
that is a single line or as the innermost that is open. -/
inductive Finishes (l : SourceLine) (s t : Sketch) : Header × Placement → Prop where
  | line {header : Header} {annotations : List Annotation} (oneLine : header.isOneLine = true)
      (settled : t.pending = [] ∨ s.inEnum = true ∧ t.pending = s.pending) :
      Finishes l s t (header, { range := header.rangeOn l, annotations })
  | block {head : Head} (innermost : s.innermost? = some head)
      (outside : ∀ around ∈ t.innermost?, ∃ level ∈ s.levels.tail, level.head = some around)
      (kept : t.pending = s.pending) :
      Finishes l s t (head.header,
        { range := ⟨head.start, l.stop⟩, annotations := head.annotations })

theorem declarationsOf_trailingNodes (l : SourceLine) : declarationsOf l.trailingNodes = [] := by
  cases found : l.trailing? with
  | none => simp [trailingNodes_of_none found, declarationsOf]
  | some c => simp [trailingNodes_of_some found, declarationsOf, Outline.declarations]

theorem mem_declarationsOf_reverse {nodes : List Outline} {found : Header × Placement}
    (inside : found ∈ declarationsOf nodes.reverse) : found ∈ declarationsOf nodes := by
  obtain ⟨node, member, inside⟩ := exists_of_mem_declarationsOf inside
  obtain ⟨before, after, split⟩ := List.append_of_mem (List.mem_reverse.mp member)
  rw [split, declarationsOf_append, declarationsOf]
  simp [inside]

theorem closed_closeRun (s : Sketch) : s.closeRun.closed = s.closed := by
  obtain ⟨levels, run, pending⟩ := s
  cases run with
  | none => rfl
  | some c =>
    cases levels with
    | nil => rfl
    | cons level outer =>
      simp [Sketch.closed, Sketch.closeRun, Sketch.push, declarationsOf, Outline.declarations]

/-- At the start nothing has been read. -/
theorem closed_start : Sketch.closed (ReaderState.sketch {}) = [] := by
  simp [Sketch.closed, ReaderState.sketch, ReaderState.levels, ReaderState.statementLevel, outerLevels,
    declarationsOf]

section Closing

variable {l : SourceLine} {s t : Sketch} {found : Header × Placement}

theorem closed_item {head : Option Head} {nodes : List Outline} {outer : List Level}
    {run run' : Option Comment} {pending pending' : List Annotation} {header : Header}
    {placement : Placement}
    (inside : found ∈ Sketch.closed ⟨⟨head, l.trailingNodes ++
      .decl header placement [] :: nodes⟩ :: outer, run, pending⟩) :
    found ∈ Sketch.closed ⟨⟨head, nodes⟩ :: outer, run', pending'⟩ ∨ found = (header, placement) := by
  simp only [Sketch.closed, List.flatMap_cons, declarationsOf_append, declarationsOf_trailingNodes,
    declarationsOf, Outline.declarations, List.nil_append, List.cons_append, List.mem_cons] at inside ⊢
  exact inside.symm

/-- A block that is closed joins the declarations of its body. -/
theorem closed_block {head : Head} {nodes siblings : List Outline} {outside : Option Head}
    {outer : List Level} {run : Option Comment} {pending : List Annotation}
    (inside : found ∈ Sketch.closed
      ⟨⟨outside, head.close l nodes.reverse :: siblings⟩ :: outer, run, pending⟩) :
    found ∈ Sketch.closed ⟨⟨some head, nodes⟩ :: ⟨outside, siblings⟩ :: outer, run, pending⟩ ∨
      Finishes l ⟨⟨some head, nodes⟩ :: ⟨outside, siblings⟩ :: outer, run, pending⟩
        ⟨⟨outside, head.close l nodes.reverse :: siblings⟩ :: outer, run, pending⟩ found := by
  simp only [Sketch.closed, List.flatMap_cons, declarationsOf, Head.close, Outline.declarations,
    List.cons_append, List.mem_cons, List.mem_append] at inside ⊢
  rcases inside with rfl | ((inner | beside) | around)
  · refine Or.inr (.block rfl ?_ rfl)
    intro around isAround
    exact ⟨⟨outside, siblings⟩, List.mem_cons_self, isAround⟩
  · exact Or.inl (Or.inl (mem_declarationsOf_reverse inner))
  · exact Or.inl (Or.inr (Or.inl beside))
  · exact Or.inl (Or.inr (Or.inr around))

theorem closed_act (act : Act l s t) (inside : found ∈ t.closed) :
    found ∈ s.closed ∨ Finishes l s t found := by
  cases act with
  | rest kept => exact Or.inl inside
  | annotate name outside => exact Or.inl inside
  | item reads oneLine taken =>
    rcases closed_item inside with before | rfl
    · exact Or.inl before
    · exact Or.inr (.line oneLine (Or.inl rfl))
  | @member head nodes outer pending name value inEnum reads =>
    rcases closed_item inside with before | rfl
    · exact Or.inl before
    · refine Or.inr (.line rfl (Or.inr ⟨?_, rfl⟩))
      simp [Sketch.inEnum, Sketch.heads, inEnum]
  | @openBlock levels pending header reads block =>
    have empty : declarationsOf (if header.hasCode then [] else l.trailingNodes) = [] := by
      split
      · exact List.map_eq_nil_iff.mp headsOf_nil
      · exact declarationsOf_trailingNodes l
    rw [Sketch.closed, List.flatMap_cons, empty] at inside
    exact Or.inl inside
  | closeBlock => exact closed_block inside

/-- What has been read to its end after a move has been before it, or ends on the line of the move. -/
theorem closed_move (move : Move l s t) (inside : found ∈ t.closed) :
    found ∈ s.closed ∨ Finishes l s t found := by
  cases move with
  | inCode _ => exact Or.inl inside
  | endCode code => exact closed_block inside
  | gather outside comment =>
    obtain ⟨levels, run, pending⟩ := s
    cases run <;> exact Or.inl inside
  | act outside code act =>
    rcases closed_act act inside with before | finishes
    · exact Or.inl (closed_closeRun s ▸ before)
    · refine Or.inr ?_
      cases finishes with
      | line oneLine settled =>
        rw [Sketch.inEnum, Sketch.heads_closeRun, pending_closeRun] at settled
        exact .line oneLine settled
      | block innermost outside kept =>
        rw [innermost?_closeRun] at innermost
        rw [pending_closeRun] at kept
        refine .block innermost ?_ kept
        intro around isAround
        obtain ⟨level, member, head⟩ := outside around isAround
        refine ⟨level, ?_, head⟩
        obtain ⟨levels, run, pending⟩ := s
        cases run with
        | none => exact member
        | some c => cases levels <;> exact member

end Closing

/-- Where a text has been read, what has been declared is the declarations of its tree. -/
theorem declared_of_finish {t : ReaderState} {statements : List Statement}
    (finished : t.finish = .ok statements) : t.sketch.declared = headsOf (outlines statements) := by
  rw [← declared_closeRun, Sketch.declared, ReaderState.finish_ok finished, levelHeads,
    List.reverse_reverse]
  rfl

theorem closed_of_finish {t : ReaderState} {statements : List Statement}
    (finished : t.finish = .ok statements) {found : Header × Placement}
    (inside : found ∈ declarationsOf (outlines statements)) : found ∈ t.sketch.closed := by
  rw [← closed_closeRun, Sketch.closed, ReaderState.finish_ok finished, List.flatMap_singleton]
  apply mem_declarationsOf_reverse
  rw [List.reverse_reverse]
  exact inside

end BrightDoc
