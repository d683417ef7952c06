import BrightDoc.Proofs.Reader.Skipping

/-! # The declarations around a line

Before a line of a text that can be read those declarations are open that the tree has around the line:
the ones whose first line is above it and whose last line is not. A declaration that is opened stays open
until a line closes it, and is in the tree from then on; and one that a line closes has been open since the
line below its first one. -/

namespace BrightDoc

variable {dialect : Dialect}

/-- The line is below the first line of the declaration, and not below its last one. -/
def Placement.Spans (p : Placement) (index : Nat) : Prop :=
  p.range.start.line < index ∧ index ≤ p.range.stop.line

instance (p : Placement) (index : Nat) : Decidable (p.Spans index) :=
  inferInstanceAs (Decidable (_ ∧ _))

/-- Before the line `index` the declaration with the given first line is open. -/
def OpenBefore (dialect : Dialect) (lines : List (List Char)) (index : Nat) (head : Head) : Prop :=
  ∃ s, stateBefore dialect lines index = .ok s ∧ head ∈ s.sketch.heads

section Moves

variable {l : SourceLine} {s t : Sketch} {head : Head}

/-- What is open after a move has been open before it, or starts on the line of the move. -/
theorem heads_act (act : Act l s t) (inside : head ∈ t.heads) :
    head ∈ s.heads ∨ head.start.line = l.index := by
  cases act with
  | openBlock reads block =>
    rcases List.mem_cons.mp inside with rfl | before
    · exact Or.inr rfl
    · exact Or.inl before
  | closeBlock => exact Or.inl (List.mem_cons_of_mem _ inside)
  | rest _ | annotate _ _ | item _ _ _ | member _ _ => exact Or.inl inside

theorem heads_move (move : Move l s t) (inside : head ∈ t.heads) :
    head ∈ s.heads ∨ head.start.line = l.index := by
  cases move with
  | inCode _ => exact Or.inl inside
  | endCode code => exact Or.inl (List.mem_cons_of_mem _ inside)
  | gather outside comment =>
    obtain ⟨levels, run, pending⟩ := s
    cases run <;> exact Or.inl inside
  | act outside code act => exact s.heads_closeRun ▸ heads_act act inside

/-- The declaration has been read, and ends on the line or below it. -/
def Sketch.ClosedFrom (s : Sketch) (index : Nat) (head : Head) : Prop :=
  ∃ found ∈ s.closed, Head.ofDeclaration found = head ∧ index ≤ found.2.range.stop.line

section Closing

variable {last : Head} {nodes siblings : List Outline} {outside : Option Head} {outer : List Level}
  {run run' : Option Comment} {pending : List Annotation}

/-- The block that a line closes has been read then, and ends on the line. -/
theorem survives_closeBlock
    (inside : head ∈ Sketch.heads ⟨⟨some last, nodes⟩ :: ⟨outside, siblings⟩ :: outer, run, pending⟩) :
    head ∈ Sketch.heads ⟨⟨outside, last.close l nodes.reverse :: siblings⟩ :: outer, run', pending⟩ ∨
      Sketch.ClosedFrom ⟨⟨outside, last.close l nodes.reverse :: siblings⟩ :: outer, run', pending⟩
        l.index head := by
  rcases List.mem_cons.mp inside with rfl | around
  · refine Or.inr ⟨(head.header, { range := ⟨head.start, l.stop⟩, annotations := head.annotations }),
      ?_, rfl, Nat.le_refl _⟩
    simp [Sketch.closed, declarationsOf, Head.close, Outline.declarations]
  · exact Or.inl around

theorem closed_subset_closeBlock :
    Sketch.closed ⟨⟨some last, nodes⟩ :: ⟨outside, siblings⟩ :: outer, run, pending⟩ ⊆
      Sketch.closed ⟨⟨outside, last.close l nodes.reverse :: siblings⟩ :: outer, run', pending⟩ := by
  intro found inside
  simp only [Sketch.closed, List.flatMap_cons, declarationsOf, Head.close, Outline.declarations,
    List.cons_append, List.mem_cons, List.mem_append] at inside ⊢
  rcases inside with inner | beside | around
  · rw [← nodes.reverse_reverse] at inner
    exact Or.inr (Or.inl (Or.inl (mem_declarationsOf_reverse inner)))
  · exact Or.inr (Or.inl (Or.inr beside))
  · exact Or.inr (Or.inr around)

end Closing

theorem closed_subset_act (act : Act l s t) : s.closed ⊆ t.closed := by
  cases act with
  | rest _ | annotate _ _ => exact List.Subset.refl _
  | item reads oneLine taken =>
    intro found inside
    simp only [Sketch.closed, List.flatMap_cons, declarationsOf_append, declarationsOf,
      List.mem_append] at inside ⊢
    exact inside.imp_left fun before => Or.inr (Or.inr before)
  | member inEnum reads =>
    intro found inside
    simp only [Sketch.closed, List.flatMap_cons, declarationsOf_append, declarationsOf,
      List.mem_append] at inside ⊢
    exact inside.imp_left fun before => Or.inr (Or.inr before)
  | openBlock reads block => exact List.subset_append_right _ _
  | closeBlock => exact closed_subset_closeBlock

/-- What has been read stays in the tree. -/
theorem closed_subset_move (move : Move l s t) : s.closed ⊆ t.closed := by
  cases move with
  | inCode _ => exact List.Subset.refl _
  | endCode code => exact closed_subset_closeBlock
  | gather outside comment =>
    obtain ⟨levels, run, pending⟩ := s
    cases run <;> exact List.Subset.refl _
  | act outside code act => exact closed_closeRun s ▸ closed_subset_act act

theorem survives_act (act : Act l s t) (inside : head ∈ s.heads) :
    head ∈ t.heads ∨ t.ClosedFrom l.index head := by
  cases act with
  | openBlock reads block => exact Or.inl (List.mem_cons_of_mem _ inside)
  | closeBlock => exact survives_closeBlock inside
  | rest _ | annotate _ _ | item _ _ _ | member _ _ => exact Or.inl inside

/-- What is open before a move is open after it, or ends on the line of the move. -/
theorem survives_move (move : Move l s t) (inside : head ∈ s.heads) :
    head ∈ t.heads ∨ t.ClosedFrom l.index head := by
  cases move with
  | inCode _ => exact Or.inl inside
  | endCode code => exact survives_closeBlock inside
  | gather outside comment =>
    obtain ⟨levels, run, pending⟩ := s
    cases run <;> exact Or.inl inside
  | act outside code act => exact survives_act act (s.heads_closeRun.symm ▸ inside)

end Moves

/-- What the reader can tell of the blocks that it has met: each that is open has been so since the line
below its first one, and so had each that has been closed, up to its last line. -/
structure ReaderState.Tracks (dialect : Dialect) (lines : List (List Char)) (index : Nat)
    (s : ReaderState) : Prop where
  now : stateBefore dialect lines index = .ok s
  opened : ∀ head ∈ s.sketch.heads, ∀ i, head.start.line < i → i ≤ index →
    OpenBefore dialect lines i head
  closed : ∀ found ∈ s.sketch.closed, ∀ i, found.2.Spans i →
    OpenBefore dialect lines i (Head.ofDeclaration found)

theorem Sketch.mem_heads_of_innermost? {s : Sketch} {head : Head}
    (innermost : s.innermost? = some head) : head ∈ s.heads := by
  obtain ⟨levels, run, pending⟩ := s
  cases levels with
  | nil => cases innermost
  | cons level outer =>
    obtain ⟨_, nodes⟩ := level
    cases innermost
    exact List.mem_cons_self

theorem ReaderState.Tracks.step {lines : List (List Char)} {index : Nat} {text : List Char}
    {s t : ReaderState} (tracks : s.Tracks dialect lines index) (here : lines[index]? = some text)
    (stepped : (s.step dialect ⟨index, text⟩).result = .ok t) : t.Tracks dialect lines (index + 1) := by
  have now : stateBefore dialect lines (index + 1) = .ok t :=
    (stateBefore_succ here tracks.now).trans stepped
  have move := move_of_step stepped
  refine ⟨now, ?_, ?_⟩
  · intro head inside i after upTo
    rcases Nat.lt_or_eq_of_le upTo with before | rfl
    · rcases heads_move move inside with old | own
      · exact tracks.opened head old i after (Nat.le_of_lt_succ before)
      · exact absurd after (by rw [own]; exact Nat.not_lt_of_le (Nat.le_of_lt_succ before))
    · exact ⟨t, now, inside⟩
  · intro found inside i spans
    rcases closed_move move inside with before | finishes
    · exact tracks.closed found before i spans
    · cases finishes with
      | @line header annotations oneLine settled =>
        have single := header.rangeOn_line ⟨index, text⟩
        have below : (header.rangeOn ⟨index, text⟩).start.line < i := spans.1
        have upTo : i ≤ (header.rangeOn ⟨index, text⟩).stop.line := spans.2
        omega
      | @block head innermost outside kept =>
        exact tracks.opened head (Sketch.mem_heads_of_innermost? innermost) i spans.1 spans.2

/-- The declarations that are open before a line are those of the tree that the line is in. -/
theorem mem_heads_iff {lines : List (List Char)} {statements : List Statement}
    (read : (readLines dialect lines).result = .ok statements) {index : Nat}
    (within : index ≤ lines.length) {s : ReaderState} (now : stateBefore dialect lines index = .ok s)
    (head : Head) :
    head ∈ s.sketch.heads ↔
      ∃ found ∈ declarationsOf (outlines statements), Head.ofDeclaration found = head ∧
        found.2.Spans index := by
  obtain ⟨t, readAll, finished⟩ := readLines_ok read
  have length : (lines.take index).length = index := by
    rw [List.length_take, Nat.min_eq_left within]
  constructor
  · intro inside
    have above : head.start.line < index := by
      have before := openedBefore_of_read now head inside
      rwa [length] at before
    have rest : (readFrom dialect (lines.take index).length s (lines.drop index)).result = .ok t := by
      have parts := readFrom_ok_append now (lines.drop index)
      rw [List.take_append_drop, Nat.zero_add] at parts
      exact parts.symm.trans readAll
    -- From here on the declaration is open, or has been closed on a line that is not above.
    let Kept (i : Nat) (u : ReaderState) : Prop :=
      index ≤ i ∧ (head ∈ u.sketch.heads ∨ u.sketch.ClosedFrom index head)
    have kept : Kept lines.length t := by
      apply readFrom_invariant lines ?_ (lines.drop index) (lines.take index) s t
        (List.take_append_drop _ _).symm ⟨length.ge, Or.inl inside⟩ rest
      intro i text u v here kept stepped
      have move := ReaderState.move_of_step stepped
      refine ⟨Nat.le_succ_of_le kept.1, ?_⟩
      rcases kept.2 with still | ⟨found, closed, same, upTo⟩
      · rcases survives_move move still with still | ⟨found, closed, same, upTo⟩
        · exact Or.inl still
        · exact Or.inr ⟨found, closed, same, kept.1.trans upTo⟩
      · exact Or.inr ⟨found, closed_subset_move move closed, same, upTo⟩
    have levels := ReaderState.finish_ok finished
    rcases kept.2 with still | ⟨found, closed, rfl, upTo⟩
    · rw [← Sketch.heads_closeRun, Sketch.heads, levels] at still
      cases still
    · rw [← closed_closeRun, Sketch.closed, levels, List.flatMap_singleton] at closed
      exact ⟨found, mem_declarationsOf_reverse closed, rfl, above, upTo⟩
  · rintro ⟨found, declared, rfl, spans⟩
    have tracks : t.Tracks dialect lines lines.length := by
      apply state_of_read readAll
      · refine ⟨rfl, ?_, ?_⟩
        · intro head inside
          cases inside
        · intro found inside
          rw [closed_start] at inside
          cases inside
      · intro i text u v here tracks stepped
        exact tracks.step here stepped
    obtain ⟨s', now', inside⟩ := tracks.closed found (closed_of_finish finished declared) index spans
    cases now.symm.trans now'
    exact inside

end BrightDoc
