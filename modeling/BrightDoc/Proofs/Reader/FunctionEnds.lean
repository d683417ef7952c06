import BrightDoc.Proofs.Reader.BodyEnds
import Mathlib.Order.Bounds.Basic

/-! # The last line of a function

Below the header of a function the reader counts the functions that the lines open and end. The function
ends on the first line down to which more are ended than opened, and the reader goes on with the line after
it. Where there is no such line, the function is reported as open. -/

namespace BrightDoc

variable {dialect : Dialect}

/-- The function whose body of code the next line belongs to. -/
def Focus.function? : Focus → Option FunctionDecl
  | functionBody f _ => some f
  | methodBody _ m _ => some m.function
  | _ => none

/-- The line `start` is read as the header of the function `f`: no function is open before it, and `f` is
open in the state `t` after it. -/
structure ReadsHeader (dialect : Dialect) (lines : List (List Char)) (start : Nat)
    (t : ReaderState) (f : FunctionDecl) :
    Prop where
  outside : ∃ s, stateBefore dialect lines start = .ok s ∧ s.focus.function? = none
  after : stateBefore dialect lines (start + 1) = .ok t
  opened : t.focus.function? = some f

/-- The lines below the line `start`, down to the line `stop`. -/
def linesDownTo (lines : List (List Char)) (start stop : Nat) : List (List Char) :=
  (lines.drop (start + 1)).take (stop - start)

/-- Below the line `start`, down to the line `stop`, more functions are ended than opened. -/
structure EndsMore (lines : List (List Char)) (start stop : Nat) : Prop where
  below : start < stop
  within : stop < lines.length
  excess : bodyTotal Line.openedFunctions (linesDownTo lines start stop) <
    bodyTotal Line.closedFunctions (linesDownTo lines start stop)

instance (lines : List (List Char)) (start stop : Nat) : Decidable (EndsMore lines start stop) :=
  decidable_of_iff
    (start < stop ∧ stop < lines.length ∧
      bodyTotal Line.openedFunctions (linesDownTo lines start stop) <
        bodyTotal Line.closedFunctions (linesDownTo lines start stop))
    ⟨fun ⟨below, within, excess⟩ => ⟨below, within, excess⟩,
      fun ends => ⟨ends.below, ends.within, ends.excess⟩⟩

/-- The function that is open in the state `t`, with its header on the line `start`, ends on the line
`stop`: it is closed there, the rest of the text is read from the line after it, and every tree of the text
has it so. -/
structure EndsOn (dialect : Dialect) (lines : List (List Char)) (start stop : Nat)
    (t : ReaderState) : Prop where
  closed : ∃ last, lines[stop]? = some last ∧
    stateBefore dialect lines (stop + 1) = .ok (t.endFunction ⟨stop, last⟩) ∧
    (readFrom dialect 0 {} lines).result =
      (readFrom dialect (stop + 1) (t.endFunction ⟨stop, last⟩) (lines.drop (stop + 1))).result
  functionOn : ∀ statements, (readLines dialect lines).result = .ok statements →
    FunctionOn statements start stop

section Heads

variable {s t : ReaderState} {f : FunctionDecl}

theorem codeStart?_of_function? (opened : s.focus.function? = some f) :
    s.sketch.codeStart? = some f.placement.range.start.line := by
  obtain ⟨frames, items, focus, run, pending⟩ := s
  cases focus with
  | functionBody g depth =>
    cases opened
    rfl
  | methodBody b m depth =>
    cases opened
    rfl
  | statements => cases opened
  | classBody b => cases opened
  | interfaceBody b => cases opened
  | enumBody b next => cases opened

theorem inCode_of_function? (none : s.focus.function? = none) : s.sketch.inCode = false := by
  rw [Bool.eq_false_iff]
  intro inside
  obtain ⟨f, depth, found⟩ | ⟨b, m, depth, found⟩ := ReaderState.focus_of_inCode inside
  · rw [found] at none
    cases none
  · rw [found] at none
    cases none

/-- A text that ends in the body of a function leaves it open. -/
theorem finish_withDepth (opened : s.focus.function? = some f) (depth : Nat) :
    (s.withDepth depth).finish =
      .error (.unterminated f.kind.block (f.placement.range.start.line + 1)) := by
  obtain ⟨frames, items, focus, run, pending⟩ := s
  cases focus with
  | functionBody g left =>
    cases opened
    rfl
  | methodBody b m left =>
    cases opened
    rfl
  | statements => cases opened
  | classBody b => cases opened
  | interfaceBody b => cases opened
  | enumBody b next => cases opened

end Heads

section Lines

variable {lines : List (List Char)} {start : Nat}

/-- A body stays open as long as its lines end no more functions than they open. -/
theorem staysOpen_of_not_endsMore {count : Nat}
    (covered : ∀ stop, stop ≤ start + count → ¬ EndsMore lines start stop) :
    StaysOpen 1 ((lines.drop (start + 1)).take count) := by
  rw [staysOpen_iff_covered]
  intro front isFront
  have short := isFront.length_le
  rw [List.length_take, List.length_drop] at short
  have same := List.prefix_iff_eq_take.mp (isFront.trans ( List.take_prefix _ _))
  by_cases empty : front.length = 0
  · rw [List.length_eq_zero_iff.mp empty]
    exact Nat.le_refl _
  · have down : linesDownTo lines start (start + front.length) = front := by
      rw [linesDownTo, Nat.add_sub_cancel_left, ← same]
    by_contra more
    rw [Nat.not_le, ← down] at more
    exact covered (start + front.length) (by omega) ⟨by omega, by omega, more⟩

/-- The lines below the line `start`, cut at a line further down. -/
theorem drop_split {stop : Nat} (below : start < stop) (within : stop < lines.length) :
    ∃ body last, lines[stop]? = some last ∧
      lines.drop (start + 1) = body ++ last :: lines.drop (stop + 1) ∧
      body = (lines.drop (start + 1)).take (stop - start - 1) ∧
      linesDownTo lines start stop = body ++ [last] ∧ start + body.length + 1 = stop := by
  have there : lines[stop]? = some (lines.get ⟨stop, within⟩) := List.getElem?_eq_getElem within
  have size : stop - start = stop - start - 1 + 1 := by omega
  have place : start + 1 + (stop - start - 1) = stop := by omega
  refine ⟨_, lines.get ⟨stop, within⟩, there, ?_, rfl, ?_, ?_⟩
  · rw [List.get_eq_getElem, List.cons_getElem_drop_succ]
    conv_lhs => rw [← List.take_append_drop (stop - start - 1) (lines.drop (start + 1))]
    rw [List.drop_drop, place]
  · rw [linesDownTo, size, List.take_add_one, Nat.add_sub_cancel, List.getElem?_drop, place, there,
      Option.toList_some]
  · rw [List.length_take, List.length_drop]
    omega

end Lines

namespace ReadsHeader

variable {lines : List (List Char)} {start : Nat} {t : ReaderState} {f : FunctionDecl}
  (header : ReadsHeader dialect lines start t f)

include header

/-- The header is on a line of the text. -/
theorem within : start < lines.length := by
  obtain ⟨s, before, none⟩ := header.outside
  by_contra beyond
  have after := header.after
  rw [stateBefore, List.take_of_length_le (by omega)] at before after
  cases before.symm.trans after
  cases none.symm.trans header.opened

/-- The function starts on the line of its header. -/
theorem codeStart? : t.sketch.codeStart? = some start := by
  obtain ⟨s, before, none⟩ := header.outside
  have here := List.getElem?_eq_getElem header.within
  have stepped := (stateBefore_succ here before).symm.trans header.after
  have found := codeStart?_of_function? header.opened
  rcases codeStart?_move s.plainAround (ReaderState.move_of_step stepped) found with old | same
  · rw [Sketch.codeStart?_of_outside (inCode_of_function? none)] at old
    cases old
  · rw [found, same]

/-- The lines above the header, the header, and the lines below it. -/
theorem split :
    ∃ above head, lines = above ++ head :: lines.drop (start + 1) ∧ above.length = start := by
  refine ⟨lines.take start, lines.get ⟨start, header.within⟩, ?_, ?_⟩
  · rw [List.get_eq_getElem, List.cons_getElem_drop_succ, List.take_append_drop]
  · rw [List.length_take, Nat.min_eq_left (Nat.le_of_lt header.within)]

theorem inCodeFrom : InCodeFrom dialect lines start (start + 1) :=
  ⟨t, header.after, header.codeStart?⟩

/-- The function ends on the first line down to which more functions are ended than opened. -/
theorem endsOn {stop : Nat} (least : IsLeast {line | EndsMore lines start line} stop) :
    EndsOn dialect lines start stop t := by
  obtain ⟨⟨below, within, excess⟩, first⟩ := least
  obtain ⟨body, last, there, rest, isBody, down, place⟩ := drop_split below within
  obtain ⟨above, head, split, atStart⟩ := header.split
  rw [rest] at split
  have stays : StaysOpen 1 body := by
    rw [isBody]
    apply staysOpen_of_not_endsMore
    intro line upTo more
    have := first more
    omega
  have none : depthAfter 1 (body ++ [last]) = 0 := by
    have sum := depthAfter_of_staysOpen stays
    rw [down, bodyTotal_concat, bodyTotal_concat] at excess
    rw [depthAfter_concat_eq]
    omega
  have now : stateBefore dialect lines (above.length + 1) = .ok t := atStart ▸ header.after
  have inside : t.sketch.codeStart? = some above.length := atStart ▸ header.codeStart?
  have closed := stateAfter_body split now inside stays none
  have spans := (codeSpans_iff_staysOpen split ⟨t, now, inside⟩).mpr ⟨stays, none⟩
  rw [atStart, place] at closed spans
  refine ⟨⟨last, there, closed, ?_⟩, ?_⟩
  · have parts := readFrom_ok_append closed (lines.drop (stop + 1))
    rwa [List.take_append_drop, List.length_take, Nat.min_eq_left within, Nat.zero_add] at parts
  · intro statements read
    exact functionOn_of_codeSpans header.inCodeFrom header.within spans (Nat.le_of_lt below) read

/-- Where the lines below a function never end more functions than they open, it is reported as open. -/
theorem unterminated (covered : ∀ line, ¬ EndsMore lines start line) :
    (readLines dialect lines).result = .error (.unterminated f.kind.block (start + 1)) := by
  obtain ⟨above, head, split, atStart⟩ := header.split
  have now : stateBefore dialect lines (above.length + 1) = .ok t := atStart ▸ header.after
  have inside : t.sketch.codeStart? = some above.length := atStart ▸ header.codeStart?
  have stays : StaysOpen 1 (lines.drop (start + 1)) := by
    rw [← List.take_length (l := lines.drop (start + 1))]
    exact staysOpen_of_not_endsMore fun line _ => covered line
  rw [← List.append_nil (lines.drop (start + 1))] at split
  have atEnd := stateBefore_body split now inside stays
  have whole : lines.length ≤ above.length + (lines.drop (start + 1)).length + 1 := by
    rw [List.length_drop]
    omega
  have line : f.placement.range.start.line = start :=
    Option.some.inj ((codeStart?_of_function? header.opened).symm.trans header.codeStart?)
  rw [stateBefore, List.take_of_length_le whole] at atEnd
  rw [readLines_result, atEnd]
  exact line ▸ finish_withDepth header.opened _

end ReadsHeader

/-- A function ends on the first line below its header down to which more functions are ended than opened,
comment lines and the comments that end lines apart, and the text is read on from the line after it. If
there is no such line, the function is reported as open, by its own keyword and the line of its header. -/
theorem function_ends_at_first_excess (dialect : Dialect) (lines : List (List Char)) (start : Nat)
    (t : ReaderState) (f : FunctionDecl) (header : ReadsHeader dialect lines start t f) :
    (∀ stop, IsLeast {line | EndsMore lines start line} stop → EndsOn dialect lines start stop t) ∧
      ((∀ line, ¬ EndsMore lines start line) →
        (readLines dialect lines).result = .error (.unterminated f.kind.block (start + 1))) :=
  ⟨fun _ => header.endsOn, header.unterminated⟩

/-- A method with a function literal in its body and ends of functions in comments and literals, and the
same method without its own end. -/
theorem method_ends_below_literal :
    let body := ["f = function(x) ' end sub", "rem end function", "end function : s = \"end sub\""]
    let lines := (["class C", "private sub run()"] ++ body ++ ["end sub", "end class"]).map String.toList
    let cut := (["class C", "private sub run()"] ++ body).map String.toList
    (∃ t f, ReadsHeader .brighterScript lines 1 t f ∧ EndsOn .brighterScript lines 1 5 t) ∧
      (readLines .brighterScript cut).result = .error (.unterminated .sub 2) := by
  intro body lines cut
  constructor
  · obtain ⟨t, f, header⟩ : ∃ t f, ReadsHeader .brighterScript lines 1 t f :=
      ⟨_, _, ⟨_, rfl, rfl⟩, rfl, rfl⟩
    refine ⟨t, f, header, (function_ends_at_first_excess _ lines 1 t f header).1 5 ⟨?_, ?_⟩⟩
    · show EndsMore lines 1 5
      decide +kernel
    · intro line more
      have above : ∀ line < 5, ¬ EndsMore lines 1 line := by decide +kernel
      by_contra before
      exact above line (Nat.lt_of_not_le before) more
  · obtain ⟨t, f, header, sub⟩ : ∃ t f, ReadsHeader .brighterScript cut 1 t f ∧ f.kind = .sub :=
      ⟨_, _, ⟨⟨_, rfl, rfl⟩, rfl, rfl⟩, rfl⟩
    have covered : ∀ line < 5, ¬ EndsMore cut 1 line := by decide +kernel
    have failed := (function_ends_at_first_excess _ cut 1 t f header).2
      fun line more => covered line more.within more
    rw [sub] at failed
    exact failed

end BrightDoc
