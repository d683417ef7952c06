import BrightDoc.Proofs.Line.MemberNames
import BrightDoc.Proofs.Reader.Bodies
import BrightDoc.Proofs.Reader.Skipping
import BrightDoc.Proofs.Reader.Translation

/-! # Where a body of code ends

In a body of code the reader keeps nothing but the number of open functions: one line below the header
it is one, and the body ends on the line that brings it to zero (`codeSpans_iff_staysOpen`). The number
stops at zero, but until then it is the difference of the functions opened and closed
(`depthAfter_of_staysOpen`). Names of members such as `v.sub(w)` and `m.endSub()` are counted as functions
that open and close, so the body reaches to its last line just if they cancel out on the way. -/

namespace BrightDoc

variable {dialect : Dialect}

/-- The focus with the given number of functions open, if it is on a body of code. -/
def Focus.withDepth (depth : Nat) : Focus → Focus
  | functionBody f _ => functionBody f depth
  | methodBody b m _ => methodBody b m depth
  | focus => focus

/-- The number of functions open after some lines of a body of code. -/
def depthAfter (depth : Nat) (lines : List (List Char)) : Nat :=
  lines.foldl (fun depth line => bodyDepth depth ⟨0, line⟩) depth

theorem depthAfter_concat (depth : Nat) (front : List (List Char)) (line : List Char) (index : Nat) :
    depthAfter depth (front ++ [line]) = bodyDepth (depthAfter depth front) ⟨index, line⟩ := by
  rw [depthAfter, List.foldl_append]
  rfl

/-- Some function is open after each of the lines. -/
def StaysOpen (depth : Nat) (lines : List (List Char)) : Prop :=
  ∀ front, front <+: lines → depthAfter depth front ≠ 0

theorem StaysOpen.of_front {depth : Nat} {front lines : List (List Char)} (stays : StaysOpen depth lines)
    (isFront : front <+: lines) : StaysOpen depth front :=
  fun shorter isShorter => stays shorter (isShorter.trans isFront)

theorem staysOpen_nil : StaysOpen 1 [] := by
  intro front isFront
  rw [List.prefix_nil.mp isFront]
  exact Nat.one_ne_zero

theorem staysOpen_concat {depth : Nat} {front : List (List Char)} {line : List Char} :
    StaysOpen depth (front ++ [line]) ↔
      StaysOpen depth front ∧ depthAfter depth (front ++ [line]) ≠ 0 := by
  constructor
  · intro stays
    exact ⟨stays.of_front (List.prefix_append front [line]), stays _ List.prefix_rfl⟩
  · rintro ⟨stays, last⟩ shorter isFront
    rcases List.prefix_concat_iff.mp isFront with rfl | isFront
    · exact last
    · exact stays shorter isFront

/-- What a line of a body of code counts for. A comment line counts for nothing. -/
def bodyCount (count : List Char → Nat) (line : List Char) : Nat :=
  if Line.isComment line then 0 else count (Line.splitComment line).1

/-- What some lines of a body of code count for. -/
def bodyTotal (count : List Char → Nat) : List (List Char) → Nat
  | [] => 0
  | line :: more => bodyCount count line + bodyTotal count more

theorem bodyTotal_concat (count : List Char → Nat) (front : List (List Char)) (line : List Char) :
    bodyTotal count (front ++ [line]) = bodyTotal count front + bodyCount count line := by
  induction front with
  | nil => exact Nat.add_comm _ _
  | cons first front ih => rw [List.cons_append, bodyTotal, bodyTotal, ih, Nat.add_assoc]

theorem depthAfter_concat_eq (depth : Nat) (front : List (List Char)) (line : List Char) :
    depthAfter depth (front ++ [line]) = depthAfter depth front +
      bodyCount Line.openedFunctions line - bodyCount Line.closedFunctions line := by
  rw [depthAfter_concat depth front line 0, bodyDepth, bodyCount, bodyCount]
  split <;> rfl

section Counting

variable {body : List (List Char)}

/-- As long as a body stays open, its open functions are the one of its header and those that its lines
open and do not close. -/
theorem depthAfter_of_staysOpen (stays : StaysOpen 1 body) :
    depthAfter 1 body + bodyTotal Line.closedFunctions body =
      1 + bodyTotal Line.openedFunctions body := by
  induction body using List.reverseRecOn with
  | nil => rfl
  | append_singleton front line ih =>
    obtain ⟨before, more⟩ := staysOpen_concat.mp stays
    have sum := ih before
    rw [depthAfter_concat_eq] at more ⊢
    rw [bodyTotal_concat, bodyTotal_concat]
    omega

/-- The count of open functions stops at zero, but a body stays open just if its lines never close more
functions than they have opened. -/
theorem staysOpen_iff_covered :
    StaysOpen 1 body ↔ ∀ front, front <+: body →
      bodyTotal Line.closedFunctions front ≤ bodyTotal Line.openedFunctions front := by
  constructor
  · intro stays front isFront
    have open_ := stays front isFront
    have sum := depthAfter_of_staysOpen (stays.of_front isFront)
    omega
  · intro covered
    induction body using List.reverseRecOn with
    | nil => exact staysOpen_nil
    | append_singleton front line ih =>
      have stays : StaysOpen 1 front :=
        ih fun shorter isFront => covered shorter (isFront.trans (List.prefix_append _ _))
      have sum := depthAfter_of_staysOpen stays
      have whole := covered _ List.prefix_rfl
      refine staysOpen_concat.mpr ⟨stays, ?_⟩
      rw [bodyTotal_concat, bodyTotal_concat] at whole
      rw [depthAfter_concat_eq]
      omega

end Counting

namespace ReaderState

/-- The state with the given number of functions open, if it is in a body of code. -/
def withDepth (s : ReaderState) (depth : Nat) : ReaderState :=
  { s with focus := s.focus.withDepth depth }

@[simp] theorem sketch_withDepth (s : ReaderState) (depth : Nat) :
    (s.withDepth depth).sketch = s.sketch := by
  obtain ⟨frames, items, focus, run, pending⟩ := s
  cases focus <;> rfl

/-- The state in which the function that is open ends on the given line. -/
def endFunction (s : ReaderState) (last : SourceLine) : ReaderState :=
  match s.focus with
  | .functionBody f _ => s.push (.function (f.endingAt last))
  | .methodBody b m _ =>
    { s with
      focus := .classBody (b.push (.method { m with function := m.function.endingAt last })) }
  | _ => s

section Code

variable {s : ReaderState} (inside : s.sketch.inCode = true) {depth : Nat} {l : SourceLine}

include inside

/-- A line of a body of code that does not end it changes the number of open functions alone. -/
theorem step_withDepth (more : bodyDepth depth l ≠ 0) :
    (s.withDepth depth).step dialect l = .ok (s.withDepth (bodyDepth depth l)) := by
  have found := focus_of_inCode inside
  obtain ⟨frames, items, focus, run, pending⟩ := s
  obtain ⟨f, left, rfl⟩ | ⟨b, m, left, rfl⟩ := found
  · simp only [step, withDepth, Focus.withDepth]
  · simp only [step, withDepth, Focus.withDepth]

/-- A line that leaves no function open ends the body of code. -/
theorem step_withDepth_zero (none : bodyDepth depth l = 0) :
    (s.withDepth depth).step dialect l = .ok (s.endFunction l) := by
  have found := focus_of_inCode inside
  obtain ⟨frames, items, focus, run, pending⟩ := s
  obtain ⟨f, left, rfl⟩ | ⟨b, m, left, rfl⟩ := found
  · simp only [step, withDepth, Focus.withDepth, none, endFunction, push]
  · simp only [step, withDepth, Focus.withDepth, none, endFunction]

theorem inCode_endFunction : (s.endFunction l).sketch.inCode = false := by
  have found := focus_of_inCode inside
  obtain ⟨frames, items, focus, run, pending⟩ := s
  obtain ⟨f, left, rfl⟩ | ⟨b, m, left, rfl⟩ := found
  · cases frames <;> rfl
  · rfl

/-- Lines of a body of code that do not end it change the number of open functions alone. -/
theorem readFrom_withDepth {body : List (List Char)} (stays : StaysOpen depth body) (index : Nat)
    (dialect : Dialect) :
    readFrom dialect index (s.withDepth depth) body = .ok (s.withDepth (depthAfter depth body)) := by
  induction body generalizing depth index with
  | nil => rfl
  | cons line body ih =>
    have more : bodyDepth depth ⟨index, line⟩ ≠ 0 :=
      stays [line] (List.cons_prefix_cons.mpr ⟨rfl, List.nil_prefix⟩)
    have rest : StaysOpen (bodyDepth depth ⟨index, line⟩) body :=
      fun front isFront => stays (line :: front) (List.cons_prefix_cons.mpr ⟨rfl, isFront⟩)
    rw [readFrom, step_withDepth inside more, Outcome.ok_andThen, ih rest]
    rfl

end Code

/-- Where a line opens a body of code, one function is open in it. -/
theorem withDepth_one_of_step {s t : ReaderState} {l : SourceLine} (outside : s.sketch.inCode = false)
    (stepped : (s.step dialect l).result = .ok t) : t.withDepth 1 = t := by
  have fresh : HoldsFresh fun focus => focus.withDepth 1 = focus :=
    ⟨rfl, fun _ => rfl, fun _ => rfl, fun _ _ => rfl, fun _ => rfl, fun _ _ => rfl⟩
  have handled : Handled l (fun t => t.focus.withDepth 1 = t.focus) (s.step dialect l) := by
    unfold step
    cases found : s.focus with
    | functionBody f depth =>
      simp only [sketch, levels, found] at outside
      cases outside
    | methodBody b m depth =>
      simp only [sketch, levels, found] at outside
      cases outside
    | _ => exact gather_fresh fresh s (by rw [found]; rfl)
  have one : t.focus.withDepth 1 = t.focus := by simpa only [Handled, stepped] using handled
  obtain ⟨frames, items, focus, run, pending⟩ := t
  rw [withDepth, one]

end ReaderState

instance (lines : List (List Char)) (start index : Nat) :
    Decidable (InCodeFrom dialect lines start index) :=
  decidable_of_iff
    (((stateBefore dialect lines index).toOption.bind fun s => s.sketch.codeStart?) = some start) <| by
    unfold InCodeFrom
    cases stateBefore dialect lines index with
    | ok s => simp [Except.toOption]
    | error e => simp [Except.toOption]

theorem InCodeFrom.inCode {lines : List (List Char)} {start index : Nat} {s : ReaderState}
    (inside : InCodeFrom dialect lines start index) (now : stateBefore dialect lines index = .ok s) :
    s.sketch.inCode = true := by
  obtain ⟨t, now', found⟩ := inside
  cases now.symm.trans now'
  exact Sketch.inCode_of_codeStart? found

/-- The body of code below the header on the line `start` reaches to the line `stop`. -/
structure CodeSpans (dialect : Dialect) (lines : List (List Char)) (start stop : Nat) : Prop where
  inside : ∀ index, start < index → index ≤ stop → InCodeFrom dialect lines start index
  closed : ∃ s, stateBefore dialect lines (stop + 1) = .ok s ∧ s.sketch.inCode = false

theorem Placement.Skipped.codeSpans {lines : List (List Char)} {p : Placement}
    (skipped : p.Skipped dialect lines) :
    CodeSpans dialect lines p.range.start.line p.range.stop.line :=
  ⟨skipped.inside, skipped.closed⟩

/-- A body of code ends on one line. -/
theorem CodeSpans.stop_le {lines : List (List Char)} {start stop other : Nat}
    (spans : CodeSpans dialect lines start stop) (spans' : CodeSpans dialect lines start other)
    (after : start ≤ other) : stop ≤ other := by
  by_contra beyond
  obtain ⟨s, now, outside⟩ := spans'.closed
  rw [(spans.inside (other + 1) (by omega) (by omega)).inCode now] at outside
  cases outside

/-- The header of the body of code that the reader is in. -/
theorem Sketch.head_of_codeStart? {s : Sketch} {start : Nat} (found : s.codeStart? = some start) :
    ∃ level outer head, s.levels = level :: outer ∧ level.head = some head ∧
      head.header.hasCode = true ∧ head.start.line = start := by
  obtain ⟨levels, run, pending⟩ := s
  simp only [codeStart?] at found
  split at found
  · rename_i head nodes outer
    split at found
    · rename_i code
      exact ⟨_, _, head, rfl, rfl, code, Option.some.inj found⟩
    · cases found
  · cases found

/-- A line of a body of code opens no other one. -/
theorem codeStart?_of_inCode {l : SourceLine} {s t : Sketch} (plain : s.PlainAround)
    (inside : s.inCode = true) (move : Move l s t) {start : Nat} (found : t.codeStart? = some start) :
    s.codeStart? = some start := by
  cases move with
  | inCode _ => exact found
  | endCode code =>
    rw [Sketch.codeStart?_of_outside (plain.outside _)] at found
    cases found
  | gather outside comment =>
    rw [inside] at outside
    cases outside
  | act outside code act =>
    rw [inside] at outside
    cases outside

/-- One function is open below the header of a body of code. -/
theorem withDepth_one_of_header {lines : List (List Char)} {start : Nat} {head : List Char}
    (here : lines[start]? = some head) {t : ReaderState}
    (now : stateBefore dialect lines (start + 1) = .ok t)
    (inside : t.sketch.codeStart? = some start) : t.withDepth 1 = t := by
  have within : start ≤ lines.length := Nat.le_of_lt (List.getElem?_eq_some_iff.mp here).1
  have taken : lines.take (start + 1) = lines.take start ++ [head] := by
    rw [List.take_add_one, here, Option.toList_some]
  obtain ⟨s, before, -⟩ : ∃ s, stateBefore dialect lines start = .ok s ∧ _ := by
    have read := now
    rw [stateBefore, taken, readFrom_append] at read
    exact Outcome.andThen_eq_ok read
  have stepped : (s.step dialect ⟨start, head⟩).result = .ok t :=
    (stateBefore_succ here before).symm.trans now
  apply ReaderState.withDepth_one_of_step _ stepped
  cases code : s.sketch.inCode with
  | false => rfl
  | true =>
    -- A body that is open before the header line has its own header above it.
    have same := codeStart?_of_inCode s.plainAround code (ReaderState.move_of_step stepped) inside
    obtain ⟨level, outer, open_, levels, innermost, -, line⟩ := Sketch.head_of_codeStart? same
    have earlier := openedBefore_of_read before open_
      (by simp [Sketch.heads, levels, innermost])
    rw [List.length_take, Nat.min_eq_left within] at earlier
    omega

section Text

variable {lines above body below : List (List Char)} {head last : List Char} {t : ReaderState}

theorem getElem?_header (split : lines = above ++ head :: below) : lines[above.length]? = some head := by
  rw [split]
  simp

theorem take_header (split : lines = above ++ head :: below) :
    lines.take (above.length + 1) = above ++ [head] := by
  rw [split, List.append_cons]
  exact List.take_left' (by simp)

/-- As long as the body stays open, the reader is in the state that the header leaves, but for the
number of open functions. -/
theorem stateBefore_body (split : lines = above ++ head :: (body ++ below))
    (now : stateBefore dialect lines (above.length + 1) = .ok t)
    (inside : t.sketch.codeStart? = some above.length) (stays : StaysOpen 1 body) :
    stateBefore dialect lines (above.length + body.length + 1) =
      .ok (t.withDepth (depthAfter 1 body)) := by
  have one := withDepth_one_of_header (getElem?_header split) now inside
  have further : lines.take (above.length + body.length + 1) = above ++ [head] ++ body := by
    rw [split, List.append_cons, ← List.append_assoc]
    exact List.take_left' (by simp [Nat.add_assoc])
  rw [stateBefore, take_header split] at now
  rw [stateBefore, further, readFrom_ok_append now]
  conv_lhs => rw [← one]
  rw [ReaderState.readFrom_withDepth (Sketch.inCode_of_codeStart? inside) stays]
  rfl

/-- The line that leaves no function open ends the body. -/
theorem stateAfter_body (split : lines = above ++ head :: (body ++ last :: below))
    (now : stateBefore dialect lines (above.length + 1) = .ok t)
    (inside : t.sketch.codeStart? = some above.length) (stays : StaysOpen 1 body)
    (none : depthAfter 1 (body ++ [last]) = 0) :
    stateBefore dialect lines (above.length + body.length + 1 + 1) =
      .ok (t.endFunction ⟨above.length + body.length + 1, last⟩) := by
  have here : lines[above.length + body.length + 1]? = some last := by
    have place : above.length + body.length + 1 = (above ++ [head] ++ body).length := by
      simp [Nat.add_assoc]
    rw [split, List.append_cons, ← List.append_assoc, place,
      List.getElem?_append_right (Nat.le_refl _), Nat.sub_self, List.getElem?_cons_zero]
  rw [stateBefore_succ here (stateBefore_body split now inside stays)]
  rw [depthAfter_concat] at none
  rw [ReaderState.step_withDepth_zero (Sketch.inCode_of_codeStart? inside) none]
  rfl

/-- A body of code that reaches to its last line has stayed open up to there. -/
theorem staysOpen_of_codeSpans (split : lines = above ++ head :: (body ++ last :: below))
    (now : stateBefore dialect lines (above.length + 1) = .ok t)
    (inside : t.sketch.codeStart? = some above.length)
    (spans : CodeSpans dialect lines above.length (above.length + body.length + 1)) :
    StaysOpen 1 body := by
  suffices stays : ∀ front, front <+: body → StaysOpen 1 front from stays body List.prefix_rfl
  intro front
  induction front using List.reverseRecOn with
  | nil => exact fun _ => staysOpen_nil
  | append_singleton front line ih =>
    intro isFront
    have stays := ih ((List.prefix_append front [line]).trans isFront)
    refine staysOpen_concat.mpr ⟨stays, fun none => ?_⟩
    -- The body would end on this line, which comes before the last one.
    obtain ⟨rest, rfl⟩ := isFront
    have left := stateAfter_body (by simpa using split) now inside stays none
    have outside := ReaderState.inCode_endFunction (l := ⟨above.length + front.length + 1, line⟩)
      (Sketch.inCode_of_codeStart? inside)
    have still := spans.inside (above.length + front.length + 1 + 1) (by omega)
      (by simp only [List.length_append, List.length_singleton]; omega)
    rw [still.inCode left] at outside
    cases outside

/-- A body of code reaches to the line that leaves no function open, if some function has stayed open
before it. -/
theorem codeSpans_iff_staysOpen (split : lines = above ++ head :: (body ++ last :: below))
    (header : InCodeFrom dialect lines above.length (above.length + 1)) :
    CodeSpans dialect lines above.length (above.length + body.length + 1) ↔
      StaysOpen 1 body ∧ depthAfter 1 (body ++ [last]) = 0 := by
  obtain ⟨t, now, inside⟩ := header
  constructor
  · intro spans
    have stays := staysOpen_of_codeSpans split now inside spans
    refine ⟨stays, ?_⟩
    by_contra some
    have longer := staysOpen_concat.mpr ⟨stays, some⟩
    have still := stateBefore_body (by simpa using split) now inside longer
    obtain ⟨s, left, outside⟩ := spans.closed
    rw [List.length_append, List.length_singleton, ← Nat.add_assoc] at still
    cases left.symm.trans still
    rw [ReaderState.sketch_withDepth, Sketch.inCode_of_codeStart? inside] at outside
    cases outside
  · rintro ⟨stays, none⟩
    refine ⟨?_, _, stateAfter_body split now inside stays none,
      ReaderState.inCode_endFunction (Sketch.inCode_of_codeStart? inside)⟩
    intro index after upTo
    obtain ⟨count, rfl⟩ : ∃ count, index = above.length + count + 1 :=
      ⟨index - above.length - 1, by omega⟩
    have front := stays.of_front ( List.take_prefix count body)
    rw [← List.take_append_drop count body, List.append_assoc] at split
    have before := stateBefore_body split now inside front
    rw [List.length_take, Nat.min_eq_left (by omega)] at before
    exact ⟨_, before, by rw [ReaderState.sketch_withDepth]; exact inside⟩

end Text

section Members

/-- On a line whose function words are names of members, each of them counts. -/
theorem bodyCount_of_onlyMembers {line : List Char} (only : Line.onlyMembers line = true) :
    bodyCount Line.openedFunctions line = Line.memberCount Line.opensFunction line ∧
      bodyCount Line.closedFunctions line = Line.memberCount Line.closesFunction line := by
  unfold bodyCount Line.memberCount
  cases comment : Line.isComment line with
  | true => exact ⟨rfl, rfl⟩
  | false =>
    rw [Line.onlyMembers, comment, Bool.false_or] at only
    exact ⟨Line.countWordStarts_eq_countMembers (fun _ => Line.namesFunction_of_opensFunction) only,
      Line.countWordStarts_eq_countMembers (fun _ => Line.namesFunction_of_closesFunction) only⟩

variable {body : List (List Char)} (only : ∀ line ∈ body, Line.onlyMembers line = true)

include only

theorem bodyTotal_of_onlyMembers :
    bodyTotal Line.openedFunctions body = Line.memberTotal Line.opensFunction body ∧
      bodyTotal Line.closedFunctions body = Line.memberTotal Line.closesFunction body := by
  induction body with
  | nil => exact ⟨rfl, rfl⟩
  | cons line body ih =>
    rw [List.forall_mem_cons] at only
    obtain ⟨opened, closed⟩ := bodyCount_of_onlyMembers only.1
    obtain ⟨openedMore, closedMore⟩ := ih only.2
    rw [bodyTotal, bodyTotal, opened, closed, openedMore, closedMore]
    exact ⟨rfl, rfl⟩

theorem membersCancel_iff_staysOpen :
    Line.MembersCancel body ↔ StaysOpen 1 body ∧ depthAfter 1 body = 1 := by
  have covered : StaysOpen 1 body ↔ ∀ front, front <+: body →
      Line.memberTotal Line.closesFunction front ≤ Line.memberTotal Line.opensFunction front := by
    rw [staysOpen_iff_covered]
    refine forall₂_congr fun front isFront => ?_
    obtain ⟨opened, closed⟩ := bodyTotal_of_onlyMembers fun line member =>
      only line (isFront.subset member)
    rw [opened, closed]
  obtain ⟨opened, closed⟩ := bodyTotal_of_onlyMembers only
  constructor
  · intro cancel
    have stays := covered.mpr cancel.covered
    have sum := depthAfter_of_staysOpen stays
    have even := cancel.even
    exact ⟨stays, by omega⟩
  · rintro ⟨stays, one⟩
    have sum := depthAfter_of_staysOpen stays
    exact ⟨covered.mp stays, by omega⟩

end Members

/-- Blank lines leave a body as it is. -/
theorem depthAfter_of_isBlank {blanks : List (List Char)}
    (blank : ∀ line ∈ blanks, Line.isBlank line = true) (depth : Nat) :
    depthAfter depth blanks = depth := by
  induction blanks with
  | nil => rfl
  | cons line blanks ih =>
    rw [List.forall_mem_cons] at blank
    have here : depthAfter depth (line :: blanks) = depthAfter (bodyDepth depth ⟨0, line⟩) blanks := rfl
    rw [here, bodyDepth_of_isBlank blank.1, ih blank.2]

theorem staysOpen_of_isBlank {blanks : List (List Char)}
    (blank : ∀ line ∈ blanks, Line.isBlank line = true) : StaysOpen 1 blanks := by
  intro front isFront
  rw [depthAfter_of_isBlank fun line member => blank line (isFront.subset member)]
  exact Nat.one_ne_zero

/-- Bodies of the same number of lines that leave one function open can be exchanged. -/
theorem readFrom_exchange {above body other below : List (List Char)} {t : ReaderState}
    (now : (readFrom dialect 0 {} above).result = .ok t) (inside : t.sketch.inCode = true)
    (one : t.withDepth 1 = t) (length : other.length = body.length)
    (stays : StaysOpen 1 body ∧ depthAfter 1 body = 1)
    (stays' : StaysOpen 1 other ∧ depthAfter 1 other = 1) :
    readFrom dialect 0 {} (above ++ (other ++ below)) =
      readFrom dialect 0 {} (above ++ (body ++ below)) := by
  have through : ∀ {code : List (List Char)} (index : Nat), StaysOpen 1 code ∧ depthAfter 1 code = 1 →
      readFrom dialect index t code = .ok t := by
    intro code index stays
    have run := ReaderState.readFrom_withDepth inside stays.1 index dialect
    rwa [stays.2, one] at run
  rw [readFrom_append, readFrom_append _ 0 {} above]
  apply Outcome.andThen_congr
  intro u found
  cases now.symm.trans found
  rw [readFrom_append, readFrom_append _ _ _ body, through _ stays, through _ stays', length]

/-- What has been declared stays declared. -/
theorem declared_of_read {lines : List (List Char)} {start : Nat} {t e : ReaderState} {head : Head}
    (now : stateBefore dialect lines start = .ok t) (within : start ≤ lines.length)
    (declared : head ∈ t.sketch.declared) (read : (readFrom dialect 0 {} lines).result = .ok e) :
    head ∈ e.sketch.declared := by
  have reached : stateBefore dialect lines lines.length = .ok e ∧
      (start ≤ lines.length → head ∈ e.sketch.declared) := by
    apply @state_of_read dialect
      (fun index s =>
        stateBefore dialect lines index = .ok s ∧ (start ≤ index → head ∈ s.sketch.declared))
      lines e read
    · refine ⟨rfl, fun atStart => ?_⟩
      rw [Nat.le_zero.mp atStart] at now
      cases now
      exact declared
    · rintro index text s u here ⟨before, kept⟩ stepped
      have after : stateBefore dialect lines (index + 1) = .ok u :=
        (stateBefore_succ here before).trans stepped
      refine ⟨after, fun upTo => ?_⟩
      rcases Nat.lt_or_eq_of_le upTo with earlier | same
      · have old := kept (Nat.le_of_lt_succ earlier)
        rcases declares_move (ReaderState.move_of_step stepped) with same | ⟨added, more, -⟩
        · rw [same]
          exact old
        · rw [more]
          exact List.mem_append_left _ old
      · rw [same] at now
        cases now.symm.trans after
        exact declared
  exact reached.2 within

/-- The tree has a function with its header on the line `start`, which ends on the line `stop`. -/
structure FunctionOn (statements : List Statement) (start stop : Nat) : Prop where
  declared : ∃ header p, (header, p) ∈ declarationsOf (outlines statements) ∧
    header.hasCode = true ∧ p.range.start.line = start
  stops : ∀ header p, (header, p) ∈ declarationsOf (outlines statements) → header.hasCode = true →
    p.range.start.line = start → p.range.stop.line = stop

/-- A body of code that reaches to a line makes a function of the tree that ends there. -/
theorem functionOn_of_codeSpans {lines : List (List Char)} {start stop : Nat}
    (header : InCodeFrom dialect lines start (start + 1)) (within : start < lines.length)
    (spans : CodeSpans dialect lines start stop) (after : start ≤ stop) {statements : List Statement}
    (read : (readLines dialect lines).result = .ok statements) : FunctionOn statements start stop where
  declared := by
    obtain ⟨t, now, inside⟩ := header
    obtain ⟨level, outer, open_, levels, innermost, code, line⟩ := Sketch.head_of_codeStart? inside
    have declared : open_ ∈ t.sketch.declared := by
      simp [Sketch.declared, levels, levelHeads, innermost]
    obtain ⟨e, readAll, finished⟩ := readLines_ok read
    have kept := declared_of_read now within declared readAll
    rw [declared_of_finish finished, headsOf, List.mem_map] at kept
    obtain ⟨⟨header, p⟩, member, same⟩ := kept
    subst same
    exact ⟨header, p, member, code, line⟩
  stops := by
    intro header p member code line
    have block : header.isOneLine = false := by
      rw [Bool.eq_false_iff]
      intro oneLine
      rw [Header.hasCode_of_isOneLine oneLine] at code
      cases code
    have ordered : p.range.start.line < p.range.stop.line :=
      ((outlined_of_readLines read).declared member).block block
    have spans' : CodeSpans dialect lines p.range.start.line p.range.stop.line :=
      (skipped_of_readLines read (header, p) member code).codeSpans
    rw [line] at spans' ordered
    exact Nat.le_antisymm (spans'.stop_le spans after) (spans.stop_le spans' (by omega))

/-- The lines hold a function with a last line of its own, in whose body function words are names of
members only. -/
structure MemberBody (dialect : Dialect) (lines above : List (List Char)) (head : List Char)
    (body : List (List Char))
    (last : List Char) (below : List (List Char)) : Prop where
  split : lines = above ++ head :: (body ++ last :: below)
  header : InCodeFrom dialect lines above.length (above.length + 1)
  members : ∀ line ∈ body, Line.onlyMembers line = true
  ends : Line.endsFunction last = true

instance (lines above : List (List Char)) (head : List Char) (body : List (List Char))
    (last : List Char) (below : List (List Char)) :
    Decidable (MemberBody dialect lines above head body last below) :=
  decidable_of_iff
    (lines = above ++ head :: (body ++ last :: below) ∧
      InCodeFrom dialect lines above.length (above.length + 1) ∧
      (∀ line ∈ body, Line.onlyMembers line = true) ∧ Line.endsFunction last = true)
    ⟨fun ⟨split, header, members, ends⟩ => ⟨split, header, members, ends⟩,
      fun found => ⟨found.split, found.header, found.members, found.ends⟩⟩

namespace MemberBody

variable {lines above body below : List (List Char)} {head last : List Char}
  (found : MemberBody dialect lines above head body last below)

include found

theorem codeSpans_iff :
    CodeSpans dialect lines above.length (above.length + body.length + 1) ↔
      Line.MembersCancel body := by
  rw [codeSpans_iff_staysOpen found.split found.header, membersCancel_iff_staysOpen found.members,
    depthAfter_concat 1 body last 0, bodyDepth_of_endsFunction found.ends]
  constructor
  · rintro ⟨stays, none⟩
    have some := stays body List.prefix_rfl
    exact ⟨stays, by omega⟩
  · rintro ⟨stays, one⟩
    exact ⟨stays, by omega⟩

/-- With names that cancel out, the text is read as with blank lines in the place of the body. -/
theorem readLines_blank (cancel : Line.MembersCancel body) {blanks : List (List Char)}
    (length : blanks.length = body.length) (blank : ∀ line ∈ blanks, Line.isBlank line = true) :
    readLines dialect (above ++ head :: (blanks ++ last :: below)) = readLines dialect lines := by
  obtain ⟨t, now, inside⟩ := found.header
  have one := withDepth_one_of_header (getElem?_header found.split) now inside
  rw [stateBefore, take_header found.split] at now
  have same : readFrom dialect 0 {} (above ++ [head] ++ (blanks ++ last :: below)) =
      readFrom dialect 0 {} (above ++ [head] ++ (body ++ last :: below)) :=
    readFrom_exchange now (Sketch.inCode_of_codeStart? inside) one length
      ((membersCancel_iff_staysOpen found.members).mp cancel)
      ⟨staysOpen_of_isBlank blank, depthAfter_of_isBlank blank 1⟩
  rw [← List.append_cons, ← List.append_cons, ← found.split] at same
  rw [readLines, readLines, same]

/-- The tree of the text has the function, with its end on the last line. -/
theorem functionOn (cancel : Line.MembersCancel body) {statements : List Statement}
    (read : (readLines dialect lines).result = .ok statements) :
    FunctionOn statements above.length (above.length + body.length + 1) :=
  functionOn_of_codeSpans found.header (by simp [found.split]) (found.codeSpans_iff.mpr cancel)
    (by omega) read

end MemberBody

/-- The function below `above` ends on its last line, and the text is read as if its body were blank. -/
structure EndsAsBlank (dialect : Dialect) (source : String) (above : List (List Char))
    (head : List Char) (body : List (List Char)) (last : List Char) (below : List (List Char)) :
    Prop where
  spans : CodeSpans dialect (Text.lines source.toList) above.length (above.length + body.length + 1)
  functionOn : ∀ statements, (parse dialect source).result = .ok statements →
    FunctionOn statements above.length (above.length + body.length + 1)
  asBlank : ∀ (other : String) (blanks : List (List Char)), blanks.length = body.length →
    (∀ line ∈ blanks, Line.isBlank line = true) →
    Text.lines other.toList = above ++ head :: (blanks ++ last :: below) →
    parse dialect other = parse dialect source

/-- A function whose body has function words as names of members only ends on the first `end function`
or `end sub` line below it, and the rest is read as if the body were blank, just if the names that read
as function ends and as function literals cancel out. -/
theorem member_names_inert_iff (dialect : Dialect) (source : String) (above : List (List Char))
    (head : List Char) (body : List (List Char)) (last : List Char) (below : List (List Char))
    (found : MemberBody dialect (Text.lines source.toList) above head body last below) :
    EndsAsBlank dialect source above head body last below ↔ Line.MembersCancel body := by
  constructor
  · intro ends
    exact found.codeSpans_iff.mp ends.spans
  · intro cancel
    refine ⟨found.codeSpans_iff.mpr cancel, ?_, ?_⟩
    · intro statements parsed
      exact found.functionOn cancel parsed
    · intro other blanks length blank lines
      rw [parse, parse, lines, found.readLines_blank cancel length blank]

/-- A member called `sub` and below it one called `endSub`, with function words in a literal and in a
comment between them. -/
theorem sub_and_endSub_inert :
    let source :=
      "function f()\nv.sub(w)\nx = \"end sub\" ' sub()\nm.endSub()\nend function\nsub g()\nend sub"
    let body := ["v.sub(w)".toList, "x = \"end sub\" ' sub()".toList, "m.endSub()".toList]
    let below := ["sub g()".toList, "end sub".toList]
    EndsAsBlank .brighterScript source [] "function f()".toList body "end function".toList below := by
  intro source body below
  have found : MemberBody .brighterScript (Text.lines source.toList) [] "function f()".toList body
      "end function".toList below := by decide +kernel
  have cancel : Line.MembersCancel body := by decide +kernel
  exact (member_names_inert_iff .brighterScript source [] _ body _ below found).mpr cancel

/-- After `v.sub(w)` the function does not end before the last line of the next one, and after
`m.endSub()` it ends at once. -/
theorem member_names_miscounted :
    let swallowing := "function f()\nv.sub(w)\nend function\nfunction g()\nend function"
    let ending := "function f()\nm.endSub()\nend function"
    (∀ dialect, MemberBody dialect (Text.lines swallowing.toList) [] "function f()".toList
        ["v.sub(w)".toList] "end function".toList ["function g()".toList, "end function".toList]) ∧
      (∀ dialect, MemberBody dialect (Text.lines ending.toList) [] "function f()".toList
        ["m.endSub()".toList] "end function".toList []) ∧
      ∀ dialect,
        ((parse dialect swallowing).result.toOption.map fun statements =>
          (declarationsOf (outlines statements)).map fun found => found.2.range) =
            some [⟨⟨0, 0⟩, ⟨4, 12⟩⟩] ∧
        (parse dialect ending).result.map (fun _ => ()) = .error (.unexpectedEnd "function" 3) := by
  intro swallowing ending
  refine ⟨?_, ?_, ?_⟩
  all_goals
    intro dialect
    cases dialect with
    | brightScript => decide +kernel
    | brighterScript => decide +kernel

end BrightDoc
